import Rtic.Syntax.Ownership
namespace Rtic.Syntax.Analyze
open Ordered

-- The statements of assertions::codegen; no backend has any of its own.
inductive Assertion where
  | assertSend (ty : Ty)
  | assertSync (ty : Ty)
  deriving DecidableEq, Repr

def assertions (analysis : Analysis) : List Assertion :=
  analysis.sendTypes.map .assertSend++analysis.syncTypes.map .assertSync

-- The resources of the hardware and software tasks at nonzero priorities.
def tasksAbove (application : App) : List (SharedResources × LocalResources) :=
  ((application.hardwareTasks.filter fun task => 0 < task.2.priority).map fun task =>
      (task.2.sharedResources,task.2.localResources))++
    (application.softwareTasks.filter fun task => 0 < task.2.priority).map fun task =>
      (task.2.sharedResources,task.2.localResources)

def ListsLocal (application : App) (name : Ident) : Prop :=
  ∃ task ∈ tasksAbove application, (name,TaskLocal.external) ∈ task.2

def ListsShared (application : App) (name : Ident) : Prop :=
  ∃ task ∈ tasksAbove application, containsKey task.1 name = true

-- main asserts that the type of every local resource is `Send` if a task above priority 0 lists it.
def LocalsSend (application : App) (analysis : Analysis) : Prop :=
  ∀ entry ∈ application.localResources, ListsLocal application entry.1 →
    entry.2.ty ∈ analysis.sendTypes ∧ .assertSend entry.2.ty ∈ assertions analysis

-- The types that are asserted to be `Send`. A local resource is looked up among the owners of the
-- shared ones, so it counts only if a shared resource has its name.
def Asserted (application : App) (ty : Ty) : Prop :=
  (∃ entry ∈ application.sharedResources, entry.2.ty = ty ∧ ListsShared application entry.1) ∨
  (∃ entry ∈ application.localResources, entry.2.ty = ty ∧ ListsShared application entry.1) ∨
  ∃ task ∈ application.softwareTasks, task.2.localTask = false ∧ ty ∈ task.2.inputs

theorem listsShared_iff {application : App} {name : Ident} :
    ListsShared application name ↔ ∃ priority ∈ listers application name, priority ≠ 0 := by
  unfold ListsShared tasksAbove listers
  simp only [List.mem_append,List.mem_map,List.mem_filter,Multiset.mem_coe,decide_eq_true_eq]
  constructor
  · rintro ⟨_,⟨task,⟨member,above⟩,rfl⟩ | ⟨task,⟨member,above⟩,rfl⟩,listed⟩
    · exact ⟨_,Or.inl (Or.inr ⟨task,⟨member,listed⟩,rfl⟩),Nat.pos_iff_ne_zero.mp above⟩
    · exact ⟨_,Or.inr ⟨task,⟨member,listed⟩,rfl⟩,Nat.pos_iff_ne_zero.mp above⟩
  · rintro ⟨_,(⟨idle,_,rfl⟩ | ⟨task,⟨member,listed⟩,rfl⟩) | ⟨task,⟨member,listed⟩,rfl⟩,above⟩
    · exact absurd rfl above
    · exact ⟨_,Or.inl ⟨task,⟨member,Nat.pos_iff_ne_zero.mpr above⟩,rfl⟩,listed⟩
    · exact ⟨_,Or.inr ⟨task,⟨member,Nat.pos_iff_ne_zero.mpr above⟩,rfl⟩,listed⟩

theorem Owns.needsSend {application : App} {ownerships : Map Ownership} {name : Ident}
    (owns : Owns (listers application name) (get? ownerships name)) :
    needsSend ownerships name = true ↔ ListsShared application name := by
  rw [needsSend_iff owns,listsShared_iff]
  constructor
  · exact fun ⟨_,highest,member,_,above⟩ => ⟨highest,member,above⟩
  · rintro ⟨priority,member,above⟩
    cases known : get? ownerships name with
    | none =>
      rw [known] at owns
      cases owns with
      | unused empty => simp [empty] at member
    | some ownership =>
      rw [known] at owns
      obtain ⟨highest,bound⟩ := owns.ceiling
      refine ⟨fun empty => by simp [empty] at member,_,highest,bound,fun zero => above ?_⟩
      exact Nat.le_zero.mp (zero ▸ bound priority member)

theorem mem_sendTypes {application : App} {analysis : Analysis} (keyed : application.Keyed)
    (checked : Check.app application = .ok ()) (accepted : app application = .ok analysis) {ty : Ty} :
    ty ∈ analysis.sendTypes ↔ Asserted application ty := by
  obtain ⟨ownerships,_,types⟩ := app_located accepted
  have owns := fun name => ownerships_owns keyed checked accepted name
  rw [types,mem_sends]
  unfold Asserted SentLater sharedSendTypes
  simp only [mem_foldl_insertSet,(owns _).needsSend,List.not_mem_nil,false_or,and_comm]

theorem mem_assertions {analysis : Analysis} {ty : Ty} :
    .assertSend ty ∈ assertions analysis ↔ ty ∈ analysis.sendTypes := by
  simp [assertions]

-- The local resources are guarded exactly if each type that needs it is asserted for another reason.
theorem localsSend_iff {application : App} {analysis : Analysis} (keyed : application.Keyed)
    (checked : Check.app application = .ok ()) (accepted : app application = .ok analysis) :
    LocalsSend application analysis ↔
      ∀ entry ∈ application.localResources, ListsLocal application entry.1 → Asserted application entry.2.ty := by
  unfold LocalsSend
  simp only [mem_assertions,and_self,mem_sendTypes keyed checked accepted]

-- A hardware task at priority 1 lists a raw pointer; a shared buffer of the same type keeps another one safe.
def movesPointer : App :=
  ⟨[],⟨"init",[]⟩,none,[("buffer",⟨"&'static u8",false⟩)],[("pointer",⟨"*mut u8"⟩),("slot",⟨"&'static u8"⟩)],
    [("tick",⟨"SysTick",1,[("pointer",.external),("slot",.external)],[("buffer",.exclusive)]⟩)],[]⟩

def movesSlot : App := {movesPointer with
  localResources := [("slot",⟨"&'static u8"⟩)]
  hardwareTasks := [("tick",⟨"SysTick",1,[("slot",.external)],[("buffer",.exclusive)]⟩)]}

def movesAnalysis (locals : List Ident) : Analysis := ⟨[],["buffer"],locals,[("buffer",.owned 1)],["&'static u8"],[]⟩

theorem movesSlot_keyed : movesSlot.Keyed := by
  constructor <;> decide

theorem movesSlot_send : LocalsSend movesSlot (movesAnalysis ["slot"]) := by
  refine (localsSend_iff movesSlot_keyed (by decide) rfl).mpr fun entry member _ => Or.inl ?_
  cases List.mem_singleton.mp member
  exact ⟨_,List.mem_singleton_self _,rfl,_,List.mem_singleton_self _,by decide⟩

theorem movesPointer_unguarded : ¬ ∀ (application : App) (analysis : Analysis), application.Parsed → application.Keyed →
    Check.app application = .ok () → app application = .ok analysis → LocalsSend application analysis := by
  intro all
  have guarded := all movesPointer (movesAnalysis ["pointer","slot"]) (by constructor <;> decide)
    (by constructor <;> decide) (by decide) rfl ("pointer",⟨"*mut u8"⟩) (by decide)
    ⟨_,List.mem_singleton_self _,by decide⟩
  exact absurd guarded.1 (by decide)

end Rtic.Syntax.Analyze
