import Mathlib.Data.List.Sort
import Rtic.Library.Transition
import Rtic.Syntax.Check
namespace Rtic.Syntax.Analyze
open Ordered

inductive Ownership where
  | owned (priority : Nat)
  | coOwned (priority : Nat)
  | contended (ceiling : Nat)
  deriving DecidableEq, Repr

-- Every variant carries one number, which the source's or-patterns bind alike.
def Ownership.ceiling : Ownership → Nat
  | .owned priority => priority
  | .coOwned priority => priority
  | .contended ceiling => ceiling

structure Analysis where
  channels : List (Nat × List Ident)
  sharedResources : List Ident
  localResources : List Ident
  ownerships : Map Ownership
  sendTypes : List Ty
  syncTypes : List Ty
  deriving DecidableEq, Repr

abbrev TaskResources := Ident × List Ident × LocalResources × Nat

def taskResourcesList (app : App) : List TaskResources :=
  (app.init.name,[],app.init.localResources,0)::
    app.idle.toList.map (fun idle => (idle.name,idle.sharedResources.map Prod.fst,idle.localResources,0))++
    app.softwareTasks.map (fun task =>
      (task.1,task.2.sharedResources.map Prod.fst,task.2.localResources,task.2.priority))++
    app.hardwareTasks.map (fun task =>
      (task.1,task.2.sharedResources.map Prod.fst,task.2.localResources,task.2.priority))

def quoted (name : Ident) : String := "\""++name++"\""

def lockFree (app : App) : List Ident :=
  (app.sharedResources.filter fun entry => entry.2.lockFree).map Prod.fst

structure LockFreeState where
  error : List Error
  withError : List Ident
  hash : Map Nat

-- One use of a lock-free resource: the last user's priority is replaced, and a
-- differing one, or an earlier violation, marks both uses.
def lockFreeUse (app : App) (task : Ident) (priority : Nat) (s : LockFreeState) (r : Ident) : LockFreeState :=
  let error := if containsKey app.softwareTasks task then
      s.error++[⟨r,"Lock free shared resource "++quoted r++" is used by an async tasks, which is forbidden"⟩]
    else s.error
  let hash := insert s.hash r priority
  match get? s.hash r with
  | none => ⟨error,s.withError,hash⟩
  | some previous =>
    let differ := if priority ≠ previous then s.withError++[r,r] else s.withError
    ⟨error,if differ.contains r then differ++[r,r] else differ,hash⟩

def lockFreeErrors (app : App) : List Error :=
  let final := (lockFree app).foldl (fun s resource =>
    (taskResourcesList app).foldl (fun s task =>
      task.2.1.foldl (fun s r =>
        if resource = r then lockFreeUse app task.1 task.2.2.2 s r else s) s) s) ⟨[],[],[]⟩
  final.error++
    ((lockFree app).filter final.withError.contains).map (fun r =>
      ⟨r,"Lock free shared resource "++quoted r++" is used by tasks at different priorities"⟩)++
    final.withError.map (fun r =>
      ⟨r,"Shared resource "++quoted r++" is declared lock free but used by tasks at different priorities"⟩)

structure LocalState where
  withError : List Ident
  hash : List Ident

def localUse (s : LocalState) (entry : Ident × TaskLocal) : LocalState :=
  match entry.2 with
  | .external =>
    if s.hash.contains entry.1 then ⟨s.withError++[entry.1,entry.1],s.hash⟩
    else ⟨s.withError,s.hash++[entry.1]⟩
  | .declared _ => ⟨s.withError++[entry.1,entry.1],s.hash⟩

def localErrors (app : App) : List Error :=
  let final := (app.localResources.map Prod.fst).foldl (fun s resource =>
    (taskResourcesList app).foldl (fun s task =>
      task.2.2.1.foldl (fun s entry => if resource = entry.1 then localUse s entry else s) s) s) ⟨[],[]⟩
  final.withError.map fun r =>
    ⟨r,"Local resource "++quoted r++" is used by multiple tasks or collides with multiple definitions"⟩

def idleErrors (app : App) : List Error :=
  app.softwareTasks.flatMap fun task =>
    if task.2.priority = 0 ∧ app.idle.isSome then
      [⟨task.1,"Async task "++quoted task.1++" has priority 0, but `#[idle]` is defined. 0-priority async tasks are only allowed if there is no `#[idle]`."⟩]
    else []

structure Locations where
  used : List Ident
  ownerships : Map Ownership
  syncTypes : List Ty
  deriving DecidableEq, Repr

def insertSet [DecidableEq α] (set : List α) (value : α) : List α :=
  if value ∈ set then set else set++[value]

-- The ownership after one more access at `priority`.
def Ownership.access (self : Ownership) (priority : Nat) : Ownership :=
  if priority ≠ self.ceiling then .contended (max self.ceiling priority)
  else match self with
    | .owned priority => .coOwned priority
    | other => other

def locate (app : App) (s : Locations) (entry : Option Nat × Ident × Access) : Locations :=
  let name := entry.2.1
  let used := insertSet s.used name
  match entry.1 with
  | none => {s with used := used}
  | some priority => match get? s.ownerships name with
    | none => ⟨used,insert s.ownerships name (.owned priority),s.syncTypes⟩
    | some ownership =>
      let syncTypes := match get? app.sharedResources name with
        | some resource =>
          if priority ≠ ownership.ceiling ∧ entry.2.2.isShared then insertSet s.syncTypes resource.ty
          else s.syncTypes
        | none => s.syncTypes
      ⟨used,insert s.ownerships name (ownership.access priority),syncTypes⟩

def locations (app : App) : Locations :=
  app.sharedResourceAccesses.foldl (locate app) ⟨[],[],[]⟩

def usedLocals (app : App) : List Ident :=
  (taskResourcesList app).foldl (fun used task =>
    task.2.2.1.foldl (fun used entry => insertSet used entry.1) used) []

def needsSend (ownerships : Map Ownership) (name : Ident) : Bool :=
  ((get? ownerships name).map fun ownership => decide (ownership.ceiling ≠ 0)).getD false

-- The loop over the shared resources, before those over the local ones and the inputs.
def sharedSendTypes (app : App) (ownerships : Map Ownership) : List Ty :=
  app.sharedResources.foldl (fun types entry =>
    if needsSend ownerships entry.1 then insertSet types entry.2.ty else types) []

def sendTypes (app : App) (ownerships : Map Ownership) : List Ty :=
  let shared := sharedSendTypes app ownerships
  let locals := app.localResources.foldl (fun types entry =>
    if needsSend ownerships entry.1 then insertSet types entry.2.ty else types) shared
  app.softwareTasks.foldl (fun types task =>
    if task.2.localTask then types else task.2.inputs.foldl insertSet types) locals

-- channels: BTreeMap<Priority, Channel>, with the tasks of each level as a set
def channelOf (app : App) (priority : Nat) : List Ident :=
  ((app.softwareTasks.filter fun task => task.2.priority = priority).map Prod.fst).insertionSort (· ≤ ·)

def levels (app : App) : List Nat :=
  ((app.softwareTasks.map fun task => task.2.priority).foldl insertSet []).insertionSort (· ≤ ·)

def channels (app : App) : List (Nat × List Ident) :=
  (levels app).map fun priority => (priority,channelOf app priority)

def app (app : App) : Except (List Error) Analysis :=
  match lockFreeErrors app++localErrors app++idleErrors app with
  | first::rest => .error (first::first::rest)
  | [] =>
    let located := locations app
    .ok ⟨channels app,located.used,usedLocals app,located.ownerships,sendTypes app located.ownerships,
      located.syncTypes⟩

theorem mem_insertSet {α : Type} [DecidableEq α] {set : List α} {value item : α} :
    item ∈ insertSet set value ↔ item ∈ set ∨ item = value := by
  unfold insertSet
  split
  · rename_i present
    exact ⟨Or.inl,fun member => member.elim id fun same => same ▸ present⟩
  · simp

theorem mem_insertSets {α : Type} [DecidableEq α] {items set : List α} {item : α} :
    item ∈ items.foldl insertSet set ↔ item ∈ set ∨ item ∈ items := by
  induction items generalizing set with
  | nil => simp
  | cons first rest ih => rw [List.foldl_cons,ih,mem_insertSet,List.mem_cons,or_assoc]

theorem insertSets_nodup {α : Type} [DecidableEq α] {items set : List α} (distinct : set.Nodup) :
    (items.foldl insertSet set).Nodup := by
  induction items generalizing set with
  | nil => exact distinct
  | cons first rest ih =>
    refine ih ?_
    unfold insertSet
    split
    · exact distinct
    · rename_i absent
      exact List.nodup_append.mpr ⟨distinct,by simp,fun a member b last same =>
        absent (List.mem_singleton.mp last ▸ same ▸ member)⟩

theorem mem_levels {app : App} {priority : Nat} :
    priority ∈ levels app ↔ ∃ task ∈ app.softwareTasks, task.2.priority = priority := by
  unfold levels
  rw [List.mem_insertionSort,mem_insertSets]
  simp

theorem levels_nodup (app : App) : (levels app).Nodup :=
  (List.perm_insertionSort _ _).nodup_iff.mpr (insertSets_nodup List.nodup_nil)

theorem mem_channelOf {app : App} {priority : Nat} {name : Ident} :
    name ∈ channelOf app priority ↔ ∃ task, (name,task) ∈ app.softwareTasks ∧ task.priority = priority := by
  unfold channelOf
  rw [List.mem_insertionSort]
  simp

theorem app_parts {application : App} {analysis : Analysis} (accepted : app application = .ok analysis) :
    lockFreeErrors application = [] ∧ localErrors application = [] ∧ idleErrors application = [] ∧
      analysis.ownerships = (locations application).ownerships := by
  unfold app at accepted
  split at accepted
  · cases accepted
  · rename_i clean
    simp only [List.append_eq_nil_iff] at clean
    cases accepted
    exact ⟨clean.1.1,clean.1.2,clean.2,rfl⟩

theorem app_channels {application : App} {analysis : Analysis} (accepted : app application = .ok analysis) :
    analysis.channels = channels application := by
  unfold app at accepted
  split at accepted
  · cases accepted
  · cases accepted
    rfl

-- The priorities of the accesses to `name`, in the order they are visited.
def accessPriorities (accesses : List (Option Nat × Ident × Access)) (name : Ident) : List Nat :=
  (accesses.filter fun entry => entry.2.1 = name).filterMap Prod.fst

theorem accessPriorities_concat (visited : List (Option Nat × Ident × Access)) (priority : Nat) (name : Ident)
    (access : Access) :
    accessPriorities (visited++[(some priority,name,access)]) name = accessPriorities visited name++[priority] := by
  simp [accessPriorities]

theorem accessPriorities_other {visited : List (Option Nat × Ident × Access)} {entry : Option Nat × Ident × Access}
    {name : Ident} (other : entry.2.1 ≠ name) :
    accessPriorities (visited++[entry]) name = accessPriorities visited name := by
  simp [accessPriorities,other]

@[simp] theorem access_ceiling (ownership : Ownership) (priority : Nat) :
    (ownership.access priority).ceiling = max ownership.ceiling priority := by
  unfold Ownership.access
  split
  · rfl
  · rename_i same
    have same : priority = ownership.ceiling := by simpa using same
    subst same
    cases ownership <;> simp [Ownership.ceiling]

theorem locate_other (application : App) (s : Locations) {entry : Option Nat × Ident × Access} {name : Ident}
    (other : entry.2.1 ≠ name) :
    get? (locate application s entry).ownerships name = get? s.ownerships name := by
  have apart : name ≠ entry.2.1 := fun same => other same.symm
  unfold locate
  dsimp only
  split
  · rfl
  · split
    · simp only [get?_insert,if_neg apart]
    · simp only [get?_insert,if_neg apart]

theorem max?_concat (priorities : List Nat) (priority : Nat) :
    (priorities++[priority]).max? = some ((priorities.max?.map (max · priority)).getD priority) := by
  cases priorities with
  | nil => rfl
  | cons first rest =>
    rw [List.cons_append,List.max?_cons',List.max?_cons',List.foldl_append]
    rfl

-- After the accesses visited so far, a resource is owned exactly if it was
-- accessed, and its ceiling is the highest priority among those accesses.
def CeilingOf (visited : List (Option Nat × Ident × Access)) (s : Locations) : Prop :=
  ∀ name, (get? s.ownerships name).map Ownership.ceiling = (accessPriorities visited name).max?

theorem locate_ceiling (application : App) {visited : List (Option Nat × Ident × Access)} {s : Locations}
    (so : CeilingOf visited s) (entry : Option Nat × Ident × Access) :
    CeilingOf (visited++[entry]) (locate application s entry) := by
  intro name
  have before := so name
  by_cases here : entry.2.1 = name
  · rcases entry with ⟨priority,at_,access⟩
    simp only at here
    subst here
    cases priority with
    | none =>
      simpa [locate,accessPriorities] using before
    | some priority =>
      rw [accessPriorities_concat,max?_concat,← before]
      cases found : get? s.ownerships at_ with
      | none => simp [locate,found,get?_insert,Ownership.ceiling]
      | some ownership => simp [locate,found,get?_insert]
  · rw [accessPriorities_other here,← before,locate_other application s here]

theorem ownership_ceiling {application : App} {analysis : Analysis}
    (accepted : app application = .ok analysis) (name : Ident) :
    (get? analysis.ownerships name).map Ownership.ceiling =
      (accessPriorities application.sharedResourceAccesses name).max? := by
  rw [(app_parts accepted).2.2.2]
  exact Transition.foldl_visited CeilingOf (fun name => rfl) application.sharedResourceAccesses
    (fun _ so => locate_ceiling application so _) name

end Rtic.Syntax.Analyze
