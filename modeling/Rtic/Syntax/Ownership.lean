import Mathlib.Data.Multiset.Basic
import Rtic.Syntax.Analyze
namespace Rtic.Syntax.Analyze
open Ordered Transition

-- What ownership says of a resource, by the priorities of the tasks that list it.
inductive Owns (P : Multiset Nat) : Option Ownership → Prop where
  | unused (empty : P = 0) : Owns P none
  | owned (single : P = {priority}) : Owns P (some (.owned priority))
  | coOwned (several : 2 ≤ P.card) (same : ∀ other ∈ P, other = priority) : Owns P (some (.coOwned priority))
  | contended (first : p ∈ P) (second : q ∈ P) (differ : p ≠ q) (highest : ceiling ∈ P)
      (bound : ∀ other ∈ P, other ≤ ceiling) : Owns P (some (.contended ceiling))

theorem card_differ {P : Multiset Nat} {p q : Nat} (first : p ∈ P) (second : q ∈ P) (differ : p ≠ q) : 2 ≤ P.card := by
  obtain ⟨rest,rfl⟩ := Multiset.exists_cons_of_mem first
  have other : q ∈ rest := (Multiset.mem_cons.mp second).resolve_left differ.symm
  have positive := Multiset.card_pos_iff_exists_mem.mpr ⟨q,other⟩
  rw [Multiset.card_cons]
  omega

theorem Owns.unique {P : Multiset Nat} {left right : Option Ownership} (one : Owns P left) (other : Owns P right) :
    left = right := by
  cases one with
  | unused empty =>
    cases other with
    | unused => rfl
    | owned single => simp [single] at empty
    | coOwned several => simp [empty] at several
    | contended first => simp [empty] at first
  | owned single =>
    cases other with
    | unused empty => simp [single] at empty
    | owned single' => simpa [single] using single'
    | coOwned several => simp [single] at several
    | contended first second differ =>
      have several := card_differ first second differ
      simp [single] at several
  | coOwned several same =>
    cases other with
    | unused empty => simp [empty] at several
    | owned single => simp [single] at several
    | coOwned several' same' =>
      obtain ⟨p,member⟩ := Multiset.card_pos_iff_exists_mem.mp (by omega : 0 < P.card)
      rw [← same p member,← same' p member]
    | contended first second differ => exact absurd ((same _ first).trans (same _ second).symm) differ
  | contended first second differ highest bound =>
    cases other with
    | unused empty => simp [empty] at first
    | owned single =>
      have several := card_differ first second differ
      simp [single] at several
    | coOwned several same => exact absurd ((same _ first).trans (same _ second).symm) differ
    | contended _ _ _ highest' bound' =>
      rw [Nat.le_antisymm (bound' _ highest) (bound _ highest')]

-- One more task at `priority`, whatever was known before.
def visit (ownership : Option Ownership) (priority : Nat) : Ownership :=
  match ownership with
  | none => .owned priority
  | some ownership => ownership.access priority

theorem Owns.ceiling {P : Multiset Nat} {ownership : Ownership} (owns : Owns P (some ownership)) :
    ownership.ceiling ∈ P ∧ ∀ other ∈ P, other ≤ ownership.ceiling := by
  cases owns with
  | owned single => simp [single,Ownership.ceiling]
  | coOwned several same =>
    obtain ⟨p,member⟩ := Multiset.card_pos_iff_exists_mem.mp (by omega : 0 < P.card)
    exact ⟨same p member ▸ member,fun other present => Nat.le_of_eq (same other present)⟩
  | contended _ _ _ highest bound => exact ⟨highest,bound⟩

theorem Owns.visit {P : Multiset Nat} {ownership : Option Ownership} (owns : Owns P ownership) (priority : Nat) :
    Owns (priority ::ₘ P) (some (visit ownership priority)) := by
  cases ownership with
  | none =>
    cases owns with
    | unused empty => exact .owned (by rw [empty]; rfl)
  | some ownership =>
    obtain ⟨highest,bound⟩ := owns.ceiling
    by_cases same : priority = ownership.ceiling
    · subst same
      cases owns with
      | owned single =>
        simp only [Analyze.visit,Ownership.access,ne_eq,not_true,if_false]
        exact .coOwned (by simp [single]) (by simp [single,Ownership.ceiling])
      | coOwned several same =>
        simp only [Analyze.visit,Ownership.access,ne_eq,not_true,if_false]
        refine .coOwned (by rw [Multiset.card_cons]; omega) fun other present => ?_
        rcases Multiset.mem_cons.mp present with rfl | present
        · rfl
        · exact same other present
      | contended first second differ _ _ =>
        simp only [Analyze.visit,Ownership.access,ne_eq,not_true,if_false]
        refine .contended (Multiset.mem_cons_of_mem first) (Multiset.mem_cons_of_mem second) differ
          (Multiset.mem_cons_of_mem highest) fun other present => ?_
        rcases Multiset.mem_cons.mp present with rfl | present
        · exact Nat.le_refl _
        · exact bound other present
    · unfold Analyze.visit Ownership.access
      dsimp only
      rw [if_pos same]
      refine .contended (Multiset.mem_cons_self _ _) (Multiset.mem_cons_of_mem highest) same ?_ fun other present => ?_
      · rcases Nat.le_total ownership.ceiling priority with below | above
        · rw [Nat.max_eq_right below]
          exact Multiset.mem_cons_self _ _
        · rw [Nat.max_eq_left above]
          exact Multiset.mem_cons_of_mem highest
      · rcases Multiset.mem_cons.mp present with rfl | present
        · exact Nat.le_max_right _ _
        · exact Nat.le_trans (bound other present) (Nat.le_max_left _ _)

-- What the fold of `locate` knows of the accesses visited so far.
def Owned (visited : List (Option Nat × Ident × Access)) (s : Locations) : Prop :=
  ∀ name, Owns (accessPriorities visited name) (get? s.ownerships name)

theorem locate_owned (application : App) {visited : List (Option Nat × Ident × Access)} {s : Locations}
    (so : Owned visited s) (entry : Option Nat × Ident × Access) : Owned (visited++[entry]) (locate application s entry) := by
  intro name
  have before := so name
  by_cases here : entry.2.1 = name
  · rcases entry with ⟨priority,at_,access⟩
    simp only at here
    subst here
    cases priority with
    | none => simpa [locate,accessPriorities] using before
    | some priority =>
      have next := before.visit priority
      rw [accessPriorities_concat,Multiset.coe_eq_coe.mpr List.perm_append_comm]
      cases found : get? s.ownerships at_ with
      | none => simpa [locate,found,get?_insert,visit] using next
      | some ownership => simpa [locate,found,get?_insert,visit] using next
  · rw [accessPriorities_other here,locate_other application s here]
    exact before

-- Every access of one resource is of one kind, which check::app enforces.
def OneKind (accesses : List (Option Nat × Ident × Access)) : Prop :=
  ∀ name p q, (some p,name,Access.shared) ∈ accesses → (some q,name,Access.exclusive) ∉ accesses

-- A type has to be `Sync` once two different priorities have had a shared access to a resource of it.
def SharedTwice (application : App) (accesses : List (Option Nat × Ident × Access)) (ty : Ty) : Prop :=
  ∃ name resource, get? application.sharedResources name = some resource ∧ resource.ty = ty ∧
    ∃ p q, p ≠ q ∧ (some p,name,Access.shared) ∈ accesses ∧ (some q,name,Access.shared) ∈ accesses

def Synced (application : App) (visited : List (Option Nat × Ident × Access)) (s : Locations) : Prop :=
  ∀ ty, ty ∈ s.syncTypes ↔ SharedTwice application visited ty

theorem mem_accessPriorities {accesses : List (Option Nat × Ident × Access)} {name : Ident} {priority : Nat} :
    priority ∈ accessPriorities accesses name ↔ ∃ access, (some priority,name,access) ∈ accesses := by
  unfold accessPriorities
  simp only [List.mem_filterMap,List.mem_filter,decide_eq_true_eq]
  constructor
  · rintro ⟨⟨_,_,access⟩,⟨member,rfl⟩,rfl⟩
    exact ⟨access,member⟩
  · rintro ⟨access,member⟩
    exact ⟨_,⟨member,rfl⟩,rfl⟩

theorem OneKind.shared {accesses : List (Option Nat × Ident × Access)} (kinds : OneKind accesses) {name : Ident}
    {p q : Nat} {access : Access} (first : (some p,name,Access.shared) ∈ accesses)
    (second : (some q,name,access) ∈ accesses) : access = .shared := by
  cases access with
  | shared => rfl
  | exclusive => exact absurd second (kinds name p q first)

theorem sharedTwice_snoc {application : App} {visited : List (Option Nat × Ident × Access)} {p : Nat} {name : Ident}
    {access : Access} {ty : Ty} :
    SharedTwice application (visited++[(some p,name,access)]) ty ↔ SharedTwice application visited ty ∨
      ∃ resource, get? application.sharedResources name = some resource ∧ resource.ty = ty ∧ access = .shared ∧
        ∃ q, q ≠ p ∧ (some q,name,Access.shared) ∈ visited := by
  unfold SharedTwice
  constructor
  · rintro ⟨at_,resource,declared,typed,a,b,differ,first,second⟩
    simp only [List.mem_append,List.mem_singleton,Prod.mk.injEq,Option.some.injEq] at first second
    rcases first with first | ⟨rfl,rfl,shared⟩
    · rcases second with second | ⟨rfl,rfl,shared⟩
      · exact Or.inl ⟨at_,resource,declared,typed,a,b,differ,first,second⟩
      · exact Or.inr ⟨resource,declared,typed,shared.symm,a,differ,first⟩
    · rcases second with second | ⟨rfl,_,_⟩
      · exact Or.inr ⟨resource,declared,typed,shared.symm,b,differ.symm,second⟩
      · exact absurd rfl differ
  · rintro (⟨at_,resource,declared,typed,a,b,differ,first,second⟩ | ⟨resource,declared,typed,rfl,q,differ,earlier⟩)
    · exact ⟨at_,resource,declared,typed,a,b,differ,List.mem_append_left _ first,List.mem_append_left _ second⟩
    · exact ⟨name,resource,declared,typed,q,p,differ,List.mem_append_left _ earlier,
        List.mem_append_right _ (List.mem_singleton_self _)⟩

theorem locate_synced {application : App} {visited : List (Option Nat × Ident × Access)} {s : Locations}
    {entry : Option Nat × Ident × Access} (kinds : OneKind (visited++[entry])) (owned : Owned visited s)
    (synced : Synced application visited s) : Synced application (visited++[entry]) (locate application s entry) := by
  intro ty
  rcases entry with ⟨_|p,name,access⟩
  · simpa [locate,SharedTwice] using synced ty
  · have last : (some p,name,access) ∈ visited++[(some p,name,access)] := by simp
    rw [sharedTwice_snoc,← synced ty]
    have owns := owned name
    cases found : get? s.ownerships name with
    | none =>
      simp only [locate,found]
      refine ⟨Or.inl,fun either => either.resolve_right ?_⟩
      rintro ⟨_,_,_,_,q,_,earlier⟩
      have member : q ∈ accessPriorities visited name := mem_accessPriorities.mpr ⟨_,earlier⟩
      rw [found] at owns
      cases owns with
      | unused empty =>
        rw [Multiset.coe_eq_zero] at empty
        rw [empty] at member
        cases member
    | some ownership =>
      rw [found] at owns
      obtain ⟨kind,highest⟩ := mem_accessPriorities.mp (Multiset.mem_coe.mp owns.ceiling.1)
      cases declared : get? application.sharedResources name with
      | none => simp [locate,found,declared]
      | some resource =>
        simp only [locate,found,declared]
        by_cases raises : p ≠ ownership.ceiling ∧ access.isShared = true
        · have shared : access = .shared := by simpa [Access.isShared] using raises.2
          subst shared
          have same := kinds.shared last (List.mem_append_left _ highest)
          rw [if_pos raises,mem_insertSet]
          refine or_congr_right ⟨?_,?_⟩
          · exact fun typed => ⟨resource,rfl,typed.symm,rfl,ownership.ceiling,raises.1.symm,same ▸ highest⟩
          · rintro ⟨_,declared',typed,_⟩
            cases declared'
            exact typed.symm
        · rw [if_neg raises]
          refine ⟨Or.inl,fun either => either.elim id ?_⟩
          rintro ⟨_,declared',typed,shared,q,differ,earlier⟩
          cases declared'
          subst shared
          have level : p = ownership.ceiling := by
            by_contra other
            exact raises ⟨other,rfl⟩
          have same := kinds.shared last (List.mem_append_left _ highest)
          rw [same,← level] at highest
          exact (synced ty).mpr ⟨name,resource,declared,typed,q,p,differ,earlier,highest⟩

-- The priorities of the tasks that list a shared resource; `idle` is at 0.
def listers (application : App) (name : Ident) : Multiset Nat :=
  Multiset.ofList <| ((application.idle.toList.filter fun idle => containsKey idle.sharedResources name).map fun _ => 0)++
    ((application.hardwareTasks.filter fun task => containsKey task.2.sharedResources name).map fun task => task.2.priority)++
    (application.softwareTasks.filter fun task => containsKey task.2.sharedResources name).map fun task => task.2.priority

theorem accessPriorities_append (left right : List (Option Nat × Ident × Access)) (name : Ident) :
    accessPriorities (left++right) name = accessPriorities left name++accessPriorities right name := by
  simp [accessPriorities]

-- A task lists a resource once, so it contributes its priority once.
theorem accessPriorities_map {m : SharedResources} (keyed : Keyed m) (priority : Nat) (name : Ident) :
    accessPriorities (m.map fun entry => (some priority,entry.1,entry.2)) name =
      if containsKey m name then [priority] else [] := by
  induction m with
  | nil => rfl
  | cons entry m ih =>
    obtain ⟨absent,rest⟩ := List.nodup_cons.mp keyed
    have next := ih rest
    have split : accessPriorities ((entry::m).map fun entry => (some priority,entry.1,entry.2)) name =
        (if entry.1 = name then [priority] else [])++
          accessPriorities (m.map fun entry => (some priority,entry.1,entry.2)) name := by
      by_cases here : entry.1 = name <;> simp [accessPriorities,here]
    rw [split,next]
    by_cases here : entry.1 = name
    · have none_ : containsKey m name = false := by
        by_contra present
        exact absent (here ▸ containsKey_iff.mp (by simpa using present))
      have some_ : containsKey (entry::m) name = true := containsKey_iff.mpr (by simp [here])
      simp [here,none_,some_]
    · have same : containsKey (entry::m) name = containsKey m name := by
        simp [containsKey,get?_cons,here]
      simp [here,same]

theorem accessPriorities_tasks {τ : Type} {tasks : List τ} {shared : τ → SharedResources} (priority : τ → Nat)
    (keyed : ∀ task ∈ tasks, Keyed (shared task)) (name : Ident) :
    accessPriorities (tasks.flatMap fun task => (shared task).map fun entry => (some (priority task),entry.1,entry.2)) name =
      (tasks.filter fun task => containsKey (shared task) name).map priority := by
  induction tasks with
  | nil => rfl
  | cons task tasks ih =>
    rw [List.flatMap_cons,accessPriorities_append,accessPriorities_map (keyed task List.mem_cons_self),
      ih fun task member => keyed task (List.mem_cons_of_mem _ member)]
    by_cases here : containsKey (shared task) name <;> simp [here]

theorem accessPriorities_listers {application : App} (keyed : application.Keyed) (name : Ident) :
    (accessPriorities application.sharedResourceAccesses name : Multiset Nat) = listers application name := by
  unfold App.sharedResourceAccesses listers
  rw [accessPriorities_append,accessPriorities_append,
    accessPriorities_tasks (fun _ : Idle => 0) fun idle member => keyed.idleShared idle (by simpa using member),
    accessPriorities_tasks _ keyed.hardwareShared,accessPriorities_tasks _ keyed.softwareShared]

theorem checked_kinds {application : App} (checked : Check.app application = .ok ()) :
    OneKind application.sharedResourceAccesses := by
  intro name p q first second
  have both := (Check.app_parts checked).2.2.1 _ first
  have member : name ∈ Check.exclusiveAccesses application :=
    List.mem_filterMap.mpr ⟨_,second,by simp [Access.isExclusive]⟩
  simp [Check.bothAccesses,Access.isShared,member] at both

theorem app_located {application : App} {analysis : Analysis} (accepted : app application = .ok analysis) :
    analysis.ownerships = (locations application).ownerships ∧ analysis.syncTypes = (locations application).syncTypes ∧
      analysis.sendTypes = sendTypes application analysis.ownerships := by
  unfold app at accepted
  split at accepted
  · cases accepted
  · cases accepted
    exact ⟨rfl,rfl,rfl⟩

theorem owned_nil : Owned [] ⟨[],[],[]⟩ := fun _ => .unused rfl

theorem synced_nil (application : App) : Synced application [] ⟨[],[],[]⟩ := fun ty => by simp [SharedTwice]

-- The four verdicts, each exactly when the priorities of the tasks say so.
structure Classified (P : Multiset Nat) (ownership : Option Ownership) : Prop where
  absent : ownership = none ↔ P = 0
  owned : ∀ priority, ownership = some (.owned priority) ↔ P = {priority}
  coOwned : ∀ priority, ownership = some (.coOwned priority) ↔ 2 ≤ P.card ∧ ∀ other ∈ P, other = priority
  contended : ∀ ceiling, ownership = some (.contended ceiling) ↔
    (∃ p ∈ P, ∃ q ∈ P, p ≠ q) ∧ ceiling ∈ P ∧ ∀ other ∈ P, other ≤ ceiling

theorem Owns.classified {P : Multiset Nat} {ownership : Option Ownership} (owns : Owns P ownership) :
    Classified P ownership := by
  refine ⟨⟨?_,?_⟩,fun priority => ⟨?_,?_⟩,fun priority => ⟨?_,?_⟩,fun ceiling => ⟨?_,?_⟩⟩
  · rintro rfl
    cases owns with
    | unused empty => exact empty
  · exact fun empty => owns.unique (.unused empty)
  · rintro rfl
    cases owns with
    | owned single => exact single
  · exact fun single => owns.unique (.owned single)
  · rintro rfl
    cases owns with
    | coOwned several same => exact ⟨several,same⟩
  · exact fun ⟨several,same⟩ => owns.unique (.coOwned several same)
  · rintro rfl
    cases owns with
    | contended first second differ highest bound => exact ⟨⟨_,first,_,second,differ⟩,highest,bound⟩
  · exact fun ⟨⟨_,first,_,second,differ⟩,highest,bound⟩ => owns.unique (.contended first second differ highest bound)

-- What the loops over the local resources and over the inputs insert into `send_types`.
def SentLater (application : App) (ownerships : Map Ownership) (ty : Ty) : Prop :=
  (∃ entry ∈ application.localResources, needsSend ownerships entry.1 = true ∧ entry.2.ty = ty) ∨
  ∃ task ∈ application.softwareTasks, task.2.localTask = false ∧ ty ∈ task.2.inputs

theorem mem_foldl_insertSet {α β : Type} [DecidableEq α] {keep : β → Bool} {value : β → α} {item : α} (entries : List β)
    (set : List α) :
    item ∈ entries.foldl (fun set entry => if keep entry then insertSet set (value entry) else set) set ↔
      item ∈ set ∨ ∃ entry ∈ entries, keep entry = true ∧ value entry = item := by
  induction entries generalizing set with
  | nil => simp
  | cons entry entries ih =>
    rw [List.foldl_cons,ih]
    cases kept : keep entry with
    | false => simp [kept]
    | true =>
      rw [if_pos rfl,mem_insertSet,or_assoc]
      simp [kept,@eq_comm _ item]

theorem mem_foldl_inputs {ty : Ty} (tasks : Map SoftwareTask) (types : List Ty) :
    ty ∈ tasks.foldl (fun types task =>
        if task.2.localTask then types else task.2.inputs.foldl insertSet types) types ↔
      ty ∈ types ∨ ∃ task ∈ tasks, task.2.localTask = false ∧ ty ∈ task.2.inputs := by
  induction tasks generalizing types with
  | nil => simp
  | cons task tasks ih =>
    rw [List.foldl_cons]
    refine (ih _).trans ?_
    cases own : task.2.localTask with
    | true => simp [own]
    | false => simp [own,mem_insertSets,or_assoc]

theorem mem_sends {application : App} {ownerships : Map Ownership} {ty : Ty} :
    ty ∈ sendTypes application ownerships ↔
      ty ∈ sharedSendTypes application ownerships ∨ SentLater application ownerships ty := by
  unfold sendTypes SentLater
  rw [mem_foldl_inputs,mem_foldl_insertSet,or_assoc]

theorem needsSend_iff {P : Multiset Nat} {ownerships : Map Ownership} {name : Ident}
    (owns : Owns P (get? ownerships name)) :
    needsSend ownerships name = true ↔ P ≠ 0 ∧ ∃ highest ∈ P, (∀ other ∈ P, other ≤ highest) ∧ highest ≠ 0 := by
  unfold needsSend
  cases found : get? ownerships name with
  | none =>
    rw [found] at owns
    cases owns with
    | unused empty => simp [empty]
  | some ownership =>
    rw [found] at owns
    obtain ⟨highest,bound⟩ := owns.ceiling
    simp only [Option.map_some,Option.getD_some,decide_eq_true_eq]
    constructor
    · exact fun raised => ⟨fun empty => by simp [empty] at highest,_,highest,bound,raised⟩
    · rintro ⟨_,other,member,above,raised⟩
      rw [Nat.le_antisymm (above _ highest) (bound _ member)]
      exact raised

theorem visits_known {application : App} (checked : Check.app application = .ok ())
    {accesses : List (Option Nat × Ident × Access)} (perm : accesses.Perm application.sharedResourceAccesses) :
    Owned accesses (accesses.foldl (locate application) ⟨[],[],[]⟩) ∧
      Synced application accesses (accesses.foldl (locate application) ⟨[],[],[]⟩) := by
  have kinds := checked_kinds checked
  refine foldl_visited (fun visited s => Owned visited s ∧ Synced application visited s)
    ⟨owned_nil,synced_nil application⟩ accesses fun {visited entry rest s} split ⟨owned,synced⟩ =>
      ⟨locate_owned application owned entry,locate_synced (fun name p q first second => ?_) owned synced⟩
  have member : ∀ access ∈ visited++[entry], access ∈ application.sharedResourceAccesses := by
    intro access present
    rw [← perm.mem_iff,← split]
    simpa [← or_assoc] using Or.inl (List.mem_append.mp present)
  exact kinds name p q (member _ first) (member _ second)

theorem ownerships_owns {application : App} {analysis : Analysis} (keyed : application.Keyed)
    (checked : Check.app application = .ok ()) (accepted : app application = .ok analysis) (name : Ident) :
    Owns (listers application name) (get? analysis.ownerships name) := by
  rw [(app_located accepted).1,← accessPriorities_listers keyed]
  exact (visits_known checked (List.Perm.refl _)).1 name

theorem ceilings_as_specified {application : App} {analysis : Analysis} (keyed : application.Keyed)
    (checked : Check.app application = .ok ()) (accepted : app application = .ok analysis) :
    (∀ name, Classified (listers application name) (get? analysis.ownerships name)) ∧
    (∀ accesses : List (Option Nat × Ident × Access), accesses.Perm application.sharedResourceAccesses →
      (∀ name, get? (accesses.foldl (locate application) ⟨[],[],[]⟩).ownerships name = get? analysis.ownerships name) ∧
      ∀ ty, ty ∈ (accesses.foldl (locate application) ⟨[],[],[]⟩).syncTypes ↔ ty ∈ analysis.syncTypes) ∧
    (∀ ty, ty ∈ sharedSendTypes application analysis.ownerships ↔
      ∃ entry ∈ application.sharedResources, entry.2.ty = ty ∧ listers application entry.1 ≠ 0 ∧
        ∃ highest ∈ listers application entry.1,
          (∀ other ∈ listers application entry.1, other ≤ highest) ∧ highest ≠ 0) ∧
    (∀ ty, ty ∈ analysis.sendTypes ↔
      ty ∈ sharedSendTypes application analysis.ownerships ∨ SentLater application analysis.ownerships ty) ∧
    ∀ ty, ty ∈ analysis.syncTypes ↔ SharedTwice application application.sharedResourceAccesses ty := by
  have owns := ownerships_owns keyed checked accepted
  have synced : ∀ ty, ty ∈ analysis.syncTypes ↔ SharedTwice application application.sharedResourceAccesses ty := by
    rw [(app_located accepted).2.1]
    exact (visits_known checked (List.Perm.refl _)).2
  refine ⟨fun name => (owns name).classified,fun accesses perm => ⟨fun name => ?_,fun ty => ?_⟩,fun ty => ?_,fun ty => ?_,synced⟩
  · refine ((visits_known checked perm).1 name).unique ?_
    have same : (accessPriorities accesses name : Multiset Nat) = listers application name := by
      rw [← accessPriorities_listers keyed]
      exact Multiset.coe_eq_coe.mpr ((perm.filter _).filterMap _)
    rw [same]
    exact owns name
  · rw [synced,(visits_known checked perm).2]
    simp only [SharedTwice,perm.mem_iff]
  · unfold sharedSendTypes
    rw [mem_foldl_insertSet]
    simp only [List.not_mem_nil,false_or,needsSend_iff (owns _)]
    constructor
    · rintro ⟨entry,member,conditions,typed⟩
      exact ⟨entry,member,typed,conditions⟩
    · rintro ⟨entry,member,typed,conditions⟩
      exact ⟨entry,member,conditions,typed⟩
  · rw [(app_located accepted).2.2]
    exact mem_sends

-- a is contended, b is co-owned and c is read from two priorities; d is not used.
def mixed : App :=
  ⟨[],⟨"init",[]⟩,some ⟨"idle",[],[("a",.exclusive)]⟩,
    [("a",⟨"A",false⟩),("b",⟨"B",false⟩),("c",⟨"C",false⟩),("d",⟨"D",false⟩)],[],
    [("low",⟨"UART0",1,[],[("a",.exclusive),("c",.shared)]⟩),("mid",⟨"UART1",2,[],[("b",.exclusive),("c",.shared)]⟩),
      ("twin",⟨"UART2",2,[],[("b",.exclusive),("a",.exclusive)]⟩)],[]⟩

def mixedAnalysis : Analysis :=
  ⟨[],["a","c","b"],[],[("a",.contended 2),("c",.contended 2),("b",.coOwned 2)],["A","B","C"],["C"]⟩

theorem mixed_keyed : mixed.Keyed := by
  constructor <;> decide

theorem mixed_as_specified : Classified {0,1,2} (some (.contended 2)) ∧ "B" ∈ mixedAnalysis.sendTypes ∧
    SharedTwice mixed mixed.sharedResourceAccesses "C" := by
  obtain ⟨classified,_,inserted,sent,synced⟩ :=
    ceilings_as_specified mixed_keyed (by decide : Check.app mixed = .ok ()) (rfl : app mixed = .ok mixedAnalysis)
  have both : listers mixed "b" = {2,2} := by decide
  refine ⟨classified "a",(sent "B").mpr (Or.inl ((inserted "B").mpr ?_)),(synced "C").mp (by decide)⟩
  exact ⟨("b",⟨"B",false⟩),by decide,rfl,by simp [both],2,by simp [both],by simp [both],by decide⟩

end Rtic.Syntax.Analyze
