import Rtic.Syntax.Ownership
namespace Rtic.Syntax.Analyze
open Ordered Transition

-- The task, its priority and the resource of each use that the first loop compares.
abbrev LockFreeUse := Ident × Nat × Ident

def lockFreeUses (application : App) : List LockFreeUse :=
  (lockFree application).flatMap fun resource =>
    (taskResourcesList application).flatMap fun task =>
      (task.2.1.filter fun r => resource = r).map fun r => (task.1,task.2.2.2,r)

def lockFreeFinal (application : App) : LockFreeState :=
  (lockFreeUses application).foldl (fun s use => lockFreeUse application use.1 use.2.1 s use.2.2) ⟨[],[],[]⟩

theorem lockFreeErrors_uses (application : App) :
    lockFreeErrors application = (lockFreeFinal application).error++
      ((lockFree application).filter (lockFreeFinal application).withError.contains).map (fun r =>
        ⟨r,"Lock free shared resource "++quoted r++" is used by tasks at different priorities"⟩)++
      (lockFreeFinal application).withError.map (fun r =>
        ⟨r,"Shared resource "++quoted r++" is declared lock free but used by tasks at different priorities"⟩) := by
  have same : lockFreeFinal application = (lockFree application).foldl (fun s resource =>
      (taskResourcesList application).foldl (fun s task =>
        task.2.1.foldl (fun s r =>
          if resource = r then lockFreeUse application task.1 task.2.2.2 s r else s) s) s) ⟨[],[],[]⟩ := by
    unfold lockFreeFinal lockFreeUses
    simp only [List.foldl_flatMap,List.foldl_map,List.foldl_filter,decide_eq_true_eq]
  unfold lockFreeErrors
  rw [same]

-- All uses of one resource are at one priority.
def SameLevel (uses : List LockFreeUse) : Prop := ∀ u ∈ uses, ∀ v ∈ uses, u.2.2 = v.2.2 → u.2.1 = v.2.1

def lastLevel (uses : List LockFreeUse) (r : Ident) : Option Nat :=
  ((uses.filter fun use => use.2.2 = r).getLast?).map fun use => use.2.1

structure Compared (application : App) (visited : List LockFreeUse) (s : LockFreeState) : Prop where
  error : s.error = [] ↔ ∀ use ∈ visited, containsKey application.softwareTasks use.1 = false
  withError : s.withError = [] ↔ SameLevel visited
  hash : ∀ r, get? s.hash r = lastLevel visited r

theorem lastLevel_snoc (visited : List LockFreeUse) (use : LockFreeUse) (r : Ident) :
    lastLevel (visited++[use]) r = if r = use.2.2 then some use.2.1 else lastLevel visited r := by
  unfold lastLevel
  by_cases here : r = use.2.2
  · simp [here]
  · have other : ¬use.2.2 = r := fun same => here same.symm
    simp [here,other]

theorem lastLevel_some {visited : List LockFreeUse} {r : Ident} {level : Nat} (last : lastLevel visited r = some level) :
    ∃ use ∈ visited, use.2.2 = r ∧ use.2.1 = level := by
  obtain ⟨use,found,rfl⟩ := Option.map_eq_some_iff.mp last
  obtain ⟨member,same⟩ := List.mem_filter.mp (List.mem_of_getLast? found)
  exact ⟨use,member,by simpa using same,rfl⟩

theorem lastLevel_of_mem {visited : List LockFreeUse} {use : LockFreeUse} (member : use ∈ visited) :
    ∃ level, lastLevel visited use.2.2 = some level := by
  have present : use ∈ visited.filter fun other => other.2.2 = use.2.2 := List.mem_filter.mpr ⟨member,by simp⟩
  unfold lastLevel
  rw [List.getLast?_eq_some_getLast (List.ne_nil_of_mem present)]
  exact ⟨_,rfl⟩

-- A consistent history makes the last use speak for all.
theorem sameLevel_snoc {visited : List LockFreeUse} {use : LockFreeUse} (consistent : SameLevel visited) :
    SameLevel (visited++[use]) ↔ ∀ previous, lastLevel visited use.2.2 = some previous → use.2.1 = previous := by
  constructor
  · intro all previous last
    obtain ⟨other,member,same,rfl⟩ := lastLevel_some last
    exact all use (by simp) other (List.mem_append_left _ member) same.symm
  · intro agrees
    have old : ∀ other ∈ visited, other.2.2 = use.2.2 → other.2.1 = use.2.1 := by
      intro other member same
      obtain ⟨level,last⟩ := lastLevel_of_mem member
      rw [same] at last
      obtain ⟨latest,present,at_,rfl⟩ := lastLevel_some last
      exact (consistent other member latest present (same.trans at_.symm)).trans (agrees _ last).symm
    intro u first v second same
    rcases List.mem_append.mp first with first | first
    · rcases List.mem_append.mp second with second | second
      · exact consistent u first v second same
      · cases List.mem_singleton.mp second
        exact old u first same
    · cases List.mem_singleton.mp first
      rcases List.mem_append.mp second with second | second
      · exact (old v second same.symm).symm
      · cases List.mem_singleton.mp second
        rfl

theorem SameLevel.earlier {visited : List LockFreeUse} {use : LockFreeUse} (all : SameLevel (visited++[use])) :
    SameLevel visited := fun u first v second => all u (List.mem_append_left _ first) v (List.mem_append_left _ second)

-- Once an error is noted it stays noted.
theorem lockFreeUse_withError {application : App} {s : LockFreeState} {use : LockFreeUse} :
    (lockFreeUse application use.1 use.2.1 s use.2.2).withError = [] ↔
      s.withError = [] ∧ ∀ previous, get? s.hash use.2.2 = some previous → use.2.1 = previous := by
  unfold lockFreeUse
  cases found : get? s.hash use.2.2 with
  | none => simp
  | some previous =>
    dsimp only
    by_cases same : use.2.1 = previous
    · cases marked : s.withError with
      | nil => simp [same]
      | cons first rest =>
        simp only [same,ne_eq,not_true_eq_false,if_false]
        split <;> simp
    · rw [if_pos same]
      split <;> simp [same]

theorem lockFreeUse_compared {application : App} {visited : List LockFreeUse} {s : LockFreeState}
    (compared : Compared application visited s) (use : LockFreeUse) :
    Compared application (visited++[use]) (lockFreeUse application use.1 use.2.1 s use.2.2) := by
  refine ⟨?_,?_,fun r => ?_⟩
  · have grown : (lockFreeUse application use.1 use.2.1 s use.2.2).error =
        if containsKey application.softwareTasks use.1 then
          s.error++[⟨use.2.2,"Lock free shared resource "++quoted use.2.2++" is used by an async tasks, which is forbidden"⟩]
        else s.error := by
      unfold lockFreeUse
      dsimp only
      split <;> rfl
    rw [grown]
    cases async : containsKey application.softwareTasks use.1 with
    | true =>
      refine ⟨fun none_ => by simp at none_,fun all => ?_⟩
      rw [all use (by simp)] at async
      cases async
    | false =>
      rw [if_neg Bool.false_ne_true,compared.error]
      simp [or_imp,forall_and,async]
  · rw [lockFreeUse_withError,compared.withError,compared.hash]
    constructor
    · rintro ⟨consistent,agrees⟩
      exact (sameLevel_snoc consistent).mpr agrees
    · exact fun all => ⟨all.earlier,(sameLevel_snoc all.earlier).mp all⟩
  · have stored : (lockFreeUse application use.1 use.2.1 s use.2.2).hash = insert s.hash use.2.2 use.2.1 := by
      unfold lockFreeUse
      dsimp only
      split <;> rfl
    rw [stored,get?_insert,lastLevel_snoc,compared.hash]

theorem lockFreeFinal_compared (application : App) :
    Compared application (lockFreeUses application) (lockFreeFinal application) := by
  have start : Compared application [] ⟨[],[],[]⟩ := ⟨by simp,by simp [SameLevel],fun r => by simp [lastLevel]⟩
  exact foldl_visited (Compared application) start (lockFreeUses application)
    fun _ compared => lockFreeUse_compared compared _

theorem lockFreeErrors_iff (application : App) : lockFreeErrors application = [] ↔
    (∀ use ∈ lockFreeUses application, containsKey application.softwareTasks use.1 = false) ∧
      SameLevel (lockFreeUses application) := by
  have compared := lockFreeFinal_compared application
  rw [lockFreeErrors_uses,← compared.error,← compared.withError]
  simp only [List.append_eq_nil_iff,List.map_eq_nil_iff,List.filter_eq_nil_iff]
  constructor
  · exact fun ⟨⟨none_,_⟩,clean⟩ => ⟨none_,clean⟩
  · exact fun ⟨none_,clean⟩ => ⟨⟨none_,by simp [clean]⟩,clean⟩

-- The uses of the fields of the `#[local]` struct, field by field.
def localUses (application : App) (resource : Ident) : List (Ident × TaskLocal) :=
  (taskResourcesList application).flatMap fun task => task.2.2.1.filter fun entry => resource = entry.1

def allLocalUses (application : App) : List (Ident × TaskLocal) :=
  (application.localResources.map Prod.fst).flatMap (localUses application)

theorem localErrors_uses (application : App) :
    localErrors application = ((allLocalUses application).foldl localUse ⟨[],[]⟩).withError.map fun r =>
      ⟨r,"Local resource "++quoted r++" is used by multiple tasks or collides with multiple definitions"⟩ := by
  unfold localErrors allLocalUses localUses
  simp only [List.foldl_flatMap,List.foldl_filter,decide_eq_true_eq]

-- Each name has been used once, and from the `#[local]` struct.
def UsedOnce (uses : List (Ident × TaskLocal)) : Prop :=
  (∀ use ∈ uses, use.2 = .external) ∧ (uses.map Prod.fst).Nodup

structure Seen (visited : List (Ident × TaskLocal)) (s : LocalState) : Prop where
  withError : s.withError = [] ↔ UsedOnce visited
  hash : ∀ name, name ∈ s.hash ↔ (name,TaskLocal.external) ∈ visited

theorem usedOnce_snoc {visited : List (Ident × TaskLocal)} {use : Ident × TaskLocal} :
    UsedOnce (visited++[use]) ↔ UsedOnce visited ∧ use.2 = .external ∧ (use.1,TaskLocal.external) ∉ visited := by
  unfold UsedOnce
  constructor
  · rintro ⟨external,distinct⟩
    rw [List.map_append,List.nodup_append] at distinct
    refine ⟨⟨fun other member => external other (List.mem_append_left _ member),distinct.1⟩,external use (by simp),?_⟩
    exact fun member => distinct.2.2 _ (List.mem_map_of_mem member) use.1 (by simp) rfl
  · rintro ⟨⟨external,distinct⟩,own,absent⟩
    refine ⟨?_,?_⟩
    · intro other member
      rcases List.mem_append.mp member with member | member
      · exact external other member
      · cases List.mem_singleton.mp member
        exact own
    · rw [List.map_append]
      refine List.nodup_append.mpr ⟨distinct,by simp,?_⟩
      intro name member other last same
      obtain ⟨⟨_,kind⟩,present,rfl⟩ := List.mem_map.mp member
      rw [List.map_singleton,List.mem_singleton] at last
      have kind_ : kind = .external := external _ present
      rw [kind_] at present
      exact absent (last ▸ same ▸ present)

theorem localUse_seen {visited : List (Ident × TaskLocal)} {s : LocalState} (seen : Seen visited s)
    (use : Ident × TaskLocal) : Seen (visited++[use]) (localUse s use) := by
  rcases use with ⟨name,external | ty⟩
  · have known := seen.hash name
    by_cases before : name ∈ s.hash
    · have stays : localUse s (name,.external) = ⟨s.withError++[name,name],s.hash⟩ := by simp [localUse,before]
      rw [stays]
      refine ⟨?_,fun other => ?_⟩
      · rw [usedOnce_snoc]
        simp [known.mp before]
      · rw [seen.hash]
        simp only [List.mem_append,List.mem_singleton,Prod.mk.injEq,and_true]
        exact ⟨Or.inl,fun either => either.elim id fun same => same ▸ known.mp before⟩
    · have grows : localUse s (name,.external) = ⟨s.withError,s.hash++[name]⟩ := by simp [localUse,before]
      rw [grows]
      refine ⟨?_,fun other => ?_⟩
      · rw [usedOnce_snoc,seen.withError]
        have absent : (name,TaskLocal.external) ∉ visited := fun member => before (known.mpr member)
        simp [absent]
      · simp [seen.hash]
  · refine ⟨?_,fun other => ?_⟩
    · rw [usedOnce_snoc]
      simp [localUse]
    · simp [localUse,seen.hash]

theorem localErrors_iff (application : App) : localErrors application = [] ↔ UsedOnce (allLocalUses application) := by
  have start : Seen [] ⟨[],[]⟩ := ⟨by simp [UsedOnce],fun name => by simp⟩
  have seen := foldl_visited Seen start (allLocalUses application) fun _ seen => localUse_seen seen _
  rw [localErrors_uses,List.map_eq_nil_iff,seen.withError]

theorem idleErrors_iff (application : App) : idleErrors application = [] ↔
    ¬(application.idle.isSome = true ∧ ∃ task ∈ application.softwareTasks, task.2.priority = 0) := by
  unfold idleErrors
  rw [List.flatMap_eq_nil_iff]
  constructor
  · rintro clean ⟨idle,task,member,zero⟩
    have none_ := clean task member
    rw [if_pos ⟨zero,idle⟩] at none_
    cases none_
  · intro apart task member
    exact if_neg fun both => apart ⟨both.2,task,member,both.1⟩

theorem app_ok_iff (application : App) : (∃ analysis, app application = .ok analysis) ↔
    lockFreeErrors application = [] ∧ localErrors application = [] ∧ idleErrors application = [] := by
  constructor
  · rintro ⟨analysis,accepted⟩
    obtain ⟨first,second,third,_⟩ := app_parts accepted
    exact ⟨first,second,third⟩
  · rintro ⟨first,second,third⟩
    unfold app
    rw [first,second,third]
    exact ⟨_,rfl⟩

-- The contexts with resources, under the names of their tasks: init and idle are at 0.
theorem mem_taskResourcesList {application : App} {context : TaskResources} :
    context ∈ taskResourcesList application ↔
      context = (application.init.name,[],application.init.localResources,0) ∨
      (∃ idle ∈ application.idle, context = (idle.name,idle.sharedResources.map Prod.fst,idle.localResources,0)) ∨
      (∃ task ∈ application.softwareTasks,
        context = (task.1,task.2.sharedResources.map Prod.fst,task.2.localResources,task.2.priority)) ∨
      ∃ task ∈ application.hardwareTasks,
        context = (task.1,task.2.sharedResources.map Prod.fst,task.2.localResources,task.2.priority) := by
  unfold taskResourcesList
  simp only [List.mem_append,List.mem_cons,List.mem_map,Option.mem_toList,Option.mem_def,@eq_comm _ context,
    List.cons_append,or_assoc]

theorem context_keyed {application : App} (keyed : application.Keyed) {context : TaskResources}
    (member : context ∈ taskResourcesList application) : Keyed context.2.2.1 := by
  rcases mem_taskResourcesList.mp member with rfl | ⟨idle,here,rfl⟩ | ⟨task,here,rfl⟩ | ⟨task,here,rfl⟩
  · exact keyed.initLocals
  · exact keyed.idleLocals idle here
  · exact keyed.softwareLocals task here
  · exact keyed.hardwareLocals task here

-- What a program has to keep so that no unlocked reference is handed out twice.
structure ExclusiveUse (application : App) : Prop where
  notAsync : ∀ entry ∈ application.sharedResources, entry.2.lockFree = true →
    ∀ task ∈ application.softwareTasks, entry.1 ∉ task.2.sharedResources.map Prod.fst
  oneLevel : ∀ entry ∈ application.sharedResources, entry.2.lockFree = true →
    ∀ a ∈ taskResourcesList application, ∀ b ∈ taskResourcesList application,
      entry.1 ∈ a.2.1 → entry.1 ∈ b.2.1 → a.2.2.2 = b.2.2.2
  oneUser : ∀ entry ∈ application.localResources,
    ((taskResourcesList application).filter fun context => (entry.1,TaskLocal.external) ∈ context.2.2.1).length ≤ 1
  notDeclared : ∀ entry ∈ application.localResources, ∀ context ∈ taskResourcesList application,
    ∀ ty, (entry.1,TaskLocal.declared ty) ∉ context.2.2.1
  oneLoop : ¬(application.idle.isSome = true ∧ ∃ task ∈ application.softwareTasks, task.2.priority = 0)

theorem mem_lockFreeUses {application : App} {use : LockFreeUse} : use ∈ lockFreeUses application ↔
    ∃ entry ∈ application.sharedResources, entry.2.lockFree = true ∧
      ∃ context ∈ taskResourcesList application, entry.1 ∈ context.2.1 ∧ use = (context.1,context.2.2.2,entry.1) := by
  unfold lockFreeUses lockFree
  simp only [List.mem_flatMap,List.mem_map,List.mem_filter,decide_eq_true_eq]
  constructor
  · rintro ⟨_,⟨entry,⟨declared,free⟩,rfl⟩,context,member,_,⟨listed,rfl⟩,rfl⟩
    exact ⟨entry,declared,free,context,member,listed,rfl⟩
  · rintro ⟨entry,declared,free,context,member,listed,rfl⟩
    exact ⟨_,⟨entry,⟨declared,free⟩,rfl⟩,context,member,_,⟨listed,rfl⟩,rfl⟩

-- Only the software tasks themselves bear the names of software tasks.
theorem software_context {application : App} (names : application.taskNames.Nodup) {context : TaskResources}
    (member : context ∈ taskResourcesList application) (async : containsKey application.softwareTasks context.1 = true) :
    ∃ task ∈ application.softwareTasks,
      context = (task.1,task.2.sharedResources.map Prod.fst,task.2.localResources,task.2.priority) := by
  have named := containsKey_iff.mp async
  unfold App.taskNames at names
  have apart := (List.nodup_append.mp names).2.2
  rcases mem_taskResourcesList.mp member with rfl | ⟨idle,here,rfl⟩ | ⟨task,here,rfl⟩ | ⟨task,here,rfl⟩
  · exact absurd rfl (apart _ (by simp) _ named)
  · exact absurd rfl (apart _ (by simp [Option.mem_def.mp here]) _ named)
  · exact ⟨task,here,rfl⟩
  · refine absurd rfl (apart _ ?_ _ named)
    exact List.mem_append_right _ (List.mem_map_of_mem here)

theorem lockFree_clean_iff {application : App} (names : application.taskNames.Nodup) :
    lockFreeErrors application = [] ↔
      (∀ entry ∈ application.sharedResources, entry.2.lockFree = true →
        ∀ task ∈ application.softwareTasks, entry.1 ∉ task.2.sharedResources.map Prod.fst) ∧
      ∀ entry ∈ application.sharedResources, entry.2.lockFree = true →
        ∀ a ∈ taskResourcesList application, ∀ b ∈ taskResourcesList application,
          entry.1 ∈ a.2.1 → entry.1 ∈ b.2.1 → a.2.2.2 = b.2.2.2 := by
  rw [lockFreeErrors_iff]
  refine and_congr ⟨?_,?_⟩ ⟨?_,?_⟩
  · intro sync entry declared free task member listed
    have context : (task.1,task.2.sharedResources.map Prod.fst,task.2.localResources,task.2.priority) ∈
        taskResourcesList application := mem_taskResourcesList.mpr (Or.inr (Or.inr (Or.inl ⟨task,member,rfl⟩)))
    have none_ := sync _ (mem_lockFreeUses.mpr ⟨entry,declared,free,_,context,listed,rfl⟩)
    rw [containsKey_iff.mpr (List.mem_map_of_mem member)] at none_
    cases none_
  · intro free use member
    obtain ⟨entry,declared,lockFree,context,here,listed,rfl⟩ := mem_lockFreeUses.mp member
    by_contra async
    obtain ⟨task,software,rfl⟩ := software_context names here (by simpa using async)
    exact free entry declared lockFree task software listed
  · intro level entry declared free a first b second listed listed'
    exact level _ (mem_lockFreeUses.mpr ⟨entry,declared,free,a,first,listed,rfl⟩) _
      (mem_lockFreeUses.mpr ⟨entry,declared,free,b,second,listed',rfl⟩) rfl
  · intro level u first v second same
    obtain ⟨entry,declared,free,a,here,listed,rfl⟩ := mem_lockFreeUses.mp first
    obtain ⟨entry',_,_,b,here',listed',rfl⟩ := mem_lockFreeUses.mp second
    have same : entry.1 = entry'.1 := same
    exact level entry declared free a here b here' listed (same ▸ listed')

theorem mem_localUses {application : App} {resource : Ident} {use : Ident × TaskLocal} :
    use ∈ localUses application resource ↔ resource = use.1 ∧ ∃ context ∈ taskResourcesList application, use ∈ context.2.2.1 := by
  unfold localUses
  simp only [List.mem_flatMap,List.mem_filter,decide_eq_true_eq]
  exact ⟨fun ⟨context,here,listed,same⟩ => ⟨same,context,here,listed⟩,
    fun ⟨same,context,here,listed⟩ => ⟨context,here,listed,same⟩⟩

theorem filter_once {m : LocalResources} (keyed : Keyed m) {resource : Ident}
    (external : ∀ ty, (resource,TaskLocal.declared ty) ∉ m) :
    (m.filter fun entry => resource = entry.1).length = if (resource,TaskLocal.external) ∈ m then 1 else 0 := by
  induction m with
  | nil => rfl
  | cons entry m ih =>
    obtain ⟨absent,rest⟩ := List.nodup_cons.mp keyed
    have next := ih rest fun ty member => external ty (List.mem_cons_of_mem _ member)
    rcases entry with ⟨name,kind⟩
    by_cases here : resource = name
    · subst here
      have own : kind = .external := by
        cases kind with
        | external => rfl
        | declared ty => exact absurd List.mem_cons_self (external ty)
      subst own
      have none_ : (resource,TaskLocal.external) ∉ m := fun member => absent (List.mem_map_of_mem (f:=Prod.fst) member)
      rw [if_neg none_] at next
      simp [next]
    · simp [here,next]

theorem localUses_length {application : App} (keyed : application.Keyed) {resource : Ident}
    (external : ∀ context ∈ taskResourcesList application, ∀ ty, (resource,TaskLocal.declared ty) ∉ context.2.2.1) :
    (localUses application resource).length =
      ((taskResourcesList application).filter fun context => (resource,TaskLocal.external) ∈ context.2.2.1).length := by
  unfold localUses
  have each := fun context (member : context ∈ taskResourcesList application) =>
    filter_once (context_keyed keyed member) (external context member)
  generalize taskResourcesList application = contexts at each
  induction contexts with
  | nil => rfl
  | cons context contexts ih =>
    have next := ih fun other member => each other (List.mem_cons_of_mem _ member)
    rw [List.flatMap_cons,List.length_append,each context List.mem_cons_self,next]
    by_cases here : (resource,TaskLocal.external) ∈ context.2.2.1
    · simp [here,Nat.add_comm]
    · simp [here]

theorem localUses_names (application : App) (resource : Ident) :
    (localUses application resource).map Prod.fst = List.replicate (localUses application resource).length resource := by
  refine List.eq_replicate_iff.mpr ⟨List.length_map _,fun name member => ?_⟩
  obtain ⟨use,listed,rfl⟩ := List.mem_map.mp member
  exact (mem_localUses.mp listed).1.symm

-- Uses of different fields bear different names, so only uses of one field can collide.
theorem names_distinct_iff {application : App} (keyed : application.Keyed) :
    ((allLocalUses application).map Prod.fst).Nodup ↔
      ∀ entry ∈ application.localResources, (localUses application entry.1).length ≤ 1 := by
  unfold allLocalUses
  rw [List.map_flatMap,List.nodup_flatMap]
  simp only [localUses_names,List.nodup_replicate,List.mem_map,forall_exists_index,and_imp,forall_apply_eq_imp_iff₂]
  refine ⟨And.left,fun once => ⟨once,?_⟩⟩
  refine keyed.local_.imp fun {first second} apart => ?_
  intro name left right
  exact apart ((List.eq_of_mem_replicate left).symm.trans (List.eq_of_mem_replicate right))

-- No field of the `#[local]` struct is declared in place as well.
theorem external_uses_iff (application : App) : (∀ use ∈ allLocalUses application, use.2 = .external) ↔
    ∀ entry ∈ application.localResources, ∀ context ∈ taskResourcesList application,
      ∀ ty, (entry.1,TaskLocal.declared ty) ∉ context.2.2.1 := by
  constructor
  · intro all entry declared context here ty listed
    have use : (entry.1,TaskLocal.declared ty) ∈ allLocalUses application :=
      List.mem_flatMap.mpr ⟨entry.1,List.mem_map_of_mem declared,mem_localUses.mpr ⟨rfl,context,here,listed⟩⟩
    cases all _ use
  · rintro none_ ⟨name,kind⟩ member
    obtain ⟨resource,named,used⟩ := List.mem_flatMap.mp member
    obtain ⟨entry,declared,rfl⟩ := List.mem_map.mp named
    obtain ⟨same,context,here,listed⟩ := mem_localUses.mp used
    have same : entry.1 = name := same
    cases kind with
    | external => rfl
    | declared ty => exact absurd (same ▸ listed) (none_ entry declared context here ty)

theorem local_clean_iff {application : App} (keyed : application.Keyed) :
    localErrors application = [] ↔
      (∀ entry ∈ application.localResources,
        ((taskResourcesList application).filter fun context => (entry.1,TaskLocal.external) ∈ context.2.2.1).length ≤ 1) ∧
      ∀ entry ∈ application.localResources, ∀ context ∈ taskResourcesList application,
        ∀ ty, (entry.1,TaskLocal.declared ty) ∉ context.2.2.1 := by
  rw [localErrors_iff,UsedOnce,names_distinct_iff keyed,external_uses_iff]
  constructor
  · exact fun ⟨none_,once⟩ => ⟨fun entry declared =>
      Nat.le_trans (Nat.le_of_eq (localUses_length keyed (none_ entry declared)).symm) (once entry declared),none_⟩
  · exact fun ⟨once,none_⟩ => ⟨none_,fun entry declared =>
      Nat.le_trans (Nat.le_of_eq (localUses_length keyed (none_ entry declared))) (once entry declared)⟩

theorem accepted_iff {application : App} (names : application.taskNames.Nodup) (keyed : application.Keyed) :
    (∃ analysis, app application = .ok analysis) ↔ ExclusiveUse application := by
  rw [app_ok_iff,lockFree_clean_iff names,local_clean_iff keyed,idleErrors_iff]
  exact ⟨fun ⟨⟨sync,level⟩,⟨once,none_⟩,loop⟩ => ⟨sync,level,once,none_,loop⟩,
    fun ⟨sync,level,once,none_,loop⟩ => ⟨⟨sync,level⟩,⟨once,none_⟩,loop⟩⟩

-- syntax::Context, and what its arguments give it: its name, its resources and its priority.
inductive Context where
  | init
  | idle
  | softwareTask (name : Ident)
  | hardwareTask (name : Ident)
  deriving DecidableEq, Repr

structure Args where
  ident : Ident
  sharedResources : SharedResources
  localResources : LocalResources
  priority : Nat
  deriving DecidableEq, Repr

def Context.args (application : App) : Context → Option Args
  | .init => some ⟨application.init.name,[],application.init.localResources,0⟩
  | .idle => application.idle.map fun idle => ⟨idle.name,idle.sharedResources,idle.localResources,0⟩
  | .softwareTask name => (get? application.softwareTasks name).map fun task =>
      ⟨name,task.sharedResources,task.localResources,task.priority⟩
  | .hardwareTask name => (get? application.hardwareTasks name).map fun task =>
      ⟨name,task.sharedResources,task.localResources,task.priority⟩

-- The statics of the generated code, by what their identifiers are made from.
inductive Static where
  | shared (name : Ident)
  | local_ (name : Ident)
  | declared (name task : Ident)
  deriving DecidableEq, Repr

-- What a field of the struct of shared resources is: a plain reference, or the proxy that has to be locked.
inductive Field where
  | reference (mutable : Bool)
  | proxy
  deriving DecidableEq, Repr

def sharedField (resource : SharedResource) (access : Access) : Field :=
  if resource.lockFree then .reference access.isExclusive
  else if access.isShared then .reference access.isExclusive
  else .proxy

-- The `&mut` references among the fields of both structs of a context.
def unlocked (application : App) (args : Args) : List Static :=
  args.sharedResources.filterMap (fun entry =>
      match get? application.sharedResources entry.1 with
      | some resource => if sharedField resource entry.2 = .reference true then some (.shared entry.1) else none
      | none => none)++
    args.localResources.map fun entry =>
      match entry.2 with
      | .external => .local_ entry.1
      | .declared _ => .declared entry.1 args.ident

theorem sharedField_mutable {resource : SharedResource} {access : Access}
    (mutable : sharedField resource access = .reference true) : resource.lockFree = true := by
  by_contra locked
  cases access <;> simp [sharedField,locked,Access.isShared,Access.isExclusive] at mutable

theorem args_context {application : App} {context : Context} {args : Args} (own : context.args application = some args) :
    (args.ident,args.sharedResources.map Prod.fst,args.localResources,args.priority) ∈ taskResourcesList application := by
  rw [mem_taskResourcesList]
  cases context with
  | init =>
    cases own
    exact Or.inl rfl
  | idle =>
    obtain ⟨idle,here,rfl⟩ := Option.map_eq_some_iff.mp own
    exact Or.inr (Or.inl ⟨idle,here,rfl⟩)
  | softwareTask name =>
    obtain ⟨task,found,rfl⟩ := Option.map_eq_some_iff.mp own
    exact Or.inr (Or.inr (Or.inl ⟨_,mem_of_get? found,rfl⟩))
  | hardwareTask name =>
    obtain ⟨task,found,rfl⟩ := Option.map_eq_some_iff.mp own
    exact Or.inr (Or.inr (Or.inr ⟨_,mem_of_get? found,rfl⟩))

def contexts (application : App) : List Context :=
  .init::application.idle.toList.map (fun _ => .idle)++
    application.hardwareTasks.map (fun task => .hardwareTask task.1)++
    application.softwareTasks.map fun task => .softwareTask task.1

def Context.ident (application : App) : Context → Ident
  | .init => application.init.name
  | .idle => ((application.idle.map Idle.name).getD "")
  | .softwareTask name => name
  | .hardwareTask name => name

theorem contexts_names (application : App) : (contexts application).map (Context.ident application) = application.taskNames := by
  unfold contexts App.taskNames
  cases idle : application.idle <;> simp [Context.ident,Function.comp_def,idle]

theorem args_ident {application : App} {context : Context} {args : Args} (own : context.args application = some args) :
    context ∈ contexts application ∧ context.ident application = args.ident := by
  unfold contexts
  cases context with
  | init =>
    cases own
    exact ⟨by simp,rfl⟩
  | idle =>
    obtain ⟨idle,here,rfl⟩ := Option.map_eq_some_iff.mp own
    exact ⟨by simp [here],by simp [Context.ident,here]⟩
  | softwareTask name =>
    obtain ⟨task,found,rfl⟩ := Option.map_eq_some_iff.mp own
    exact ⟨List.mem_append_right _ (List.mem_map.mpr ⟨_,mem_of_get? found,rfl⟩),rfl⟩
  | hardwareTask name =>
    obtain ⟨task,found,rfl⟩ := Option.map_eq_some_iff.mp own
    exact ⟨List.mem_append_left _ (List.mem_append_right _ (List.mem_map.mpr ⟨_,mem_of_get? found,rfl⟩)),rfl⟩

theorem same_context {application : App} (names : application.taskNames.Nodup) {a b : Context} {first second : Args}
    (own : a.args application = some first) (other : b.args application = some second)
    (same : first.ident = second.ident) : a = b := by
  rw [← contexts_names] at names
  obtain ⟨member,ident⟩ := args_ident own
  obtain ⟨member',ident'⟩ := args_ident other
  exact List.inj_on_of_nodup_map names member member' (ident.trans (same.trans ident'.symm))

-- A context at a higher priority can preempt one at a lower priority.
def Preempts (high low : Args) : Prop := low.priority < high.priority

theorem declared_local {application : App} (checked : Check.app application = .ok ()) {context : TaskResources}
    (member : context ∈ taskResourcesList application) {name : Ident}
    (listed : (name,TaskLocal.external) ∈ context.2.2.1) : ∃ entry ∈ application.localResources, entry.1 = name := by
  have accessed : name ∈ application.localResourceAccesses := by
    have external : ∀ {locals : LocalResources}, (name,TaskLocal.external) ∈ locals →
        name ∈ (locals.filter isExternal).map Prod.fst := fun here =>
      List.mem_map.mpr ⟨_,List.mem_filter.mpr ⟨here,rfl⟩,rfl⟩
    unfold App.localResourceAccesses
    simp only [List.mem_append,List.mem_flatMap,Option.mem_toList]
    rcases mem_taskResourcesList.mp member with rfl | ⟨idle,here,rfl⟩ | ⟨task,here,rfl⟩ | ⟨task,here,rfl⟩
    · exact Or.inl (Or.inl (Or.inl (external listed)))
    · exact Or.inl (Or.inl (Or.inr ⟨idle,here,external listed⟩))
    · exact Or.inr ⟨task,here,external listed⟩
    · exact Or.inl (Or.inr ⟨task,here,external listed⟩)
  have known := (Check.app_parts checked).2.1 name accessed
  unfold Check.undeclaredLocal at known
  split at known
  · cases known
  · rename_i present
    obtain ⟨value,found⟩ := Option.ne_none_iff_exists'.mp (by simpa using present)
    exact ⟨_,mem_of_get? found,rfl⟩

theorem mem_unlocked {application : App} {args : Args} {static : Static} (holds : static ∈ unlocked application args) :
    (∃ entry ∈ application.sharedResources, entry.2.lockFree = true ∧
      entry.1 ∈ args.sharedResources.map Prod.fst ∧ static = .shared entry.1) ∨
    (∃ name, (name,TaskLocal.external) ∈ args.localResources ∧ static = .local_ name) ∨
    ∃ name, static = .declared name args.ident := by
  rcases List.mem_append.mp holds with member | member
  · obtain ⟨⟨name,access⟩,listed,found⟩ := List.mem_filterMap.mp member
    dsimp only at found
    split at found
    · rename_i resource declared
      split at found
      · rename_i mutable
        cases found
        exact Or.inl ⟨_,mem_of_get? declared,sharedField_mutable mutable,List.mem_map_of_mem (f:=Prod.fst) listed,rfl⟩
      · cases found
    · cases found
  · obtain ⟨⟨name,kind⟩,listed,rfl⟩ := List.mem_map.mp member
    cases kind with
    | external => exact Or.inr (Or.inl ⟨name,listed,rfl⟩)
    | declared ty => exact Or.inr (Or.inr ⟨name,rfl⟩)

theorem member_unique {α : Type} {items : List α} (short : items.length ≤ 1) {a b : α} (first : a ∈ items)
    (second : b ∈ items) : a = b := by
  rcases items with _ | ⟨item,_ | ⟨other,rest⟩⟩
  · cases first
  · rw [List.mem_singleton.mp first,List.mem_singleton.mp second]
  · simp at short

-- Of two contexts with one static, either both are at one level or they are the same.
theorem ExclusiveUse.shares {application : App} (exclusive : ExclusiveUse application)
    (names : application.taskNames.Nodup) (checked : Check.app application = .ok ()) {a b : Context} {first second : Args}
    (own : a.args application = some first) (other : b.args application = some second) {static : Static}
    (holds : static ∈ unlocked application first) (holds' : static ∈ unlocked application second) :
    first.priority = second.priority ∧ ((∀ name, static ≠ .shared name) → a = b) := by
  rcases mem_unlocked holds with ⟨entry,declared,free,listed,rfl⟩ | ⟨name,listed,rfl⟩ | ⟨name,rfl⟩
  · rcases mem_unlocked holds' with ⟨entry',_,_,listed',same⟩ | ⟨_,_,same⟩ | ⟨_,same⟩
    · injection same with same
      refine ⟨?_,fun shared => absurd rfl (shared entry.1)⟩
      exact exclusive.oneLevel entry declared free _ (args_context own) _ (args_context other) listed (same ▸ listed')
    · cases same
    · cases same
  · rcases mem_unlocked holds' with ⟨_,_,_,_,same⟩ | ⟨_,listed',same⟩ | ⟨_,same⟩
    · cases same
    · cases same
      obtain ⟨entry,declared,rfl⟩ := declared_local checked (args_context own) listed
      have only := member_unique (exclusive.oneUser entry declared)
        (List.mem_filter.mpr ⟨args_context own,decide_eq_true listed⟩)
        (List.mem_filter.mpr ⟨args_context other,decide_eq_true listed'⟩)
      have equal := same_context names own other (congrArg Prod.fst only)
      subst equal
      rw [own] at other
      cases other
      exact ⟨rfl,fun _ => rfl⟩
    · cases same
  · rcases mem_unlocked holds' with ⟨_,_,_,_,same⟩ | ⟨_,_,same⟩ | ⟨_,same⟩
    · cases same
    · cases same
    · injection same with _ ident
      have equal := same_context names own other ident
      subst equal
      rw [own] at other
      cases other
      exact ⟨rfl,fun _ => rfl⟩

-- The analysis accepts an application exactly if it is exclusive, and then no two contexts of which one can
-- preempt the other have an unlocked reference to one static.
theorem analysis_exact {application : App} (names : application.taskNames.Nodup) (keyed : application.Keyed)
    (checked : Check.app application = .ok ()) :
    ((∃ analysis, app application = .ok analysis) ↔ ExclusiveUse application) ∧
    ∀ analysis, app application = .ok analysis → ∀ (a b : Context) (first second : Args) (static : Static),
      a.args application = some first → b.args application = some second →
      static ∈ unlocked application first → static ∈ unlocked application second →
      ¬Preempts first second ∧ ¬Preempts second first ∧ ((∀ name, static ≠ .shared name) → a = b) := by
  have exact_ := accepted_iff names keyed
  refine ⟨exact_,fun analysis accepted a b first second static own other holds holds' => ?_⟩
  obtain ⟨level,same⟩ := (exact_.mp ⟨analysis,accepted⟩).shares names checked own other holds holds'
  unfold Preempts
  exact ⟨by omega,by omega,same⟩

-- Two tasks at one level share a lock-free resource, and idle owns the only local one.
def cooperative : App :=
  ⟨[],⟨"init",[("scratch",.declared "u8")]⟩,some ⟨"idle",[("counter",.external)],[]⟩,
    [("led",⟨"Led",true⟩)],[("counter",⟨"u32"⟩)],
    [("rise",⟨"UART0",2,[],[("led",.exclusive)]⟩),("fall",⟨"UART1",2,[],[("led",.exclusive)]⟩)],[]⟩

def cooperativeAnalysis : Analysis := ⟨[],["led"],["scratch","counter"],[("led",.coOwned 2)],["Led"],[]⟩

theorem cooperative_keyed : cooperative.Keyed := by
  constructor <;> decide

theorem cooperative_exact : ExclusiveUse cooperative ∧
    ∀ first second, Context.args cooperative (.hardwareTask "rise") = some first →
      Context.args cooperative (.hardwareTask "fall") = some second →
      .shared "led" ∈ unlocked cooperative first ∧ .shared "led" ∈ unlocked cooperative second ∧
        ¬Preempts first second := by
  obtain ⟨exact_,apart⟩ := analysis_exact (show cooperative.taskNames.Nodup by decide) cooperative_keyed (by decide)
  refine ⟨exact_.mp ⟨cooperativeAnalysis,rfl⟩,fun first second rise fall => ?_⟩
  cases rise
  cases fall
  refine ⟨by decide,by decide,?_⟩
  exact (apart cooperativeAnalysis rfl (.hardwareTask "rise") (.hardwareTask "fall") _ _ (.shared "led") rfl rfl (by decide) (by decide)).1

end Rtic.Syntax.Analyze
