import Rtic.Export.Preemption
import Rtic.Syntax.Analyze
namespace Rtic.Codegen
open Ordered Syntax Export
open Syntax.Analyze (Analysis Ownership levels ownership_ceiling accessPriorities)

-- A hardware task has a handler of its own, software tasks share one dispatcher
-- for each level above 0.
inductive Handler where
  | main
  | hardware (name : Ident)
  | dispatcher (level : Nat)
  deriving DecidableEq, Repr

inductive Task where
  | idle
  | hardware (name : Ident)
  | software (name : Ident)
  deriving DecidableEq, Repr

structure Vector where
  priority : Nat
  name : Ident
  handler : Handler
  deriving DecidableEq, Repr

def nonzeroPriorities (app : App) : List Nat := (levels app).filter (0 < ·)

-- analyze::app: the highest level pops the last dispatcher.
def interrupts (app : App) : List (Nat × Ident) :=
  ((nonzeroPriorities app).reverse.zip app.dispatchers.reverse).reverse

def dispatcherVectors (app : App) : List Vector :=
  (interrupts app).map fun entry => ⟨entry.1,entry.2,.dispatcher entry.1⟩

def hardwareVectors (app : App) : List Vector :=
  app.hardwareTasks.map fun task => ⟨task.2.priority,task.2.binds,.hardware task.1⟩

def vectors (app : App) : List Vector := dispatcherVectors app++hardwareVectors app

-- The check that every backend repeats in its architecture_specific_analysis.
def enoughDispatchers (app : App) : Except Error Unit :=
  let need := (nonzeroPriorities app).length
  let given := app.dispatchers.length
  if given < need then
    .error ⟨((app.softwareTasks.getLast?).map Prod.fst).getD "",
      "not enough interrupts to dispatch all software tasks (need: "++toString need++"; given: "++toString given++")"⟩
  else .ok ()

-- The ceiling that shared_resources::codegen passes to impl_mutex.
def ceiling (analysis : Analysis) (name : Ident) : Nat :=
  match get? analysis.ownerships name with
  | some ownership => ownership.ceiling
  | none => 0

inductive Executes (app : App) : Handler → Task → Prop where
  | idle (defined : app.idle.isSome) : Executes app .main .idle
  | zero (listed : (name,task) ∈ app.softwareTasks) (level : task.priority = 0) (none_ : app.idle = none) :
      Executes app .main (.software name)
  | hardware (name : Ident) : Executes app (.hardware name) (.hardware name)
  | software (listed : (name,task) ∈ app.softwareTasks) (same : task.priority = level) :
      Executes app (.dispatcher level) (.software name)

-- The resources that a task lists: with their priority they are the accesses
-- that the analysis went through.
inductive Lists (app : App) : Task → SharedResources → Nat → Prop where
  | idle (defined : app.idle = some idle) : Lists app .idle idle.sharedResources 0
  | hardware (listed : (name,task) ∈ app.hardwareTasks) :
      Lists app (.hardware name) task.sharedResources task.priority
  | software (listed : (name,task) ∈ app.softwareTasks) :
      Lists app (.software name) task.sharedResources task.priority

-- A task is handed a lock for what it lists exclusively and is not lock-free.
def Locks (app : App) (task : Task) (name : Ident) : Prop :=
  ∃ resources priority resource, Lists app task resources priority ∧ (name,Access.exclusive) ∈ resources ∧
    get? app.sharedResources name = some resource ∧ resource.lockFree = false

-- `enabled` are the vectors that the start-up code of a backend enables.
def program (app : App) (analysis : Analysis) (enabled : List Vector) : Program Handler Task Ident :=
  ⟨.main,fun handler priority => ∃ vector ∈ enabled, vector.handler = handler ∧ vector.priority = priority,
    Executes app,Locks app,ceiling analysis⟩

theorem interrupt_dispatcher {app : App} {level : Nat} {name : Ident} (assigned : (level,name) ∈ interrupts app) :
    name ∈ app.dispatchers :=
  List.mem_reverse.mp (List.of_mem_zip (List.mem_reverse.mp assigned)).2

theorem mem_zip {α β : Type} {left : List α} (right : List β) (longer : left.length ≤ right.length) {item : α}
    (member : item ∈ left) : ∃ other, (item,other) ∈ left.zip right := by
  obtain ⟨i,inside,rfl⟩ := List.mem_iff_getElem.mp member
  refine ⟨right[i],List.mem_iff_getElem.mpr ⟨i,?_,List.getElem_zip⟩⟩
  rw [List.length_zip]
  omega

-- Every level of the software tasks gets a dispatcher.
theorem level_dispatcher {app : App} (enough : enoughDispatchers app = .ok ()) {name : Ident} {task : SoftwareTask}
    (listed : (name,task) ∈ app.softwareTasks) (positive : 0 < task.priority) :
    ∃ dispatcher, (task.priority,dispatcher) ∈ interrupts app := by
  have level : task.priority ∈ Analyze.levels app := Analyze.mem_levels.mpr ⟨_,listed,rfl⟩
  have member : task.priority ∈ (nonzeroPriorities app).reverse :=
    List.mem_reverse.mpr (List.mem_filter.mpr ⟨level,by simpa using positive⟩)
  unfold enoughDispatchers at enough
  dsimp only at enough
  split at enough
  · cases enough
  · rename_i longer
    obtain ⟨dispatcher,assigned⟩ := mem_zip app.dispatchers.reverse
      (by simpa using Nat.le_of_not_lt longer) member
    exact ⟨dispatcher,List.mem_reverse.mpr assigned⟩

theorem lists_access {app : App} {task : Task} {resources : SharedResources} {priority : Nat} {name : Ident}
    {access : Access} (lists : Lists app task resources priority) (listed : (name,access) ∈ resources) :
    (some priority,name,access) ∈ app.sharedResourceAccesses := by
  unfold App.sharedResourceAccesses
  cases lists with
  | idle defined =>
    rename_i idle
    refine List.mem_append_left _ (List.mem_append_left _ (List.mem_flatMap.mpr ⟨idle,?_,?_⟩))
    · simp [defined]
    · exact List.mem_map.mpr ⟨_,listed,rfl⟩
  | hardware member =>
    refine List.mem_append_left _ (List.mem_append_right _ (List.mem_flatMap.mpr ⟨_,member,?_⟩))
    exact List.mem_map.mpr ⟨_,listed,rfl⟩
  | software member =>
    refine List.mem_append_right _ (List.mem_flatMap.mpr ⟨_,member,?_⟩)
    exact List.mem_map.mpr ⟨_,listed,rfl⟩

theorem access_le_ceiling {app : App} {analysis : Analysis} (analyzed : Analyze.app app = .ok analysis)
    {priority : Nat} {name : Ident} {access : Access}
    (listed : (some priority,name,access) ∈ app.sharedResourceAccesses) : priority ≤ ceiling analysis name := by
  have member : priority ∈ accessPriorities app.sharedResourceAccesses name := by
    refine List.mem_filterMap.mpr ⟨_,List.mem_filter.mpr ⟨listed,?_⟩,rfl⟩
    simp
  have found := ownership_ceiling analyzed name
  cases highest : (accessPriorities app.sharedResourceAccesses name).max? with
  | none =>
    rw [List.max?_eq_none_iff] at highest
    rw [highest] at member
    cases member
  | some bound =>
    have low : priority ≤ bound := (List.max?_eq_some_iff.mp highest).2 priority member
    rw [highest] at found
    obtain ⟨ownership,owned,same⟩ := Option.map_eq_some_iff.mp found
    unfold ceiling
    rw [owned]
    simpa [same] using low

theorem unique_entry {α : Type} {m : Map α} (distinct : (m.map Prod.fst).Nodup) {name : Ident} {left right : α}
    (first : (name,left) ∈ m) (second : (name,right) ∈ m) : left = right := by
  have found := get?_of_mem distinct first
  rw [get?_of_mem distinct second] at found
  cases found
  rfl

theorem hardware_distinct {app : App} (parsed : app.Parsed) : (app.hardwareTasks.map Prod.fst).Nodup := by
  have names := parsed.names
  unfold App.taskNames at names
  exact (List.nodup_append.mp (List.nodup_append.mp names).1).2.1

theorem software_distinct {app : App} (parsed : app.Parsed) : (app.softwareTasks.map Prod.fst).Nodup := by
  have names := parsed.names
  unfold App.taskNames at names
  exact (List.nodup_append.mp names).2.1

theorem vectors_cases {app : App} {vector : Vector} (member : vector ∈ vectors app) :
    vector.handler = .dispatcher vector.priority ∨
    ∃ name task, (name,task) ∈ app.hardwareTasks ∧ vector = ⟨task.priority,task.binds,.hardware name⟩ := by
  rcases List.mem_append.mp member with member | member
  · obtain ⟨entry,_,rfl⟩ := List.mem_map.mp member
    exact Or.inl rfl
  · obtain ⟨⟨name,task⟩,listed,rfl⟩ := List.mem_map.mp member
    exact Or.inr ⟨name,task,listed,rfl⟩

-- A handler runs a task at the priority that the task was declared with.
theorem executes_priority {app : App} (parsed : app.Parsed) {enabled : List Vector}
    (known : enabled ⊆ vectors app) {analysis : Analysis} {handler : Handler} {priority : Nat}
    (entry : (program app analysis enabled).entry handler priority) {task : Task} (executes : Executes app handler task)
    {resources : SharedResources} {declared : Nat} (lists : Lists app task resources declared) :
    priority = declared := by
  rcases entry with ⟨vector,member,rfl,rfl⟩ | ⟨rfl,rfl⟩
  · rcases vectors_cases (known member) with level | ⟨name,task',listed,rfl⟩
    · rw [level] at executes
      cases executes with
      | software first same =>
        cases lists with
        | software second => rw [← same,unique_entry (software_distinct parsed) first second]
    · cases executes with
      | hardware name =>
        cases lists with
        | hardware second => rw [unique_entry (hardware_distinct parsed) listed second]
  · cases executes with
    | idle defined =>
      cases lists with
      | idle same => rfl
    | zero first level none_ =>
      cases lists with
      | software second => rw [← level,unique_entry (software_distinct parsed) first second]

theorem program_covered {app : App} {analysis : Analysis} (parsed : app.Parsed)
    (analyzed : Analyze.app app = .ok analysis) {enabled : List Vector} (known : enabled ⊆ vectors app) :
    (program app analysis enabled).Covered := by
  rintro handler priority task name entry executes ⟨resources,declared,resource,lists,listed,_⟩
  rw [executes_priority parsed known entry executes lists]
  exact access_le_ceiling analyzed (lists_access lists listed)

end Rtic.Codegen
