import Rtic.Codegen.Program
namespace Rtic.Codegen
open Ordered Syntax
open Syntax.Analyze (Analysis levels channels channelOf)

-- analyze::Analysis, over that of the syntax.
structure CodegenAnalysis where
  parent : Analysis
  interrupts : List (Nat × Ident)
  maxAsyncPrio : Option Nat
  deriving DecidableEq, Repr

-- Each priority, the highest first, pops the last dispatcher; `none` is the panic of `expect`.
def assign : List Nat → List Ident → Option (List (Nat × Ident))
  | [],_ => some []
  | priority::rest,available =>
    match available.getLast? with
    | none => none
    | some name => (assign rest available.dropLast).map ((priority,name)::·)

-- One less than the smallest hardware task, on `u8`.
def maxAsyncPrio (app : App) : Option (Option Nat) :=
  match (app.hardwareTasks.map fun task => task.2.priority).min? with
  | none => some none
  | some 0 => none
  | some (v+1) => some (some v)

-- analyze::app; `none` is a panic, of the assertion or of one of the steps.
def analyze (analysis : Analysis) (app : App) : Option CodegenAnalysis :=
  if app.dispatchers.length < (nonzeroPriorities app).length then none
  else do
    let interrupts ← assign (nonzeroPriorities app).reverse app.dispatchers
    let maxAsyncPrio ← maxAsyncPrio app
    some ⟨analysis,interrupts.reverse,maxAsyncPrio⟩

-- `pend_interrupt`, alike in module::codegen and async_dispatchers::codegen: at priority 0 nothing
-- is pended, and above it `expect` panics if the level has no interrupt.
def pendInterrupt (analysis : CodegenAnalysis) (priority : Nat) : Option (Option Ident) :=
  if 0 < priority then (get? analysis.interrupts priority).map some else some none

-- The spawn function and the waker function of a software task.
structure SpawnItems where
  spawnPends : Option Ident
  wakerPends : Option Ident
  deriving DecidableEq, Repr

def spawnItems (app : App) (analysis : CodegenAnalysis) (name : Ident) : Option SpawnItems := do
  let spawnee ← get? app.softwareTasks name
  let pends ← pendInterrupt analysis spawnee.priority
  some ⟨pends,pends⟩

-- A dispatcher: the handler of `vector`, or without one the loop that main ends in.
structure Dispatcher where
  level : Nat
  vector : Option Ident
  polls : List Ident
  wakerPends : Option Ident
  deriving DecidableEq, Repr

def dispatcher (app : App) (analysis : CodegenAnalysis) (channel : Nat × List Ident) : Option Dispatcher := do
  let name ← pendInterrupt analysis channel.1
  let polls ← channel.2.mapM fun name => (get? app.softwareTasks name).map fun _ => name
  some ⟨channel.1,name,polls,name⟩

def asyncDispatchers (app : App) (analysis : CodegenAnalysis) : Option (List Dispatcher) :=
  analysis.parent.channels.mapM (dispatcher app analysis)

-- What main ends in.
inductive CallIdle where
  | idle (name : Ident)
  | zeroPrioDispatcher
  | loop
  deriving DecidableEq, Repr

def callIdle (app : App) (analysis : CodegenAnalysis) : CallIdle :=
  match app.idle with
  | some idle => .idle idle.name
  | none => if containsKey analysis.parent.channels 0 then .zeroPrioDispatcher else .loop

theorem assign_zip {priorities : List Nat} {available : List Ident} (enough : priorities.length ≤ available.length) :
    assign priorities available = some (priorities.zip available.reverse) := by
  induction priorities generalizing available with
  | nil => rfl
  | cons priority rest ih =>
    rcases List.eq_nil_or_concat' available with rfl | ⟨earlier,last,rfl⟩
    · cases enough
    · have shorter : rest.length ≤ earlier.length := by simpa using enough
      simp [assign,ih shorter]

theorem enough_length {app : App} (enough : enoughDispatchers app = .ok ()) :
    (nonzeroPriorities app).length ≤ app.dispatchers.length := by
  unfold enoughDispatchers at enough
  dsimp only at enough
  split at enough
  · cases enough
  · rename_i longer
    exact Nat.le_of_not_lt longer

theorem maxAsyncPrio_some {app : App} (parsed : app.Parsed) : ∃ max, maxAsyncPrio app = some max := by
  unfold maxAsyncPrio
  cases least : (app.hardwareTasks.map fun task => task.2.priority).min? with
  | none => exact ⟨none,rfl⟩
  | some v =>
    obtain ⟨task,listed,rfl⟩ := List.mem_map.mp (List.min?_mem least)
    have positive := (parsed.hardware task listed).1
    cases priority : task.2.priority with
    | zero => omega
    | succ v => exact ⟨some v,rfl⟩

-- Where there are enough dispatchers nothing in analyze::app panics.
theorem analyze_some {app : App} (analysis : Analysis) (parsed : app.Parsed) (enough : enoughDispatchers app = .ok ()) :
    ∃ codegen, analyze analysis app = some codegen ∧ codegen.parent = analysis ∧ codegen.interrupts = interrupts app := by
  have longer := enough_length enough
  obtain ⟨max,least⟩ := maxAsyncPrio_some parsed
  refine ⟨⟨analysis,interrupts app,max⟩,?_,rfl,rfl⟩
  unfold analyze
  rw [if_neg (Nat.not_lt.mpr longer),assign_zip (by simpa using longer),least]
  rfl

theorem mem_nonzeroPriorities {app : App} {level : Nat} :
    level ∈ nonzeroPriorities app ↔ 0 < level ∧ ∃ task ∈ app.softwareTasks, task.2.priority = level := by
  unfold nonzeroPriorities
  rw [List.mem_filter,Syntax.Analyze.mem_levels]
  simp [and_comm]

theorem interrupts_levels {app : App} (enough : enoughDispatchers app = .ok ()) :
    (interrupts app).map Prod.fst = nonzeroPriorities app := by
  have longer := enough_length enough
  unfold interrupts
  rw [List.map_reverse,List.map_fst_zip (by simpa using longer),List.reverse_reverse]

theorem interrupts_keyed {app : App} (enough : enoughDispatchers app = .ok ()) :
    ((interrupts app).map Prod.fst).Nodup := by
  rw [interrupts_levels enough]
  exact (Syntax.Analyze.levels_nodup app).filter _

theorem zip_snd_nodup {α β : Type} {left : List α} {right : List β} (distinct : right.Nodup) :
    ((left.zip right).map Prod.snd).Nodup := by
  induction left generalizing right with
  | nil => exact List.nodup_nil
  | cons first left ih =>
    cases right with
    | nil => exact List.nodup_nil
    | cons second right =>
      obtain ⟨absent,rest⟩ := List.nodup_cons.mp distinct
      refine List.nodup_cons.mpr ⟨fun member => ?_,ih rest⟩
      obtain ⟨entry,paired,same⟩ := List.mem_map.mp member
      have same : entry.2 = second := same
      exact absent (same ▸ (List.of_mem_zip paired).2)

theorem interrupts_distinct {app : App} (distinct : app.dispatchers.Nodup) :
    ((interrupts app).map Prod.snd).Nodup := by
  unfold interrupts
  rw [List.map_reverse,List.nodup_reverse]
  exact zip_snd_nodup (List.nodup_reverse.mpr distinct)

theorem unbound_dispatcher {app : App} (checked : Check.app app = .ok ()) {name : Ident} (given : name ∈ app.dispatchers)
    {task : Ident × HardwareTask} (listed : task ∈ app.hardwareTasks) : name ≠ task.2.binds := by
  rintro rfl
  have unbound := (Check.app_parts checked).2.2.2 task listed
  simp [Check.boundDispatcher,given] at unbound

-- The dispatchers in use and the bound interrupts and exceptions are all different vectors.
theorem bound_distinct {app : App} (parsed : app.Parsed) (keyed : app.Keyed) (checked : Check.app app = .ok ()) :
    ((interrupts app).map Prod.snd++app.hardwareTasks.map fun task => task.2.binds).Nodup := by
  refine List.nodup_append.mpr ⟨interrupts_distinct keyed.dispatchers,parsed.binds,?_⟩
  rintro name assigned _ bound rfl
  obtain ⟨entry,member,rfl⟩ := List.mem_map.mp assigned
  obtain ⟨task,listed,same⟩ := List.mem_map.mp bound
  exact unbound_dispatcher checked (interrupt_dispatcher member) listed same.symm

theorem pendInterrupt_of {analysis : CodegenAnalysis} (keyed : (analysis.interrupts.map Prod.fst).Nodup) {level : Nat}
    {name : Ident} (assigned : (level,name) ∈ analysis.interrupts) (positive : 0 < level) :
    pendInterrupt analysis level = some (some name) := by
  unfold pendInterrupt
  rw [if_pos positive,get?_of_mem keyed assigned]
  rfl

theorem mapM_each {α β : Type} {f : α → Option β} {g : α → β} {items : List α} (each : ∀ item ∈ items, f item = some (g item)) :
    items.mapM f = some (items.map g) := by
  induction items with
  | nil => rfl
  | cons item items ih =>
    rw [List.mapM_cons,each item List.mem_cons_self,ih fun other member => each other (List.mem_cons_of_mem _ member)]
    rfl

-- A software task is found under its name, which no other has.
theorem software_found {app : App} (parsed : app.Parsed) {name : Ident} {task : SoftwareTask}
    (listed : (name,task) ∈ app.softwareTasks) : get? app.softwareTasks name = some task :=
  get?_of_mem (software_distinct parsed) listed

theorem polls_found {app : App} (parsed : app.Parsed) (level : Nat) :
    (channelOf app level).mapM (fun name => (get? app.softwareTasks name).map fun _ => name) =
      some (channelOf app level) := by
  have each : ∀ name ∈ channelOf app level, ((get? app.softwareTasks name).map fun _ => name) = some (id name) := by
    intro name member
    obtain ⟨task,listed,_⟩ := Syntax.Analyze.mem_channelOf.mp member
    rw [software_found parsed listed]
    rfl
  rw [mapM_each each,List.map_id]

-- The dispatcher of each level, as the channels list them.
def dispatcherOf (app : App) (level : Nat) : Dispatcher :=
  ⟨level,get? (interrupts app) level,channelOf app level,get? (interrupts app) level⟩

-- The dispatchers with a vector are the interrupts, level by level.
theorem mem_dispatched {app : App} (enough : enoughDispatchers app = .ok ()) {entry : Nat × Ident} :
    entry ∈ ((levels app).map (dispatcherOf app)).filterMap
      (fun dispatcher => dispatcher.vector.map (dispatcher.level,·)) ↔ entry ∈ interrupts app := by
  rw [List.mem_filterMap]
  constructor
  · rintro ⟨_,member,vector⟩
    obtain ⟨level,_,rfl⟩ := List.mem_map.mp member
    obtain ⟨name,found,rfl⟩ := Option.map_eq_some_iff.mp vector
    exact mem_of_get? found
  · intro member
    have level := List.mem_map_of_mem (f:=Prod.fst) member
    rw [interrupts_levels enough] at level
    refine ⟨_,List.mem_map_of_mem (List.mem_filter.mp level).1,?_⟩
    simp [dispatcherOf,get?_of_mem (interrupts_keyed enough) member]

theorem dispatched_vectors {app : App} (enough : enoughDispatchers app = .ok ()) {name : Ident} :
    name ∈ ((levels app).map (dispatcherOf app)).filterMap Dispatcher.vector ↔ name ∈ (interrupts app).map Prod.snd := by
  rw [List.mem_filterMap,List.mem_map]
  constructor
  · rintro ⟨dispatcher,listed,vector⟩
    exact ⟨(dispatcher.level,name),(mem_dispatched enough).mp (List.mem_filterMap.mpr ⟨dispatcher,listed,by simp [vector]⟩),rfl⟩
  · rintro ⟨entry,assigned,rfl⟩
    obtain ⟨dispatcher,listed,vector⟩ := List.mem_filterMap.mp ((mem_dispatched enough).mpr assigned)
    obtain ⟨_,own,rfl⟩ := Option.map_eq_some_iff.mp vector
    exact ⟨dispatcher,listed,own⟩

theorem dispatcher_some {app : App} {analysis : CodegenAnalysis} (parsed : app.Parsed)
    (enough : enoughDispatchers app = .ok ()) (assigned : analysis.interrupts = interrupts app) {level : Nat}
    (listed : level ∈ levels app) :
    dispatcher app analysis (level,channelOf app level) = some (dispatcherOf app level) := by
  have found : pendInterrupt analysis level = some (get? (interrupts app) level) := by
    unfold pendInterrupt
    rw [assigned]
    by_cases positive : 0 < level
    · have member : level ∈ (interrupts app).map Prod.fst := by
        rw [interrupts_levels enough,mem_nonzeroPriorities]
        exact ⟨positive,Syntax.Analyze.mem_levels.mp listed⟩
      obtain ⟨⟨_,name⟩,entry,rfl⟩ := List.mem_map.mp member
      rw [if_pos positive,get?_of_mem (interrupts_keyed enough) entry]
      rfl
    · have zero : level ∉ (interrupts app).map Prod.fst := by
        rw [interrupts_levels enough,mem_nonzeroPriorities]
        exact fun both => positive both.1
      have none_ : get? (interrupts app) level = none := by
        by_contra found
        obtain ⟨name,here⟩ := Option.ne_none_iff_exists'.mp found
        exact zero (List.mem_map_of_mem (f:=Prod.fst) (mem_of_get? here))
      rw [if_neg positive,none_]
  unfold dispatcher
  dsimp only
  rw [found,polls_found parsed]
  rfl

theorem asyncDispatchers_some {app : App} {analysis : CodegenAnalysis} (parsed : app.Parsed)
    (enough : enoughDispatchers app = .ok ()) (assigned : analysis.interrupts = interrupts app)
    (channeled : analysis.parent.channels = channels app) :
    asyncDispatchers app analysis = some ((levels app).map (dispatcherOf app)) := by
  unfold asyncDispatchers
  rw [channeled]
  unfold channels
  have each : ∀ channel ∈ (levels app).map (fun priority => (priority,channelOf app priority)),
      dispatcher app analysis channel = some (dispatcherOf app channel.1) := by
    intro channel member
    obtain ⟨level,listed,rfl⟩ := List.mem_map.mp member
    exact dispatcher_some parsed enough assigned listed
  rw [mapM_each each,List.map_map]
  rfl

end Rtic.Codegen
