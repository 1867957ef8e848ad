import Rtic.Codegen.Dispatchers
import Rtic.Export.CortexBasepri
import Rtic.Syntax.Exclusivity
namespace Rtic.Export.Cortex
open Ordered Syntax Codegen
open Syntax.Analyze (Analysis levels channels channelOf)
open CortexBasepri (isException architectureSpecificAnalysis supported_parts)

-- Interrupts are set up in the NVIC, exceptions in the SCB.
inductive Controller where
  | nvic
  | scb
  deriving DecidableEq, Repr

structure SetPriority where
  controller : Controller
  vector : Ident
  priority : Nat
  deriving DecidableEq, Repr

-- The calls of set_priority in pre_init_enable_interrupts, with their logical priorities.
def preInitEnableInterrupts (app : App) (analysis : CodegenAnalysis) : List SetPriority :=
  analysis.interrupts.map (fun entry => ⟨.nvic,entry.2,entry.1⟩)++
    (app.hardwareTasks.filter fun task => !isException task.2.binds).map (fun task =>
      ⟨.nvic,task.2.binds,task.2.priority⟩)++
    (app.hardwareTasks.filter fun task => isException task.2.binds).map fun task =>
      ⟨.scb,task.2.binds,task.2.priority⟩

-- Analysis, spawn and waker functions, dispatchers and start-up code agree on who polls a task.
structure Wiring (app : App) (analysis : CodegenAnalysis) (dispatchers : List Dispatcher) : Prop where
  levels : ∀ level, level ∈ analysis.interrupts.map Prod.fst ↔
    0 < level ∧ ∃ task ∈ app.softwareTasks, task.2.priority = level
  keyed : (analysis.interrupts.map Prod.fst).Nodup
  distinct : (analysis.interrupts.map Prod.snd).Nodup
  unbound : ∀ entry ∈ analysis.interrupts, ∀ task ∈ app.hardwareTasks, entry.2 ≠ task.2.binds
  above : ∀ name task, (name,task) ∈ app.softwareTasks → 0 < task.priority →
    ∃ vector, ∃ handler ∈ dispatchers,
      spawnItems app analysis name = some ⟨some vector,some vector⟩ ∧ handler.wakerPends = some vector ∧
      handler.vector = some vector ∧ (∀ other ∈ dispatchers, other.vector = some vector → other = handler) ∧
      name ∈ handler.polls ∧ (∀ other ∈ dispatchers, name ∈ other.polls → other = handler) ∧
      (∀ polled, polled ∈ handler.polls ↔
        ∃ other, (polled,other) ∈ app.softwareTasks ∧ other.priority = task.priority) ∧
      ⟨.nvic,vector,task.priority⟩ ∈ preInitEnableInterrupts app analysis
  once : ((preInitEnableInterrupts app analysis).map SetPriority.vector).Nodup
  zero : ∀ name task, (name,task) ∈ app.softwareTasks → task.priority = 0 →
    callIdle app analysis = .zeroPrioDispatcher ∧
      (∃ loop ∈ dispatchers, loop.vector = none ∧ name ∈ loop.polls) ∧
      ∀ other ∈ dispatchers, name ∈ other.polls → other.vector = none

theorem dispatcherOf_polls {app : App} (parsed : app.Parsed) {name : Ident} {task : SoftwareTask}
    (listed : (name,task) ∈ app.softwareTasks) {level : Nat} :
    name ∈ (dispatcherOf app level).polls ↔ level = task.priority := by
  refine Syntax.Analyze.mem_channelOf.trans ⟨?_,?_⟩
  · rintro ⟨other,listed',rfl⟩
    rw [unique_entry (software_distinct parsed) listed listed']
  · rintro rfl
    exact ⟨task,listed,rfl⟩

section
variable {app : App} (parsed : app.Parsed) (keyed : app.Keyed) (checked : Check.app app = .ok ())
  (enough : enoughDispatchers app = .ok ())

-- The dispatchers and the bound interrupts and exceptions are all different vectors.
include parsed keyed checked in
theorem preInit_once {analysis : CodegenAnalysis} (assigned : analysis.interrupts = interrupts app) :
    ((preInitEnableInterrupts app analysis).map SetPriority.vector).Nodup := by
  have names : (preInitEnableInterrupts app analysis).map SetPriority.vector =
      (interrupts app).map Prod.snd++
        ((app.hardwareTasks.filter fun task => !isException task.2.binds)++
          app.hardwareTasks.filter fun task => isException task.2.binds).map fun task => task.2.binds := by
    simp [preInitEnableInterrupts,assigned,Function.comp_def]
  have split : ((app.hardwareTasks.filter fun task => !isException task.2.binds)++
      app.hardwareTasks.filter fun task => isException task.2.binds).Perm app.hardwareTasks := by
    refine List.perm_append_comm.trans ?_
    simpa using List.filter_append_perm (fun task : Ident × HardwareTask => isException task.2.binds) app.hardwareTasks
  rw [names]
  exact ((split.map _).append_left _).nodup_iff.mpr (bound_distinct parsed keyed checked)

include enough in
theorem zero_unassigned : get? (interrupts app) 0 = none := by
  by_contra found
  obtain ⟨vector,here⟩ := Option.ne_none_iff_exists'.mp found
  have member := List.mem_map_of_mem (f:=Prod.fst) (mem_of_get? here)
  rw [interrupts_levels enough,mem_nonzeroPriorities] at member
  exact absurd member.1 (Nat.lt_irrefl 0)

theorem callIdle_zero {analysis : CodegenAnalysis} (channeled : analysis.parent.channels = channels app)
    (none_ : app.idle = none) (level : 0 ∈ levels app) : callIdle app analysis = .zeroPrioDispatcher := by
  have channel : containsKey analysis.parent.channels 0 = true := by
    rw [containsKey_iff,channeled]
    exact List.mem_map.mpr ⟨_,List.mem_map.mpr ⟨0,level,rfl⟩,rfl⟩
  simp [callIdle,none_,channel]

include parsed keyed checked enough in
theorem wiring {analysis : CodegenAnalysis} (assigned : analysis.interrupts = interrupts app)
    (channeled : analysis.parent.channels = channels app)
    (loops : ¬(app.idle.isSome = true ∧ ∃ task ∈ app.softwareTasks, task.2.priority = 0)) :
    Wiring app analysis ((levels app).map (dispatcherOf app)) := by
  have levelled := interrupts_keyed enough
  constructor
  case levels =>
    intro level
    rw [assigned,interrupts_levels enough,mem_nonzeroPriorities]
  case keyed => rwa [assigned]
  case distinct =>
    rw [assigned]
    exact interrupts_distinct keyed.dispatchers
  case unbound =>
    rw [assigned]
    exact fun entry member task listed => unbound_dispatcher checked (interrupt_dispatcher member) listed
  case above =>
    intro name task listed positive
    obtain ⟨vector,entry⟩ := level_dispatcher enough listed positive
    have found := get?_of_mem levelled entry
    have level : task.priority ∈ levels app := Syntax.Analyze.mem_levels.mpr ⟨_,listed,rfl⟩
    refine ⟨vector,dispatcherOf app task.priority,List.mem_map_of_mem level,?_,found,found,?_,?_,?_,?_,?_⟩
    · have pends := pendInterrupt_of (assigned ▸ levelled) (assigned ▸ entry) positive
      simp [spawnItems,software_found parsed listed,pends]
    · intro other member same
      obtain ⟨level',_,rfl⟩ := List.mem_map.mp member
      have entry' := mem_of_get? same
      have equal : level' = task.priority :=
        congrArg Prod.fst (List.inj_on_of_nodup_map (interrupts_distinct keyed.dispatchers) entry' entry rfl)
      rw [equal]
    · exact (dispatcherOf_polls parsed listed).mpr rfl
    · intro other member polls
      obtain ⟨level',_,rfl⟩ := List.mem_map.mp member
      rw [(dispatcherOf_polls parsed listed).mp polls]
    · exact fun polled => Syntax.Analyze.mem_channelOf
    · have assignedHere : (task.priority,vector) ∈ analysis.interrupts := assigned ▸ entry
      exact List.mem_append_left _ (List.mem_append_left _ (List.mem_map.mpr ⟨_,assignedHere,rfl⟩))
  case once => exact preInit_once parsed keyed checked assigned
  case zero =>
    intro name task listed zero
    have level : 0 ∈ levels app := Syntax.Analyze.mem_levels.mpr ⟨_,listed,zero⟩
    have unassigned := zero_unassigned enough
    refine ⟨?_,⟨_,List.mem_map_of_mem level,unassigned,(dispatcherOf_polls parsed listed).mpr zero.symm⟩,?_⟩
    · have none_ : app.idle = none := by
        cases idle : app.idle with
        | none => rfl
        | some idle' => exact absurd ⟨by rw [idle]; rfl,_,listed,zero⟩ loops
      exact callIdle_zero channeled none_ level
    · intro other member polls
      obtain ⟨level',_,rfl⟩ := List.mem_map.mp member
      rw [(dispatcherOf_polls parsed listed).mp polls,zero]
      exact unassigned
end

theorem software_wired {app : App} {analysis : Analysis} (parsed : app.Parsed) (keyed : app.Keyed)
    (checked : Check.app app = .ok ()) (analyzed : Syntax.Analyze.app app = .ok analysis)
    (supported : architectureSpecificAnalysis app = .ok ()) :
    ∃ codegen dispatchers, analyze analysis app = some codegen ∧ asyncDispatchers app codegen = some dispatchers ∧
      Wiring app codegen dispatchers := by
  have enough := (supported_parts supported).2
  obtain ⟨codegen,result,rfl,assigned⟩ := analyze_some analysis parsed enough
  have channeled : codegen.parent.channels = channels app := Syntax.Analyze.app_channels analyzed
  have loops := (Syntax.Analyze.idleErrors_iff app).mp (Syntax.Analyze.app_parts analyzed).2.2.1
  exact ⟨codegen,_,result,asyncDispatchers_some parsed enough assigned channeled,
    wiring parsed keyed checked enough assigned channeled loops⟩

def blinky : App :=
  ⟨["SSI0","QEI0","ADC0"],⟨"init",[]⟩,none,[],[],
    [("timer",⟨"SysTick",3,[],[]⟩),("uart",⟨"UART0",1,[],[]⟩)],
    [("background",⟨0,[],[],false,[]⟩),("low",⟨1,[],[],false,[]⟩),("high",⟨2,[],[],false,[]⟩),
      ("alsoHigh",⟨2,[],[],false,[]⟩)]⟩

theorem blinky_wired : ∃ codegen dispatchers,
    analyze ⟨channels blinky,[],[],[],[],[]⟩ blinky = some codegen ∧ asyncDispatchers blinky codegen = some dispatchers ∧
      Wiring blinky codegen dispatchers :=
  software_wired (by constructor <;> decide) (by constructor <;> decide) (by decide) (by decide) (by decide)

end Rtic.Export.Cortex
