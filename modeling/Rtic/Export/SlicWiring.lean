import Rtic.Codegen.Generator
namespace Rtic.Export.RiscvSlic
open Ordered Syntax
open Syntax.Analyze (Analysis levels channels)
open Rtic.Codegen

-- Each software interrupt stands once in the enumeration that riscv_slic makes, and is given once the priority
-- of the tasks that its handler runs. A software task pends the one whose handler polls it.
structure Wiring (app : App) (analysis : CodegenAnalysis) (dispatchers : List Dispatcher) (modules : Codegen) : Prop where
  distinct : modules.swi.Nodup
  once : ((preInitEnableInterrupts app analysis.interrupts).map Prod.fst).Perm modules.swi
  hardware : ∀ task ∈ app.hardwareTasks,
    (preInitEnableInterrupts app analysis.interrupts).filter (fun call => call.1 = task.2.binds) =
      [(task.2.binds,task.2.priority)]
  software : ∀ name task, (name,task) ∈ app.softwareTasks → 0 < task.priority →
    ∃ vector, ∃ handler ∈ dispatchers, spawnItems app analysis name = some ⟨some vector,some vector⟩ ∧
      handler.wakerPends = some vector ∧ handler.vector = some vector ∧
      (∀ other ∈ dispatchers, other.vector = some vector → other = handler) ∧
      (∀ polled, polled ∈ handler.polls ↔
        ∃ other, (polled,other) ∈ app.softwareTasks ∧ other.priority = task.priority) ∧
      (∀ bound ∈ app.hardwareTasks, bound.2.binds ≠ vector) ∧
      (preInitEnableInterrupts app analysis.interrupts).filter (fun call => call.1 = vector) = [(vector,task.priority)]

theorem dispatcherIdent_injective : Function.Injective dispatcherIdent := by
  intro a b same
  have digits := congrArg String.toList ((String.append_right_inj _).mp same)
  rw [Nat.toString_eq_repr,Nat.toString_eq_repr,Nat.toList_repr,Nat.toList_repr] at digits
  have numbers := congrArg (fun digits => Nat.ofDigitChars 10 digits 0) digits
  rwa [Nat.ofDigitChars_toDigits (by decide) (by decide),Nat.ofDigitChars_toDigits (by decide) (by decide)] at numbers

-- The application that the generator gets.
def prepared (app : App) : App := {app with dispatchers := (List.range (nonzeroPriorities app).length).map dispatcherIdent}

-- No hardware task is bound to an interrupt that the preprocessing makes.
def Unclaimed (app : App) : Prop :=
  ∀ task ∈ app.hardwareTasks, ∀ i < (nonzeroPriorities app).length, task.2.binds ≠ dispatcherIdent i

section
variable {app : App}

theorem prepared_keyed (keyed : app.Keyed) : (prepared app).Keyed :=
  ⟨List.nodup_range.map dispatcherIdent_injective,keyed.shared,keyed.local_,keyed.hardware,keyed.software,keyed.initLocals,
    keyed.idleShared,keyed.idleLocals,keyed.hardwareShared,keyed.hardwareLocals,keyed.softwareShared,keyed.softwareLocals⟩

theorem prepared_parsed (parsed : app.Parsed) : (prepared app).Parsed :=
  ⟨parsed.names,parsed.binds,parsed.shared,parsed.local_,parsed.hardware,parsed.software⟩

-- As many dispatchers are made as there are levels.
theorem prepared_enough : enoughDispatchers (prepared app) = .ok () := by
  unfold enoughDispatchers
  dsimp only
  rw [if_neg]
  change ¬((List.range (nonzeroPriorities app).length).map dispatcherIdent).length < (nonzeroPriorities app).length
  simp

-- The check that a dispatcher is not bound came before they were made.
theorem prepared_checked (checked : Check.app app = .ok ()) (unclaimed : Unclaimed app) :
    Check.app (prepared app) = .ok () := by
  obtain ⟨shared,locals,both,_⟩ := Check.app_parts checked
  have bound : ∀ task ∈ app.hardwareTasks, Check.boundDispatcher (prepared app) task = none := by
    intro task listed
    unfold Check.boundDispatcher
    rw [if_neg]
    rw [List.contains_iff_mem]
    intro member
    obtain ⟨i,inside,same⟩ := List.mem_map.mp member
    exact unclaimed task listed i (List.mem_range.mp inside) same.symm
  unfold Check.app
  rw [List.findSome?_eq_none_iff.mpr (show ∀ entry ∈ (prepared app).sharedResourceAccesses,
      Check.undeclaredShared (prepared app) entry = none from shared),
    List.findSome?_eq_none_iff.mpr (show ∀ name ∈ (prepared app).localResourceAccesses,
      Check.undeclaredLocal (prepared app) name = none from locals),
    List.findSome?_eq_none_iff.mpr (show ∀ entry ∈ (prepared app).sharedResourceAccesses,
      Check.bothAccesses (prepared app) entry = none from both),
    List.findSome?_eq_none_iff.mpr (show ∀ task ∈ (prepared app).hardwareTasks,
      Check.boundDispatcher (prepared app) task = none from bound)]

-- Every dispatcher is assigned.
theorem interrupts_all : (interrupts (prepared app)).map Prod.snd = (prepared app).dispatchers := by
  have same : (nonzeroPriorities (prepared app)).length = (prepared app).dispatchers.length := by
    change (nonzeroPriorities app).length = ((List.range (nonzeroPriorities app).length).map dispatcherIdent).length
    simp
  unfold interrupts
  rw [List.map_reverse,List.map_snd_zip (by simp [same]),List.reverse_reverse]

variable {analysis : CodegenAnalysis}

theorem calls_names (assigned : analysis.interrupts = interrupts (prepared app)) :
    (preInitEnableInterrupts (prepared app) analysis.interrupts).map Prod.fst =
      (prepared app).dispatchers++app.hardwareTasks.map fun task => task.2.binds := by
  rw [← interrupts_all,← assigned]
  simp [preInitEnableInterrupts,prepared,Function.comp_def]

-- A vector that is named once has one call.
theorem one_call (distinct : ((preInitEnableInterrupts app analysis.interrupts).map Prod.fst).Nodup) {vector : Ident}
    {priority : Nat} (call : (priority,vector) ∈ analysis.interrupts ∨
      ∃ task ∈ app.hardwareTasks, task.2.binds = vector ∧ task.2.priority = priority) :
    (preInitEnableInterrupts app analysis.interrupts).filter (fun call => call.1 = vector) = [(vector,priority)] := by
  have called : (vector,priority) ∈ preInitEnableInterrupts app analysis.interrupts →
      (preInitEnableInterrupts app analysis.interrupts).filter (fun call => call.1 = vector) = [(vector,priority)] :=
    filter_key distinct
  refine called (List.mem_map.mpr ⟨(priority,vector),?_,rfl⟩)
  rcases call with assigned | ⟨task,listed,rfl,rfl⟩
  · exact List.mem_append_left _ assigned
  · exact List.mem_append_right _ (List.mem_map.mpr ⟨task,listed,rfl⟩)

theorem wiring_of_unclaimed (parsed : app.Parsed) (keyed : app.Keyed) (checked : Check.app app = .ok ())
    (loops : ¬(app.idle.isSome = true ∧ ∃ task ∈ app.softwareTasks, task.2.priority = 0))
    (assigned : analysis.interrupts = interrupts (prepared app))
    (channeled : analysis.parent.channels = channels (prepared app)) {modules : Codegen}
    (swi : modules.swi = (app.hardwareTasks.map fun task => task.2.binds)++(prepared app).dispatchers)
    (unclaimed : Unclaimed app) :
    Wiring (prepared app) analysis ((levels (prepared app)).map (dispatcherOf (prepared app))) modules := by
  have wired := Cortex.wiring (prepared_parsed parsed) (prepared_keyed keyed) (prepared_checked checked unclaimed)
    prepared_enough assigned channeled loops
  have names := calls_names assigned
  have bound := bound_distinct (prepared_parsed parsed) (prepared_keyed keyed) (prepared_checked checked unclaimed)
  rw [interrupts_all] at bound
  have distinct : ((preInitEnableInterrupts (prepared app) analysis.interrupts).map Prod.fst).Nodup := names ▸ bound
  constructor
  case distinct =>
    rw [swi]
    exact List.perm_append_comm.nodup_iff.mp bound
  case once =>
    rw [names,swi]
    exact List.perm_append_comm
  case hardware => exact fun task listed => one_call distinct (.inr ⟨task,listed,rfl,rfl⟩)
  case software =>
    intro name task listed positive
    obtain ⟨vector,handler,member,pends,wakes,named,only,_,_,polls,_⟩ := wired.above name task listed positive
    obtain ⟨other,entry⟩ := level_dispatcher prepared_enough (show (name,task) ∈ (prepared app).softwareTasks from listed) positive
    have same : other = vector := by
      have found := pendInterrupt_of (assigned ▸ interrupts_keyed prepared_enough) (assigned ▸ entry) positive
      rw [spawnItems,software_found (prepared_parsed parsed) listed] at pends
      simpa [found] using pends
    subst same
    have entry : (task.priority,other) ∈ analysis.interrupts := assigned ▸ entry
    refine ⟨other,handler,member,pends,wakes,named,only,polls,fun hardware here same => ?_,one_call distinct (.inl entry)⟩
    exact wired.unbound _ entry hardware here same.symm

end

-- All is wired if and only if no hardware task is bound to a name that the preprocessing makes: nothing checks that.
theorem slic_wired_iff {source : Source} {backend : Option BackendArgs} {app app' : App} {analysis : Analysis}
    (parsed : app.Parsed) (keyed : app.Keyed) (checked : Check.app app = .ok ())
    (analyzed : Syntax.Analyze.app app = .ok analysis) (preprocess : preInitPreprocessing app = .ok app')
    (supported : architectureSpecificAnalysis source backend app' = .ok ()) :
    ∃ result generated modules, analyze analysis app' = some result ∧
      codegen (.riscvSlic source) backend app' result = some generated ∧
      asyncDispatchers app' result = some (generated.dispatchers.map Prod.fst) ∧
      extraModules source backend app' = some modules ∧ generated.main.extraModules = some modules ∧
      (Wiring app' result (generated.dispatchers.map Prod.fst) modules ↔ Unclaimed app) := by
  have same : app' = prepared app := preprocessed preprocess
  subst same
  obtain ⟨result,analyzes,rfl,assigned⟩ := analyze_some analysis (prepared_parsed parsed) prepared_enough
  have channeled : result.parent.channels = channels (prepared app) := Syntax.Analyze.app_channels analyzed
  obtain ⟨generated,made⟩ := returns_codegen (ready parsed checked prepared_enough) assigned channeled
    (.riscvSlic source) supported
  obtain ⟨_,written,dispatched⟩ := codegen_written made
  have polled := Option.some.inj (dispatched.symm.trans
    (asyncDispatchers_some (prepared_parsed parsed) prepared_enough assigned channeled))
  have loops := (Syntax.Analyze.idleErrors_iff app).mp (Syntax.Analyze.app_parts analyzed).2.2.1
  obtain ⟨modules,extra,swi⟩ : ∃ modules, extraModules source backend (prepared app) = some modules ∧
      modules.swi = (app.hardwareTasks.map fun task => task.2.binds)++(prepared app).dispatchers := by
    unfold extraModules
    cases source with
    | clint =>
      obtain ⟨hartId,rfl⟩ := (supported_parts supported).2 rfl
      exact ⟨_,rfl,rfl⟩
    | mecall => exact ⟨_,rfl,rfl⟩
  have kept : generated.main.extraModules = some modules := by
    have both : (extraModules source backend (prepared app)).map some = some generated.main.extraModules := written
    rw [extra] at both
    exact (Option.some.inj both).symm
  refine ⟨result,generated,modules,analyzes,made,dispatched,extra,kept,?_,?_⟩
  · intro wired task listed i inside same
    have distinct := wired.distinct
    rw [swi] at distinct
    refine (List.nodup_append.mp distinct).2.2 _ (List.mem_map.mpr ⟨task,listed,same⟩) _ ?_ rfl
    exact List.mem_map.mpr ⟨i,List.mem_range.mpr inside,rfl⟩
  · rw [polled]
    exact wiring_of_unclaimed parsed keyed checked loops assigned channeled swi

def pulses : App :=
  ⟨[],⟨"init",[]⟩,none,[],[],[("tick",⟨"Tick",3,[],[]⟩)],
    [("sample",⟨2,[],[],false,[]⟩),("log",⟨1,[],[],false,[]⟩),("flush",⟨1,[],[],false,[]⟩)]⟩

theorem pulses_wired : ∃ result generated modules,
    codegen (.riscvSlic .clint) (some "HART0") (prepared pulses) result = some generated ∧
      Wiring (prepared pulses) result (generated.dispatchers.map Prod.fst) modules := by
  have free : Unclaimed pulses := by
    unfold Unclaimed
    decide
  obtain ⟨result,generated,modules,_,made,_,_,_,wired⟩ :=
    slic_wired_iff (by constructor <;> decide) (by constructor <;> decide) (by decide)
      (show Syntax.Analyze.app pulses = .ok ⟨channels pulses,[],[],[],[],[]⟩ by decide)
      (show preInitPreprocessing pulses = .ok (prepared pulses) by decide)
      (show architectureSpecificAnalysis .clint (some "HART0") (prepared pulses) = .ok () by decide)
  exact ⟨result,generated,modules,made,wired.mpr free⟩

end Rtic.Export.RiscvSlic
