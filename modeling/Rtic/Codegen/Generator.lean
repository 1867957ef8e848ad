import Rtic.Codegen.Dispatchers
import Rtic.Export.CortexWiring
import Rtic.Export.Esp32Wiring
import Rtic.Export.RiscvSlic
import Rtic.Library.Returns
import Rtic.Syntax.SendTypes
namespace Rtic.Codegen
open Ordered Syntax Export Returns
open Syntax.Analyze (Analysis Assertion assertions Context Args Static Field sharedField)

-- The backends, by feature.
inductive Target where
  | cortexBasepri
  | cortexSourceMasking
  | esp32 (chip : Esp32.Chip)
  | riscvSlic (source : RiscvSlic.Source)
  deriving DecidableEq, Repr

-- preprocess::app
def preprocess (target : Target) (app : App) : Except Error App :=
  match target with
  | .riscvSlic _ => RiscvSlic.preInitPreprocessing app
  | _ => .ok app

-- check::app
def check (target : Target) (backend : Option RiscvSlic.BackendArgs) (app : App) : Except Error Unit :=
  match target with
  | .cortexBasepri | .cortexSourceMasking => CortexBasepri.architectureSpecificAnalysis app
  | .esp32 _ => Esp32.architectureSpecificAnalysis app
  | .riscvSlic source => RiscvSlic.architectureSpecificAnalysis source backend app

-- In what follows none is a panic: of expect, unwrap or unreachable!, of an index or a subtraction.
def taskIdent (app : App) : Context → Option Ident
  | .init => some app.init.name
  | .idle => app.idle.map Idle.name
  | .softwareTask name | .hardwareTask name => some name

def runsOnce (ctxt : Context) : Bool := ctxt == .init || ctxt == .idle

def markInternalName (name : String) : Ident := "__rtic_internal_"++name
def localResourcesIdent (ctxt : Context) (app : App) : Option Ident :=
  (taskIdent app ctxt).map fun name => markInternalName (name++"LocalResources")
def sharedResourcesIdent (ctxt : Context) (app : App) : Option Ident :=
  (taskIdent app ctxt).map fun name => markInternalName (name++"SharedResources")

-- What is generated on a condition only.
def onlyIf {α : Type} (condition : Bool) (x : Option α) : Option (Option α) :=
  if condition then x.map some else some none

-- A field of one of the structs: its type, whether its lifetime is 'static, and where it points.
structure ResourceField where
  name : Ident
  ty : Ty
  static : Bool
  field : Field
  points : Static
  deriving DecidableEq, Repr

structure ResourcesStruct where
  ident : Ident
  doc : String
  fields : List ResourceField
  deriving DecidableEq, Repr

def localField (ctxt : Context) (app : App) (taskName : Ident) (entry : Ident × TaskLocal) : Option ResourceField :=
  match entry.2 with
  | .external => (get? app.localResources entry.1).map fun r =>
    ⟨entry.1,r.ty,runsOnce ctxt,.reference true,.local_ entry.1⟩
  | .declared ty => some ⟨entry.1,ty,runsOnce ctxt,.reference true,.declared entry.1 taskName⟩

-- local_resources_struct::codegen
def localResourcesStruct (ctxt : Context) (app : App) : Option ResourcesStruct := do
  let args ← ctxt.args app
  let taskName ← taskIdent app ctxt
  let fields ← args.localResources.mapM (localField ctxt app taskName)
  let ident ← localResourcesIdent ctxt app
  some ⟨ident,"Local resources `"++taskName++"` has access to",fields⟩

def sharedStructField (ctxt : Context) (app : App) (entry : Ident × Access) : Option ResourceField :=
  (get? app.sharedResources entry.1).map fun res =>
    ⟨entry.1,res.ty,res.lockFree && runsOnce ctxt,sharedField res entry.2,.shared entry.1⟩

-- shared_resources_struct::codegen
def sharedResourcesStruct (ctxt : Context) (app : App) : Option ResourcesStruct :=
  if ctxt = .init then none
  else do
    let args ← ctxt.args app
    let fields ← args.sharedResources.mapM (sharedStructField ctxt app)
    let name ← taskIdent app ctxt
    let ident ← sharedResourcesIdent ctxt app
    some ⟨ident,"Shared resources `"++name++"` has access to",fields⟩

-- What only the module of a software task has.
structure Spawning where
  items : SpawnItems
  inputs : List Ty
  localTask : Bool
  localSpawner : List Ident
  deriving DecidableEq, Repr

structure Module where
  name : Ident
  doc : String
  localResources : Option Ident
  sharedResources : Option Ident
  spawning : Option Spawning
  deriving DecidableEq, Repr

def hasLocalResources (ctxt : Context) (app : App) : Option Bool :=
  (ctxt.args app).map fun args => !args.localResources.isEmpty
def hasSharedResources (ctxt : Context) (app : App) : Option Bool :=
  (ctxt.args app).map fun args => !args.sharedResources.isEmpty

def moduleDoc : Context → String
  | .idle => "Idle loop"
  | .init => "Initialization function"
  | .hardwareTask _ => "Hardware task"
  | .softwareTask _ => "Software task"

def spawning (name : Ident) (app : App) (analysis : CodegenAnalysis) : Option Spawning := do
  let spawnee ← get? app.softwareTasks name
  let items ← spawnItems app analysis name
  let localTasks := app.softwareTasks.filter fun task => task.2.localTask && task.2.priority == spawnee.priority
  some ⟨items,spawnee.inputs,spawnee.localTask,localTasks.map Prod.fst⟩

def contextSpawning (ctxt : Context) (app : App) (analysis : CodegenAnalysis) : Option (Option Spawning) :=
  match ctxt with
  | .softwareTask name => (spawning name app analysis).map some
  | _ => some none

-- module::codegen
def module_ (ctxt : Context) (app : App) (analysis : CodegenAnalysis) : Option Module := do
  let name ← taskIdent app ctxt
  let locals ← hasLocalResources ctxt app
  let localIdent ← onlyIf locals (localResourcesIdent ctxt app)
  let shared ← hasSharedResources ctxt app
  let sharedIdent ← onlyIf shared (sharedResourcesIdent ctxt app)
  let items ← contextSpawning ctxt app analysis
  some ⟨name,moduleDoc ctxt,localIdent,sharedIdent,items⟩

-- The structs and the module of a context; a struct is made only where there is a resource for it.
structure ContextItems where
  locals : Option ResourcesStruct
  shared : Option ResourcesStruct
  module_ : Module
  deriving DecidableEq, Repr

-- init::codegen, idle::codegen, and what hardware_tasks::codegen and software_tasks::codegen do for each task.
def contextItems (ctxt : Context) (app : App) (analysis : CodegenAnalysis) : Option ContextItems := do
  let args ← ctxt.args app
  let locals ← onlyIf (!args.localResources.isEmpty) (localResourcesStruct ctxt app)
  let shared ← onlyIf (!args.sharedResources.isEmpty) (sharedResourcesStruct ctxt app)
  let items ← module_ ctxt app analysis
  some ⟨locals,shared,items⟩

-- The constants of a source-masking Mutex: the interrupts of N_CHUNKS and those of the three MASKS.
structure MutexMasks where
  ids : List Ident
  masks : List (List Ident)
  deriving DecidableEq, Repr

structure Mutex where
  resource : Ident
  ty : Ty
  ceiling : Nat
  masks : Option MutexMasks
  deriving DecidableEq, Repr

-- The keys of prio_to_masks are one less than the priorities, on `u8`.
def prioToMasks (app : App) (analysis : CodegenAnalysis) : Option (List (Nat × Ident)) :=
  let interruptIds := analysis.interrupts++
    (app.hardwareTasks.filter fun task => !CortexBasepri.isException task.2.binds).map fun task =>
      (task.2.priority,task.2.binds)
  interruptIds.mapM fun entry => match entry.1 with
    | 0 => none
    | priority+1 => some (priority,entry.2)

def implMutex (target : Target) (app : App) (analysis : CodegenAnalysis) (res : Ident × SharedResource) : Option Mutex :=
  let ceiling := ceiling analysis.parent res.1
  match target with
  | .cortexSourceMasking => (prioToMasks app analysis).map fun prioToMasks =>
    ⟨res.1,res.2.ty,ceiling,some ⟨prioToMasks.map Prod.snd,
      (List.range 3).map fun i => (prioToMasks.filter fun entry => entry.1 = i).map Prod.snd⟩⟩
  | _ => some ⟨res.1,res.2.ty,ceiling,none⟩

-- shared_resources::codegen
def sharedResources (target : Target) (app : App) (analysis : CodegenAnalysis) : Option (List Mutex) :=
  (app.sharedResources.filter fun res => !res.2.lockFree).mapM (implMutex target app analysis)

def declaredLocals (taskName : Ident) (locals : LocalResources) : List (Ident × Ident × Ty) :=
  locals.filterMap fun entry => match entry.2 with
    | .declared ty => some (taskName,entry.1,ty)
    | .external => none

def declaredLocalResources (app : App) : Option (List (Ident × Ident × Ty)) := do
  let idle ← app.idle.toList.mapM fun idle => (taskIdent app .idle).map fun name => declaredLocals name idle.localResources
  some (declaredLocals app.init.name app.init.localResources++idle.flatten++
    app.hardwareTasks.flatMap (fun task => declaredLocals task.1 task.2.localResources)++
    app.softwareTasks.flatMap fun task => declaredLocals task.1 task.2.localResources)

-- local_resources::codegen: the statics with their types.
def localResources (app : App) : Option (List (Static × Ty)) :=
  (declaredLocalResources app).map fun declared =>
    app.localResources.map (fun res => (.local_ res.1,res.2.ty))++
      declared.map fun entry => (.declared entry.2.1 entry.1,entry.2.2)

-- On the C3 the numbers come from a range, and none stands for its overflow.
inductive StartUp where
  | cortex (calls : List Cortex.SetPriority)
  | esp32 (calls : Option (List Esp32.Enable))
  | riscvSlic (calls : List (Ident × Nat))
  deriving DecidableEq, Repr

def preInitEnableInterrupts (target : Target) (app : App) (analysis : CodegenAnalysis) : StartUp :=
  match target with
  | .cortexBasepri | .cortexSourceMasking => .cortex (Cortex.preInitEnableInterrupts app analysis)
  | .esp32 chip => .esp32 (Esp32.preInitEnableInterrupts chip app analysis)
  | .riscvSlic _ => .riscvSlic (RiscvSlic.preInitEnableInterrupts app analysis.interrupts)

def handlerConfig (target : Target) (app : App) (analysis : CodegenAnalysis) (name : Ident) : Option (List String) :=
  match target with
  | .esp32 chip => Esp32.handlerConfig chip app analysis name
  | _ => some []

structure Main where
  extraModules : Option RiscvSlic.Codegen
  assertions : List Assertion
  preInitChecks : List Ident
  startUp : StartUp
  lateShared : List Ident
  lateLocal : List Ident
  executors : List (Ident × Nat)
  callIdle : CallIdle
  deriving DecidableEq, Repr

def extraModules (target : Target) (backend : Option RiscvSlic.BackendArgs) (app : App) :
    Option (Option RiscvSlic.Codegen) :=
  match target with
  | .riscvSlic source => (RiscvSlic.extraModules source backend app).map some
  | _ => some none

-- main::codegen
def main (target : Target) (backend : Option RiscvSlic.BackendArgs) (app : App) (analysis : CodegenAnalysis) :
    Option Main := do
  let extra ← extraModules target backend app
  let executors ← app.softwareTasks.mapM fun task =>
    (get? app.softwareTasks task.1).map fun found => (task.1,found.inputs.length+1)
  some {
    extraModules := extra
    assertions := assertions analysis.parent
    preInitChecks := app.dispatchers
    startUp := preInitEnableInterrupts target app analysis
    lateShared := (app.sharedResources.map Prod.fst).filter analysis.parent.sharedResources.contains
    lateLocal := (app.localResources.map Prod.fst).filter analysis.parent.localResources.contains
    executors
    callIdle := callIdle app analysis }

structure HardwareItems where
  symbol : Ident
  priority : Nat
  config : Option (List String)
  items : ContextItems
  deriving DecidableEq, Repr

-- hardware_tasks::codegen
def hardwareTask (target : Target) (app : App) (analysis : CodegenAnalysis) (task : Ident × HardwareTask) :
    Option HardwareItems :=
  (contextItems (.hardwareTask task.1) app analysis).map fun items =>
    ⟨task.2.binds,task.2.priority,handlerConfig target app analysis task.2.binds,items⟩

structure Generated where
  main : Main
  init : ContextItems
  idle : Option ContextItems
  sharedResources : List Mutex
  localResources : List (Static × Ty)
  hardwareTasks : List HardwareItems
  softwareTasks : List ContextItems
  dispatchers : List (Dispatcher × Option (Option (List String)))
  asyncPrioLimit : Option Nat
  deriving DecidableEq, Repr

-- codegen::app
def codegen (target : Target) (backend : Option RiscvSlic.BackendArgs) (app : App) (analysis : CodegenAnalysis) :
    Option Generated := do
  let main ← main target backend app analysis
  let init ← contextItems .init app analysis
  let idle ← onlyIf app.idle.isSome (contextItems .idle app analysis)
  let shared ← sharedResources target app analysis
  let locals ← localResources app
  let hardware ← app.hardwareTasks.mapM (hardwareTask target app analysis)
  let software ← app.softwareTasks.mapM fun task => contextItems (.softwareTask task.1) app analysis
  let dispatchers ← asyncDispatchers app analysis
  some {
    main
    init
    idle
    sharedResources := shared
    localResources := locals
    hardwareTasks := hardware
    softwareTasks := software
    dispatchers := dispatchers.map fun dispatcher => (dispatcher,dispatcher.vector.map (handlerConfig target app analysis))
    asyncPrioLimit := analysis.maxAsyncPrio }

theorem codegen_written {target : Target} {backend : Option RiscvSlic.BackendArgs} {app : App}
    {analysis : CodegenAnalysis} {generated : Generated} (made : codegen target backend app analysis = some generated) :
    generated.main.startUp = preInitEnableInterrupts target app analysis ∧
      extraModules target backend app = some generated.main.extraModules ∧
      asyncDispatchers app analysis = some (generated.dispatchers.map Prod.fst) := by
  obtain ⟨main,mainMade,rest⟩ := Option.bind_eq_some_iff.mp made
  obtain ⟨_,_,rest⟩ := Option.bind_eq_some_iff.mp rest
  obtain ⟨_,_,rest⟩ := Option.bind_eq_some_iff.mp rest
  obtain ⟨_,_,rest⟩ := Option.bind_eq_some_iff.mp rest
  obtain ⟨_,_,rest⟩ := Option.bind_eq_some_iff.mp rest
  obtain ⟨_,_,rest⟩ := Option.bind_eq_some_iff.mp rest
  obtain ⟨_,_,rest⟩ := Option.bind_eq_some_iff.mp rest
  obtain ⟨dispatchers,dispatched,built⟩ := Option.bind_eq_some_iff.mp rest
  obtain ⟨extra,extraMade,rest⟩ := Option.bind_eq_some_iff.mp mainMade
  obtain ⟨_,_,mainBuilt⟩ := Option.bind_eq_some_iff.mp rest
  cases built
  cases mainBuilt
  exact ⟨rfl,extraMade,dispatched.trans (congrArg some (by simp [Function.comp_def]))⟩

-- What the passes before it establish for the generator.
structure Ready (app : App) : Prop where
  parsed : app.Parsed
  shared : ∀ entry ∈ app.sharedResourceAccesses, Returns (get? app.sharedResources entry.2.1)
  locals : ∀ context ∈ Syntax.Analyze.taskResourcesList app, ∀ name, (name,TaskLocal.external) ∈ context.2.2.1 →
    Returns (get? app.localResources name)
  enough : enoughDispatchers app = .ok ()

theorem returns_get? {κ α : Type} [DecidableEq κ] {m : Ordered.Map κ α} {key : κ} (member : key ∈ m.map Prod.fst) :
    Returns (get? m key) :=
  Option.isSome_iff_exists.mp (containsKey_iff.mpr member)

theorem returns_onlyIf {α : Type} {condition : Bool} {x : Option α} (returns : condition = true → Returns x) :
    Returns (onlyIf condition x) := by
  cases condition with
  | false => exact returns_some _
  | true => exact (returns rfl).map _

section
variable {app : App} {analysis : CodegenAnalysis} {ctxt : Context}

theorem returns_args (own : ctxt ∈ Syntax.Analyze.contexts app) : Returns (ctxt.args app) := by
  unfold Syntax.Analyze.contexts at own
  simp only [List.mem_append,List.mem_cons,List.mem_map,Option.mem_toList] at own
  rcases own with ((rfl | ⟨idle,defined,rfl⟩) | ⟨task,listed,rfl⟩) | ⟨task,listed,rfl⟩
  · exact returns_some _
  · exact Returns.map ⟨idle,defined⟩ _
  · exact (returns_get? (List.mem_map_of_mem listed)).map _
  · exact (returns_get? (List.mem_map_of_mem listed)).map _

theorem returns_taskIdent (own : ctxt ∈ Syntax.Analyze.contexts app) : Returns (taskIdent app ctxt) := by
  cases ctxt with
  | init => exact returns_some _
  | idle =>
    obtain ⟨args,found⟩ := returns_args own
    obtain ⟨idle,defined,_⟩ := Option.map_eq_some_iff.mp found
    exact Returns.map ⟨idle,defined⟩ _
  | softwareTask name => exact returns_some _
  | hardwareTask name => exact returns_some _

theorem args_access {args : Args} (found : ctxt.args app = some args) {name : Ident} {access : Access}
    (listed : (name,access) ∈ args.sharedResources) : (some args.priority,name,access) ∈ app.sharedResourceAccesses := by
  cases ctxt with
  | init =>
    cases found
    cases listed
  | idle =>
    obtain ⟨idle,defined,rfl⟩ := Option.map_eq_some_iff.mp found
    exact lists_access (.idle defined) listed
  | softwareTask task =>
    obtain ⟨_,defined,rfl⟩ := Option.map_eq_some_iff.mp found
    exact lists_access (.software (mem_of_get? defined)) listed
  | hardwareTask task =>
    obtain ⟨_,defined,rfl⟩ := Option.map_eq_some_iff.mp found
    exact lists_access (.hardware (mem_of_get? defined)) listed

theorem returns_localResourcesStruct (ready : Ready app) (own : ctxt ∈ Syntax.Analyze.contexts app) :
    Returns (localResourcesStruct ctxt app) := by
  refine (returns_args own).bind fun args found => ?_
  refine (returns_taskIdent own).bind fun taskName _ => ?_
  refine Returns.bind (returns_mapM fun entry listed => ?_) fun fields _ => ?_
  · rcases entry with ⟨name,external | ty⟩
    · exact (ready.locals _ (Syntax.Analyze.args_context found) name listed).map _
    · exact returns_some _
  · exact ((returns_taskIdent own).map _).bind fun ident _ => returns_some _

theorem returns_sharedResourcesStruct (ready : Ready app) (own : ctxt ∈ Syntax.Analyze.contexts app)
    (task : ctxt ≠ .init) : Returns (sharedResourcesStruct ctxt app) := by
  unfold sharedResourcesStruct
  rw [if_neg task]
  refine (returns_args own).bind fun args found => ?_
  refine Returns.bind (returns_mapM fun entry listed => ?_) fun fields _ => ?_
  · exact (ready.shared _ (args_access found listed)).map _
  · refine (returns_taskIdent own).bind fun name _ => ?_
    exact ((returns_taskIdent own).map _).bind fun ident _ => returns_some _

theorem returns_pendInterrupt (ready : Ready app) (assigned : analysis.interrupts = interrupts app)
    {task : Ident × SoftwareTask} (listed : task ∈ app.softwareTasks) :
    Returns (pendInterrupt analysis task.2.priority) := by
  rcases Nat.eq_zero_or_pos task.2.priority with zero | positive
  · rw [zero]
    exact returns_some _
  · obtain ⟨dispatcher,entry⟩ := level_dispatcher ready.enough listed positive
    have keyed := interrupts_keyed ready.enough
    rw [← assigned] at keyed entry
    exact ⟨_,pendInterrupt_of keyed entry positive⟩

theorem returns_spawning (ready : Ready app) (assigned : analysis.interrupts = interrupts app)
    {task : Ident × SoftwareTask} (listed : task ∈ app.softwareTasks) : Returns (spawning task.1 app analysis) := by
  have found := software_found ready.parsed listed
  have items : Returns (spawnItems app analysis task.1) := by
    refine Returns.bind ⟨_,found⟩ fun spawnee same => ?_
    rw [found] at same
    cases same
    exact (returns_pendInterrupt ready assigned listed).bind fun pends _ => returns_some _
  exact Returns.bind ⟨_,found⟩ fun _ _ => items.bind fun _ _ => returns_some _

theorem returns_module (ready : Ready app) (assigned : analysis.interrupts = interrupts app)
    (own : ctxt ∈ Syntax.Analyze.contexts app) : Returns (module_ ctxt app analysis) := by
  refine (returns_taskIdent own).bind fun name _ => ?_
  refine ((returns_args own).map _).bind fun locals _ => ?_
  refine (returns_onlyIf fun _ => (returns_taskIdent own).map _).bind fun localIdent _ => ?_
  refine ((returns_args own).map _).bind fun shared _ => ?_
  refine (returns_onlyIf fun _ => (returns_taskIdent own).map _).bind fun sharedIdent _ => ?_
  refine Returns.bind ?_ fun items _ => returns_some _
  cases ctxt with
  | init => exact returns_some _
  | idle => exact returns_some _
  | hardwareTask name => exact returns_some _
  | softwareTask name =>
    obtain ⟨args,found⟩ := returns_args own
    obtain ⟨task,defined,_⟩ := Option.map_eq_some_iff.mp found
    exact (returns_spawning ready assigned (mem_of_get? defined)).map _

theorem returns_contextItems (ready : Ready app) (assigned : analysis.interrupts = interrupts app)
    (own : ctxt ∈ Syntax.Analyze.contexts app) : Returns (contextItems ctxt app analysis) := by
  refine (returns_args own).bind fun args found => ?_
  refine (returns_onlyIf fun _ => returns_localResourcesStruct ready own).bind fun locals _ => ?_
  refine (returns_onlyIf fun present => returns_sharedResourcesStruct ready own ?_).bind fun shared _ => ?_
  · rintro rfl
    cases found
    cases present
  · exact (returns_module ready assigned own).bind fun items _ => returns_some _

-- The priorities that the masks are keyed by are those of interrupts, which are above 0.
theorem returns_prioToMasks (ready : Ready app) (assigned : analysis.interrupts = interrupts app) :
    Returns (prioToMasks app analysis) := by
  refine returns_mapM fun entry listed => ?_
  have positive : 0 < entry.1 := by
    rcases List.mem_append.mp listed with dispatched | bound
    · have level := List.mem_map_of_mem (f:=Prod.fst) (assigned ▸ dispatched)
      rw [interrupts_levels ready.enough,mem_nonzeroPriorities] at level
      exact level.1
    · obtain ⟨task,member,rfl⟩ := List.mem_map.mp bound
      exact (ready.parsed.hardware task (List.mem_filter.mp member).1).1
  rcases entry with ⟨_ | priority,name⟩
  · cases positive
  · exact returns_some _

theorem returns_sharedResources (ready : Ready app) (assigned : analysis.interrupts = interrupts app) (target : Target) :
    Returns (sharedResources target app analysis) := by
  refine returns_mapM fun res _ => ?_
  cases target with
  | cortexSourceMasking => exact (returns_prioToMasks ready assigned).map _
  | cortexBasepri | esp32 | riscvSlic => exact returns_some _

theorem returns_localResources : Returns (localResources app) := by
  refine Returns.map (Returns.bind (returns_mapM fun idle defined => ?_) fun _ _ => returns_some _) _
  have own : .idle ∈ Syntax.Analyze.contexts app := by
    simp only [Option.mem_toList] at defined
    simp [Syntax.Analyze.contexts,defined]
  exact (returns_taskIdent own).map _

theorem returns_main (target : Target) {backend : Option RiscvSlic.BackendArgs} (supported : check target backend app = .ok ()) :
    Returns (main target backend app analysis) := by
  refine Returns.bind ?_ fun extra _ => Returns.bind (returns_mapM fun task listed => ?_) fun executors _ => returns_some _
  · cases target with
    | riscvSlic source =>
      refine Returns.map ?_ _
      cases source with
      | clint => exact Returns.map ((RiscvSlic.supported_parts supported).2 rfl) _
      | mecall => exact returns_some _
    | cortexBasepri | cortexSourceMasking | esp32 => exact returns_some _
  · exact (returns_get? (List.mem_map_of_mem listed)).map _

theorem returns_codegen (ready : Ready app) (assigned : analysis.interrupts = interrupts app)
    (channeled : analysis.parent.channels = Syntax.Analyze.channels app) (target : Target)
    {backend : Option RiscvSlic.BackendArgs} (supported : check target backend app = .ok ()) :
    Returns (codegen target backend app analysis) := by
  refine (returns_main target supported).bind fun main _ => ?_
  refine (returns_contextItems ready assigned (by simp [Syntax.Analyze.contexts])).bind fun init _ => ?_
  refine (returns_onlyIf fun defined => returns_contextItems ready assigned ?_).bind fun idle _ => ?_
  · obtain ⟨idle,here⟩ := Option.isSome_iff_exists.mp defined
    simp [Syntax.Analyze.contexts,here]
  · refine (returns_sharedResources ready assigned target).bind fun shared _ => ?_
    refine returns_localResources.bind fun locals _ => ?_
    refine Returns.bind (returns_mapM fun task listed => ?_) fun hardware _ => ?_
    · refine (returns_contextItems ready assigned ?_).map _
      exact List.mem_append_left _ (List.mem_append_right _ (List.mem_map_of_mem listed))
    · refine Returns.bind (returns_mapM fun task listed => ?_) fun software _ => ?_
      · refine returns_contextItems ready assigned ?_
        exact List.mem_append_right _ (List.mem_map_of_mem listed)
      · have dispatched := asyncDispatchers_some ready.parsed ready.enough assigned channeled
        exact Returns.bind ⟨_,dispatched⟩ fun dispatchers _ => returns_some _
end

theorem preprocessed {target : Target} {app app' : App} (prepared : preprocess target app = .ok app') :
    ∃ dispatchers, app' = {app with dispatchers := dispatchers} := by
  cases target with
  | riscvSlic source => exact ⟨_,RiscvSlic.preprocessed prepared⟩
  | cortexBasepri | cortexSourceMasking | esp32 =>
    cases prepared
    exact ⟨app.dispatchers,rfl⟩

theorem check_enough {target : Target} {backend : Option RiscvSlic.BackendArgs} {app : App}
    (supported : check target backend app = .ok ()) : enoughDispatchers app = .ok () := by
  cases target with
  | cortexBasepri | cortexSourceMasking => exact (CortexBasepri.supported_parts supported).2
  | esp32 => exact Esp32.enough_of_supported supported
  | riscvSlic => exact (RiscvSlic.supported_parts supported).1

-- The checks were made on the application as it was parsed, the generator gets it with other dispatchers.
theorem ready {app : App} (parsed : app.Parsed) (checked : Check.app app = .ok ()) {dispatchers : List Ident}
    (enough : enoughDispatchers {app with dispatchers := dispatchers} = .ok ()) :
    Ready {app with dispatchers := dispatchers} := by
  constructor
  case parsed => exact ⟨parsed.names,parsed.binds,parsed.shared,parsed.local_,parsed.hardware,parsed.software⟩
  case shared => exact fun entry listed => Check.declared_shared checked listed
  case locals =>
    intro context member name listed
    obtain ⟨entry,declared,rfl⟩ := Syntax.Analyze.declared_local checked member listed
    exact returns_get? (List.mem_map_of_mem declared)
  case enough => exact enough

-- No panic is reached for an application that all passes before the generator accept, and every level
-- above 0 has its dispatcher.
theorem accepted_generates {target : Target} {backend : Option RiscvSlic.BackendArgs} {app app' : App}
    {analysis : Analysis} (parsed : app.Parsed) (checked : Check.app app = .ok ())
    (analyzed : Syntax.Analyze.app app = .ok analysis) (prepared : preprocess target app = .ok app')
    (supported : check target backend app' = .ok ()) :
    ∃ result generated, analyze analysis app' = some result ∧ codegen target backend app' result = some generated ∧
      ∀ task ∈ app'.softwareTasks, 0 < task.2.priority → Returns (get? result.interrupts task.2.priority) := by
  have enough := check_enough supported
  obtain ⟨dispatchers,rfl⟩ := preprocessed prepared
  have ready := ready parsed checked enough
  obtain ⟨result,made,rfl,assigned⟩ := analyze_some analysis ready.parsed ready.enough
  have channeled : result.parent.channels = Syntax.Analyze.channels {app with dispatchers := dispatchers} :=
    Syntax.Analyze.app_channels analyzed
  obtain ⟨generated,returned⟩ := returns_codegen ready assigned channeled target supported
  refine ⟨result,generated,made,returned,fun task listed positive => ?_⟩
  obtain ⟨dispatcher,entry⟩ := level_dispatcher ready.enough listed positive
  exact returns_get? (assigned ▸ List.mem_map_of_mem (f:=Prod.fst) entry)

-- One resource of each kind, tasks at 0 and above, and dispatchers that the preprocessing makes.
def sensors : App :=
  ⟨[],⟨"init",[("queue",.declared "Queue")]⟩,none,[("total",⟨"u32",false⟩),("flag",⟨"bool",true⟩)],[("led",⟨"Led"⟩)],
    [("tick",⟨"MTIP",3,[],[("total",.exclusive),("flag",.exclusive)]⟩)],
    [("sample",⟨2,[("led",.external)],[("total",.exclusive)],false,["u8"]⟩),("log",⟨0,[],[("total",.exclusive)],true,[]⟩)]⟩

def sensorsAnalysis : Analysis :=
  ⟨[(0,["log"]),(2,["sample"])],["total","flag"],["queue","led"],[("total",.contended 3),("flag",.owned 3)],
    ["u32","bool","u8"],[]⟩

theorem sensors_generates : ∃ result generated,
    analyze sensorsAnalysis {sensors with dispatchers := ["__RTICDispatcher0"]} = some result ∧
      codegen (.riscvSlic .clint) (some "HART0") {sensors with dispatchers := ["__RTICDispatcher0"]} result =
        some generated := by
  have prepared : preprocess (.riscvSlic .clint) sensors = .ok {sensors with dispatchers := ["__RTICDispatcher0"]} := by
    decide
  have supported : check (.riscvSlic .clint) (some "HART0") {sensors with dispatchers := ["__RTICDispatcher0"]} =
      .ok () := by decide
  obtain ⟨result,generated,made,returned,_⟩ :=
    accepted_generates (show sensors.Parsed by constructor <;> decide) (by decide)
      (show Syntax.Analyze.app sensors = .ok sensorsAnalysis by decide) prepared supported
  exact ⟨result,generated,made,returned⟩

end Rtic.Codegen
