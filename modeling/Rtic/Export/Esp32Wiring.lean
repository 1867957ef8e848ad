import Mathlib.Data.List.Perm.Subperm
import Rtic.Codegen.Dispatchers
import Rtic.Export.Esp32
namespace Rtic.Export.Esp32
open Ordered Syntax Codegen
open Syntax.Analyze (Analysis levels channels)

-- esp-hal reserves interrupts 1-19.
def externalInterrupts : List Nat := [20,21,22,23,24,25,26,27,28,29,30,31]

-- The CPU interrupts that are there to be used; on the C3 ids 0-15 are reserved.
def Chip.numbers : Chip → List Nat
  | .c3 => List.range' 16 16
  | .c6 => externalInterrupts

-- rtic::export::enable(vector, priority, number)
structure Enable where
  vector : Ident
  priority : Nat
  number : Nat
  deriving DecidableEq, Repr

def interruptIds (app : App) (analysis : CodegenAnalysis) : List (Nat × Ident) :=
  analysis.interrupts++app.hardwareTasks.map fun task => (task.2.priority,task.2.binds)

-- (number..).zip(items): the range steps to its next number before the items are asked, and panics
-- where there is none.
def numbered (last : Nat) {α : Type} (number : Nat) : List α → Option (List (α × Nat))
  | [] => if last ≤ number then none else some []
  | item::rest => if last ≤ number then none else (numbered last (number+1) rest).map ((item,number)::·)

-- Both generators number the vectors anew, on the C3 with a range of their own integer type.
def mapped (chip : Chip) (last : Nat) (app : App) (analysis : CodegenAnalysis) : Option (List ((Nat × Ident) × Nat)) :=
  match chip with
  | .c3 => numbered last 16 (interruptIds app analysis)
  | .c6 => some ((interruptIds app analysis).zip externalInterrupts)

def preInitEnableInterrupts (chip : Chip) (app : App) (analysis : CodegenAnalysis) : Option (List Enable) :=
  (mapped chip 255 app analysis).map fun pairs => pairs.map fun pair => ⟨pair.1.2,pair.1.1,pair.2⟩

-- The export names that a handler is given.
def handlerConfig (chip : Chip) (app : App) (analysis : CodegenAnalysis) (dispatcherName : Ident) :
    Option (List String) :=
  (mapped chip 2147483647 app analysis).map fun pairs =>
    (pairs.filter fun pair => pair.1.2 = dispatcherName).map fun pair => "interrupt"++toString pair.2

-- The handlers in the generated code, with the priority of the tasks that they run.
def handlers (app : App) (dispatchers : List Dispatcher) : List (Nat × Ident) :=
  dispatchers.filterMap (fun dispatcher => dispatcher.vector.map (dispatcher.level,·))++
    app.hardwareTasks.map fun task => (task.2.priority,task.2.binds)

structure Wiring (chip : Chip) (app : App) (analysis : CodegenAnalysis) (dispatchers : List Dispatcher)
    (calls : List Enable) : Prop where
  distinct : (calls.map Enable.number).Nodup
  exists_ : ∀ call ∈ calls, call.number ∈ chip.numbers
  exported : ∀ priority vector, (priority,vector) ∈ handlers app dispatchers → ∃ number,
    calls.filter (fun call => call.vector = vector) = [⟨vector,priority,number⟩] ∧
    handlerConfig chip app analysis vector = some ["interrupt"++toString number]

def Wired (chip : Chip) (app : App) (analysis : CodegenAnalysis) (dispatchers : List Dispatcher) : Prop :=
  ∃ calls, preInitEnableInterrupts chip app analysis = some calls ∧ Wiring chip app analysis dispatchers calls

theorem numbered_zip {α : Type} {last number count : Nat} {items : List α} (longer : items.length ≤ count)
    (below : number+count < last) : numbered last number items = some (items.zip (List.range' number count)) := by
  induction items generalizing number count with
  | nil =>
    unfold numbered
    rw [if_neg (by omega)]
    rfl
  | cons item rest ih =>
    cases count with
    | zero => cases longer
    | succ count =>
      have rest_ : numbered last (number+1) rest = some (rest.zip (List.range' (number+1) count)) :=
        ih (Nat.le_of_succ_le_succ longer) (by omega)
      unfold numbered
      rw [if_neg (by omega),rest_,List.range'_succ]
      rfl

theorem numbered_panics {α : Type} {last number : Nat} {items : List α} :
    numbered last number items = none ↔ last ≤ number+items.length := by
  induction items generalizing number with
  | nil =>
    unfold numbered
    split <;> simp_all
  | cons item rest ih =>
    unfold numbered
    split
    · rename_i reached
      exact iff_of_true rfl (by omega)
    · rw [Option.map_eq_none_iff,ih,List.length_cons]
      omega

theorem numbers_nodup (chip : Chip) : chip.numbers.Nodup := by
  cases chip with
  | c3 => exact List.nodup_range'
  | c6 => decide

theorem mapped_zip {chip : Chip} {last : Nat} {app : App} {analysis : CodegenAnalysis} (wide : 255 ≤ last)
    (fits : (interruptIds app analysis).length ≤ chip.numbers.length) :
    mapped chip last app analysis = some ((interruptIds app analysis).zip chip.numbers) := by
  cases chip with
  | c3 => exact numbered_zip (by simpa [Chip.numbers] using fits) (by omega)
  | c6 => rfl

theorem mem_handlers {app : App} (enough : enoughDispatchers app = .ok ()) {analysis : CodegenAnalysis}
    (assigned : analysis.interrupts = interrupts app) {entry : Nat × Ident} :
    entry ∈ handlers app ((levels app).map (dispatcherOf app)) ↔ entry ∈ interruptIds app analysis := by
  unfold handlers interruptIds
  rw [List.mem_append,List.mem_append,mem_dispatched enough,assigned]

section
variable {chip : Chip} {app : App} (parsed : app.Parsed) (keyed : app.Keyed) (checked : Check.app app = .ok ())
  (enough : enoughDispatchers app = .ok ()) {analysis : CodegenAnalysis} (assigned : analysis.interrupts = interrupts app)

include parsed keyed checked assigned in
theorem ids_distinct : ((interruptIds app analysis).map Prod.snd).Nodup := by
  have distinct := bound_distinct parsed keyed checked
  unfold interruptIds
  rw [assigned,List.map_append,List.map_map]
  exact distinct

include enough assigned in
theorem ids_length : (interruptIds app analysis).length = (nonzeroPriorities app).length+app.hardwareTasks.length := by
  unfold interruptIds
  rw [assigned,List.length_append,List.length_map,← interrupts_levels enough,List.length_map]

include parsed keyed checked enough assigned in
theorem wired_of_fits (fits : (interruptIds app analysis).length ≤ chip.numbers.length) :
    Wired chip app analysis ((levels app).map (dispatcherOf app)) := by
  refine ⟨_,by rw [preInitEnableInterrupts,mapped_zip (by omega) fits]; rfl,?_⟩
  constructor
  case distinct =>
    rw [List.map_map]
    exact zip_snd_nodup (numbers_nodup chip)
  case exists_ =>
    intro call member
    obtain ⟨pair,paired,rfl⟩ := List.mem_map.mp member
    exact (List.of_mem_zip paired).2
  case exported =>
    intro priority vector handler
    have listed := (mem_handlers enough assigned).mp handler
    obtain ⟨number,paired⟩ := mem_zip chip.numbers fits listed
    have vectors : (((interruptIds app analysis).zip chip.numbers).map fun pair => pair.1.2).Nodup := by
      have firsts := List.map_fst_zip fits
      have distinct := ids_distinct parsed keyed checked assigned
      rw [← firsts,List.map_map] at distinct
      exact distinct
    have only := filter_key vectors paired
    refine ⟨number,?_,?_⟩
    · rw [List.filter_map]
      exact congrArg (List.map _) only
    · rw [handlerConfig,mapped_zip (by omega) fits]
      exact congrArg some (congrArg (List.map _) only)

-- Where all are wired, there are as many numbers as vectors.
include parsed keyed checked enough assigned in
theorem fits_of_wired (wired : Wired chip app analysis ((levels app).map (dispatcherOf app))) :
    (interruptIds app analysis).length ≤ chip.numbers.length := by
  obtain ⟨calls,_,wiring⟩ := wired
  have enabled : (interruptIds app analysis).map Prod.snd ⊆ calls.map Enable.vector := by
    intro vector member
    obtain ⟨entry,listed,rfl⟩ := List.mem_map.mp member
    obtain ⟨number,only,_⟩ := wiring.exported entry.1 entry.2 ((mem_handlers enough assigned).mpr listed)
    have call : (⟨entry.2,entry.1,number⟩ : Enable) ∈ calls :=
      (List.mem_filter.mp (only ▸ List.mem_singleton_self _)).1
    exact List.mem_map.mpr ⟨_,call,rfl⟩
  have present : calls.map Enable.number ⊆ chip.numbers := by
    intro number member
    obtain ⟨call,listed,rfl⟩ := List.mem_map.mp member
    exact wiring.exists_ call listed
  have vectors := (List.subperm_of_subset (ids_distinct parsed keyed checked assigned) enabled).length_le
  have numbers := (List.subperm_of_subset wiring.distinct present).length_le
  simp only [List.length_map] at vectors numbers
  exact Nat.le_trans vectors numbers
end

theorem wired_iff {chip : Chip} {app : App} {analysis : Analysis} (keyed : app.Keyed)
    (accepted : Accepted chip app analysis) :
    ∃ codegen dispatchers, analyze analysis app = some codegen ∧ asyncDispatchers app codegen = some dispatchers ∧
      (Wired chip app codegen dispatchers ↔
        (nonzeroPriorities app).length+app.hardwareTasks.length ≤ chip.numbers.length) := by
  have enough := enough_of_supported accepted.supported
  obtain ⟨codegen,result,rfl,assigned⟩ := analyze_some analysis accepted.parsed enough
  have channeled : codegen.parent.channels = channels app := Syntax.Analyze.app_channels accepted.analyzed
  refine ⟨codegen,_,result,asyncDispatchers_some accepted.parsed enough assigned channeled,?_⟩
  rw [← ids_length enough assigned]
  exact ⟨fits_of_wired accepted.parsed keyed accepted.checked enough assigned,
    wired_of_fits accepted.parsed keyed accepted.checked enough assigned⟩

def doorbell : App :=
  ⟨["FROM_CPU_INTR0","FROM_CPU_INTR1"],⟨"init",[]⟩,none,[],[],[("uart",⟨"UART0",2,[],[]⟩),("button",⟨"GPIO",3,[],[]⟩)],
    [("blink",⟨1,[],[],false,[]⟩),("log",⟨0,[],[],false,[]⟩)]⟩

theorem doorbell_wired : ∃ codegen dispatchers,
    analyze ⟨channels doorbell,[],[],[],[],[]⟩ doorbell = some codegen ∧ asyncDispatchers doorbell codegen = some dispatchers ∧
      Wired .c6 doorbell codegen dispatchers := by
  have accepted : Accepted .c6 doorbell ⟨channels doorbell,[],[],[],[],[]⟩ :=
    ⟨by constructor <;> decide,by decide,by decide,by decide,by decide⟩
  obtain ⟨codegen,dispatchers,result,dispatched,wired⟩ := wired_iff (by constructor <;> decide) accepted
  exact ⟨codegen,dispatchers,result,dispatched,wired.mpr (by decide)⟩

-- One hardware task more than the C6 has numbers to give away.
def crowded : App :=
  ⟨[],⟨"init",[]⟩,none,[],[],["UART0","UART1","GPIO","LEDC","RMT","I2S0","UHCI0","PCNT","MCPWM0","AES","SHA","RSA","ECC"].map
    (fun binds => ("on_"++binds,⟨binds,1,[],[]⟩)),[]⟩

-- The last task is neither enabled nor exported, and nothing rejects the application.
theorem crowded_unwired : crowded.Keyed ∧ Accepted .c6 crowded ⟨[],[],[],[],[],[]⟩ ∧
    analyze ⟨[],[],[],[],[],[]⟩ crowded = some ⟨⟨[],[],[],[],[],[]⟩,[],some 0⟩ ∧
    asyncDispatchers crowded ⟨⟨[],[],[],[],[],[]⟩,[],some 0⟩ = some [] ∧
    handlerConfig .c6 crowded ⟨⟨[],[],[],[],[],[]⟩,[],some 0⟩ "ECC" = some [] ∧
    ¬Wired .c6 crowded ⟨⟨[],[],[],[],[],[]⟩,[],some 0⟩ [] := by
  have unexported : handlerConfig .c6 crowded ⟨⟨[],[],[],[],[],[]⟩,[],some 0⟩ "ECC" = some [] := by decide
  refine ⟨by constructor <;> decide,⟨by constructor <;> decide,by decide,by decide,by decide,by decide⟩,by decide,
    by decide,unexported,?_⟩
  rintro ⟨calls,_,wiring⟩
  obtain ⟨number,_,exported⟩ := wiring.exported 1 "ECC" (by decide)
  rw [unexported] at exported
  cases exported

end Rtic.Export.Esp32
