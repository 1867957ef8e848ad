import Rtic.Codegen.Program
import Rtic.Export.Ceilings
namespace Rtic.Export.CortexBasepri
open Transition Syntax Codegen
open Syntax.Analyze (Analysis)

-- The arithmetic is on `u8`: a shift by 8 and a difference below 0 panic, and
-- the left shift drops what leaves the byte.
def cortexLogical2hw (logical nvicPrioBits : Nat) : Option Nat :=
  if nvicPrioBits = 0 ∨ 8 ≤ nvicPrioBits ∨ 2^nvicPrioBits < logical then none
  else some ((2^nvicPrioBits-logical)*2^(8-nvicPrioBits)%256)

-- basepri_max::write takes effect only where it masks more.
def basepriMax (current new : Nat) : Nat := if new ≠ 0 ∧ (current = 0 ∨ new < current) then new else current

def backend (nvicPrioBits : Nat) : Backend Nat :=
  ⟨0,0,2^nvicPrioBits,fun ceiling current => (cortexLogical2hw ceiling nvicPrioBits).map (basepriMax current),
    fun basepri priority => ((cortexLogical2hw priority nvicPrioBits).map
      fun hw => decide (basepri = 0 ∨ hw < basepri)).getD false⟩

def isException (name : Ident) : Bool :=
  ["MemoryManagement","BusFault","UsageFault","SecureFault","SVCall","DebugMonitor","PendSV","SysTick"].contains name

def reservedDispatcher (name : Ident) : Option Error :=
  if ["NonMaskableInt","HardFault","MemoryManagement","BusFault","UsageFault","SecureFault","SVCall","DebugMonitor",
      "PendSV","SysTick"].contains name then
    some ⟨name,"Cortex-M exceptions can't be used as `extern` interrupts"⟩
  else none

def fixedPriority (task : Ident × HardwareTask) : Option Error :=
  if ["NonMaskableInt","HardFault"].contains task.2.binds then
    some ⟨task.1,"only exceptions with configurable priority can be used as hardware tasks"⟩
  else none

def architectureSpecificAnalysis (app : App) : Except Error Unit :=
  match app.dispatchers.findSome? reservedDispatcher with
  | some error => .error error
  | none => match enoughDispatchers app with
    | .error error => .error error
    | .ok () => match app.hardwareTasks.findSome? fixedPriority with
      | some error => .error error
      | none => .ok ()

-- Exceptions are set up after the interrupts.
def enabledVectors (app : App) : List Vector :=
  dispatcherVectors app++(hardwareVectors app).filter (fun vector => !isException vector.name)++
    (hardwareVectors app).filter fun vector => isException vector.name

def unsupportedPriority (nvicPrioBits : Nat) (vector : Vector) : Option String :=
  if 2^nvicPrioBits < vector.priority then
    some ("Maximum priority used by interrupt vector '"++vector.name++"' is more than supported by hardware")
  else none

-- pre_init_enable_interrupts gives every vector its hardware priority.
def setPriorities (nvicPrioBits : Nat) (app : App) : Option (List Nat) :=
  (enabledVectors app).mapM fun vector => cortexLogical2hw vector.priority nvicPrioBits

structure Accepted (nvicPrioBits : Nat) (app : App) (analysis : Analysis) : Prop where
  parsed : app.Parsed
  checked : Check.app app = .ok ()
  analyzed : Analyze.app app = .ok analysis
  supported : architectureSpecificAnalysis app = .ok ()
  asserted : (enabledVectors app).findSome? (unsupportedPriority nvicPrioBits) = none
  started : (setPriorities nvicPrioBits app).isSome

abbrev generated (app : App) (analysis : Analysis) : Program Handler Task Ident :=
  program app analysis (enabledVectors app)

theorem supported_parts {app : App} (supported : architectureSpecificAnalysis app = .ok ()) :
    (∀ name ∈ app.dispatchers, reservedDispatcher name = none) ∧ enoughDispatchers app = .ok () := by
  unfold architectureSpecificAnalysis at supported
  split at supported
  · cases supported
  · rename_i ordinary
    split at supported
    · cases supported
    · rename_i enough
      exact ⟨List.findSome?_eq_none_iff.mp ordinary,enough⟩

theorem reserved_exceptions {name : Ident} (exception : isException name = true) :
    reservedDispatcher name ≠ none := by
  unfold reservedDispatcher
  unfold isException at exception
  rw [if_pos]
  · exact Option.some_ne_none _
  · simp only [List.contains_eq_mem,List.mem_cons,List.not_mem_nil,decide_eq_true_eq] at exception ⊢
    tauto

theorem enabled_known (app : App) : enabledVectors app ⊆ vectors app := by
  intro vector member
  rcases List.mem_append.mp member with member | member
  · rcases List.mem_append.mp member with member | member
    · exact List.mem_append_left _ member
    · exact List.mem_append_right _ (List.mem_filter.mp member).1
  · exact List.mem_append_right _ (List.mem_filter.mp member).1

theorem hardware_enabled {app : App} {name : Ident} {task : HardwareTask} (listed : (name,task) ∈ app.hardwareTasks) :
    ⟨task.priority,task.binds,.hardware name⟩ ∈ enabledVectors app := by
  have member : (⟨task.priority,task.binds,.hardware name⟩ : Codegen.Vector) ∈ hardwareVectors app :=
    List.mem_map.mpr ⟨_,listed,rfl⟩
  cases exception : isException task.binds with
  | true => exact List.mem_append_right _ (List.mem_filter.mpr ⟨member,exception⟩)
  | false =>
    exact List.mem_append_left _ (List.mem_append_right _ (List.mem_filter.mpr ⟨member,by simp [exception]⟩))

section
variable {bits logical hw : Nat}

theorem hw_range (converted : cortexLogical2hw logical bits = some hw) :
    0 < bits ∧ bits < 8 ∧ logical ≤ 2^bits ∧ hw = (2^bits-logical)*2^(8-bits)%256 := by
  unfold cortexLogical2hw at converted
  split at converted
  · cases converted
  · cases converted
    omega

theorem levels_steps (small : bits < 8) : 2^bits*2^(8-bits) = 256 := by
  rw [← Nat.pow_add,Nat.add_sub_cancel' (Nat.le_of_lt small)]

-- Above level 0 the conversion loses nothing.
theorem hw_eq (converted : cortexLogical2hw logical bits = some hw) (positive : 0 < logical) :
    hw = (2^bits-logical)*2^(8-bits) := by
  obtain ⟨_,small,_,rfl⟩ := hw_range converted
  refine Nat.mod_eq_of_lt ?_
  have steps := levels_steps small
  have step : 0 < 2^(8-bits) := Nat.two_pow_pos _
  have some_ : 0 < 2^bits := Nat.two_pow_pos _
  calc (2^bits-logical)*2^(8-bits) < 2^bits*2^(8-bits) :=
        Nat.mul_lt_mul_of_pos_right (Nat.sub_lt some_ positive) step
    _ = 256 := steps

theorem hw_zero (converted : cortexLogical2hw 0 bits = some hw) : hw = 0 := by
  obtain ⟨_,small,_,rfl⟩ := hw_range converted
  rw [Nat.sub_zero,levels_steps small]

-- A higher logical priority is a lower number in hardware.
theorem hw_lt {logical' hw' : Nat} (converted : cortexLogical2hw logical bits = some hw)
    (converted' : cortexLogical2hw logical' bits = some hw') (positive : 0 < logical) (higher : logical < logical') :
    hw' < hw := by
  have bound := (hw_range converted').2.2.1
  rw [hw_eq converted positive,hw_eq converted' (by omega)]
  exact Nat.mul_lt_mul_of_pos_right (by omega) (Nat.two_pow_pos _)

theorem hw_pos (converted : cortexLogical2hw logical bits = some hw) (positive : 0 < logical)
    (lower : logical < 2^bits) : 0 < hw := by
  rw [hw_eq converted positive]
  exact Nat.mul_pos (by omega) (Nat.two_pow_pos _)
end

-- BASEPRI 0 masks nothing, other values hold back what is not below them.
def denotes (bits : Nat) (basepri level : Nat) : Prop :=
  (level = 0 ∧ basepri = 0) ∨ (0 < level ∧ level < 2^bits ∧ cortexLogical2hw level bits = some basepri)

theorem denotes_functional {bits reg reg' level : Nat} (left : denotes bits reg level) (right : denotes bits reg' level) :
    reg = reg' := by
  rcases left with ⟨zero,rfl⟩ | ⟨positive,_,hw⟩
  · rcases right with ⟨_,rfl⟩ | ⟨positive,_,_⟩
    · rfl
    · omega
  · rcases right with ⟨zero,_⟩ | ⟨_,_,hw'⟩
    · omega
    · rw [hw] at hw'
      exact Option.some.inj hw'

theorem delivers_some {bits basepri priority : Nat} (delivered : (backend bits).delivers basepri priority = true) :
    ∃ hw, cortexLogical2hw priority bits = some hw ∧ (basepri = 0 ∨ hw < basepri) := by
  simp only [backend] at delivered
  cases converted : cortexLogical2hw priority bits with
  | none => simp [converted] at delivered
  | some hw => exact ⟨hw,rfl,by simpa [converted] using delivered⟩

theorem delivers_of {bits basepri priority hw : Nat} (converted : cortexLogical2hw priority bits = some hw)
    (free : basepri = 0 ∨ hw < basepri) : (backend bits).delivers basepri priority = true := by
  simpa [backend,converted] using free

theorem basepriMax_level {bits reg level ceiling new : Nat} (denoted : denotes bits reg level)
    (converted : cortexLogical2hw ceiling bits = some new) (lower : ceiling < 2^bits) :
    denotes bits (basepriMax reg new) (max level ceiling) := by
  unfold basepriMax
  rcases Nat.eq_zero_or_pos ceiling with rfl | some_
  · rw [if_neg (by simp [hw_zero converted]),Nat.max_zero]
    exact denoted
  · have positive := hw_pos converted some_ lower
    have ceiled : denotes bits new ceiling := Or.inr ⟨some_,lower,converted⟩
    rcases denoted with ⟨rfl,rfl⟩ | ⟨leveled,bound,hw⟩
    · rw [if_pos (by omega),Nat.zero_max]
      exact ceiled
    · have masking := hw_pos hw leveled bound
      by_cases raises : level < ceiling
      · have less := hw_lt hw converted leveled raises
        rw [if_pos (by omega),Nat.max_eq_right (Nat.le_of_lt raises)]
        exact ceiled
      · have more : reg ≤ new := by
          rcases Nat.eq_or_lt_of_le (Nat.le_of_not_lt raises) with rfl | above
          · rw [hw] at converted
            cases converted
            exact Nat.le_refl _
          · exact Nat.le_of_lt (hw_lt converted hw some_ above)
        rw [if_neg (by omega),Nat.max_eq_left (Nat.le_of_not_lt raises)]
        exact Or.inr ⟨leveled,bound,hw⟩

theorem encodes (bits : Nat) : Encodes (backend bits) (denotes bits) True (fun _ => True) := by
  constructor
  case reset => exact Or.inl ⟨rfl,rfl⟩
  case unmasked => exact Or.inl ⟨rfl,rfl⟩
  case blocks =>
    intro basepri level priority denoted positive delivered
    obtain ⟨hw,converted,masked⟩ := delivers_some delivered
    rcases denoted with ⟨rfl,_⟩ | ⟨leveled,bound,hw'⟩
    · exact positive
    · have masking := hw_pos hw' leveled bound
      by_contra low
      rcases Nat.eq_or_lt_of_le (Nat.le_of_not_lt low) with rfl | below
      · rw [hw'] at converted
        cases converted
        omega
      · have more := hw_lt converted hw' positive below
        omega
  case raise =>
    intro basepri level ceiling written denoted _ lower raised
    obtain ⟨new,converted,rfl⟩ := Option.map_eq_some_iff.mp raised
    have fits := (hw_range converted).2.2.1
    have apart : ceiling ≠ 2^bits := lower
    exact basepriMax_level denoted converted (by omega)

theorem mapM_some {α β : Type} {f : α → Option β} {items : List α} {images : List β}
    (mapped : items.mapM f = some images) {item : α} (member : item ∈ items) :
    ∃ image, f item = some image ∧ image ∈ images := by
  induction items generalizing images with
  | nil => cases member
  | cons first rest ih =>
    rw [List.mapM_cons] at mapped
    obtain ⟨image,here,tail⟩ := Option.bind_eq_some_iff.mp mapped
    obtain ⟨others,there,same⟩ := Option.bind_eq_some_iff.mp tail
    cases same
    rcases List.mem_cons.mp member with rfl | member
    · exact ⟨image,here,List.mem_cons_self⟩
    · obtain ⟨found,maps,listed⟩ := ih there member
      exact ⟨found,maps,List.mem_cons_of_mem _ listed⟩

section
variable {bits : Nat} {app : App} {analysis : Analysis} (accepted : Accepted bits app analysis)
include accepted

theorem interrupt_range {handler : Handler} {priority : Nat}
    (interrupt : (generated app analysis).interrupt handler priority) :
    0 < priority ∧ ∃ hw, cortexLogical2hw priority bits = some hw := by
  obtain ⟨vector,member,_,rfl⟩ := interrupt
  constructor
  · rcases List.mem_append.mp (enabled_known app member) with member | member
    · obtain ⟨entry,assigned,rfl⟩ := List.mem_map.mp member
      have zipped := List.of_mem_zip (List.mem_reverse.mp assigned)
      have level := List.mem_reverse.mp zipped.1
      simpa using (List.mem_filter.mp level).2
    · obtain ⟨task,listed,rfl⟩ := List.mem_map.mp member
      exact (accepted.parsed.hardware task listed).1
  · obtain ⟨hws,set⟩ := Option.isSome_iff_exists.mp accepted.started
    obtain ⟨hw,converted,_⟩ := mapM_some set member
    exact ⟨hw,converted⟩

theorem accepted_step {s : State Handler Task Ident Nat} {e : Event Handler Task Ident} {t : State Handler Task Ident Nat}
    (sound : Sound (generated app analysis) (denotes bits) (backend bits).sectionCeiling s)
    (taken : Step (backend bits) (generated app analysis) s e t) :
    Sound (generated app analysis) (denotes bits) (backend bits).sectionCeiling t :=
  step_sound (encodes bits) (program_covered accepted.parsed accepted.analyzed (enabled_known app)) sound taken
    (Or.inl True.intro)

theorem sound_prompt {s : State Handler Task Ident Nat} {evs : List (Event Handler Task Ident)}
    (sound : Sound (generated app analysis) (denotes bits) (backend bits).sectionCeiling s) :
    Prompt (backend bits) (generated app analysis) evs s := by
  refine sound.prompt ?_ ?_ ?_
  · intro handler priority interrupt
    obtain ⟨hw,converted⟩ := (interrupt_range accepted interrupt).2
    exact (hw_range converted).2.2.1
  · exact fun handler priority interrupt => (interrupt_range accepted interrupt).1
  · intro basepri level handler priority denoted interrupt above
    obtain ⟨hw,converted⟩ := (interrupt_range accepted interrupt).2
    refine delivers_of converted ?_
    rcases denoted with ⟨_,zero⟩ | ⟨leveled,_,hw'⟩
    · exact Or.inl zero
    · exact Or.inr (hw_lt hw' converted leveled above)

theorem stack_resource_policy {s : State Handler Task Ident Nat} (run : Run (backend bits) (generated app analysis) s) :
    run.Through Exclusive ∧ run.Through (Prompt (backend bits) (generated app analysis)) ∧ run.Every Restores := by
  let inv (_ : List (Event Handler Task Ident)) (s : State Handler Task Ident Nat) :=
    Sound (generated app analysis) (denotes bits) (backend bits).sectionCeiling s
  have base : inv [] (initial (backend bits) (generated app analysis)) := initial_sound (encodes bits)
  refine ⟨?_,?_,?_⟩
  · exact run.through_of inv base (fun sound taken _ => accepted_step accepted sound taken)
      (fun sound => sound.exclusive) run.every_true
  · exact run.through_of inv base (fun sound taken _ => accepted_step accepted sound taken)
      (fun sound => sound_prompt accepted sound) run.every_true
  · exact run.every inv base (fun sound taken => accepted_step accepted sound taken)
      fun sound taken => sound.restores (accepted_step accepted sound taken) taken denotes_functional
end

def maximal : App :=
  ⟨[],⟨"init",[]⟩,none,[("a",⟨"u32",false⟩),("b",⟨"u32",false⟩)],[],
    [("low",⟨"SysTick",1,[],[("a",.exclusive),("b",.exclusive)]⟩),("mid",⟨"UART0",2,[],[("b",.exclusive)]⟩),
      ("high",⟨"UART1",8,[],[("a",.exclusive)]⟩)],[]⟩

def maximalAnalysis : Analysis :=
  ⟨[],["a","b"],[],[("a",.contended 8),("b",.contended 2)],["u32"],[]⟩

theorem maximal_accepted : Accepted 3 maximal maximalAnalysis :=
  ⟨⟨by decide,by decide,by decide,by decide,by decide,by decide⟩,by decide,by decide,by decide,by decide,by decide⟩

-- The low task locks b, and inside it a with a critical section, and returns.
def maximalRun :=
  ((((((((((Transition.Run.start : Run (backend 3) (generated maximal maximalAnalysis) _).snoc
    (.preempted (.hardware "low") 1)
      (.preempted rfl ⟨⟨1,"SysTick",.hardware "low"⟩,by decide,rfl,rfl⟩ (by decide) rfl rfl)).snoc
    .began (.began rfl rfl)).snoc
    (.called (.hardware "low")) (.called rfl rfl rfl (.hardware "low"))).snoc
    (.reading "b") (.reading rfl rfl rfl
      ⟨_,_,⟨"u32",false⟩,.hardware List.mem_cons_self,by decide,by decide,rfl⟩ (by decide))).snoc
    (.raised "b") (.raised rfl rfl rfl)).snoc
    (.disabled "a") (.disabled rfl rfl rfl
      ⟨_,_,⟨"u32",false⟩,.hardware List.mem_cons_self,by decide,by decide,rfl⟩ (by decide))).snoc
    _ (.unlocked rfl rfl rfl)).snoc
    _ (.unlocked rfl rfl rfl)).snoc
    .finished (.finished rfl (List.cons_ne_nil _ _) rfl rfl)).snoc
    .returned (.returned rfl rfl)

theorem stack_resource_policy_maximal : maximalRun.Through Exclusive ∧
    maximalRun.Through (Prompt (backend 3) (generated maximal maximalAnalysis)) ∧ maximalRun.Every Restores :=
  stack_resource_policy maximal_accepted maximalRun

end Rtic.Export.CortexBasepri
