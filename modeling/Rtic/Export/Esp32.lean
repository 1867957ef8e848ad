import Rtic.Codegen.Program
import Rtic.Export.Ceilings
namespace Rtic.Export.Esp32
open Transition Syntax Codegen
open Syntax.Analyze (Analysis)

inductive Chip where
  | c3
  | c6
  deriving DecidableEq, Repr

-- ceiling + 1 of a u8: past 255 a build with overflow checks panics, one without them wraps.
def raisedThreshold (overflowChecks : Bool) (ceiling : Nat) : Option Nat :=
  if ceiling+1 < 256 then some (ceiling+1)
  else if overflowChecks then none
  else some ((ceiling+1)%256)

-- An interrupt gets in if its priority is at least the threshold, so `lock`
-- writes one more than its ceiling, whatever the threshold was.
def backend (overflowChecks : Bool) : Backend Nat :=
  ⟨0,1,15,fun ceiling _ => raisedThreshold overflowChecks ceiling,
    fun threshold priority => decide (threshold ≤ priority)⟩

def supportedDispatcher (name : Ident) : Option Error :=
  if name = "FROM_CPU_INTR0" ∨ name = "FROM_CPU_INTR1" ∨ name = "FROM_CPU_INTR2" ∨ name = "FROM_CPU_INTR3" then none
  else some ⟨name,"Only FROM_CPU_INTRX are supported as dispatchers"⟩

def architectureSpecificAnalysis (app : App) : Except Error Unit :=
  match app.dispatchers.findSome? supportedDispatcher with
  | some error => .error error
  | none => enoughDispatchers app

-- The C6 has twelve CPU interrupts to give away, further vectors stay disabled.
def enabledVectors (chip : Chip) (app : App) : List Vector :=
  match chip with
  | .c3 => vectors app
  | .c6 => (vectors app).take 12

-- The compile-time assertions of pre_init_enable_interrupts.
def unsupportedPriority (vector : Vector) : Option String :=
  if 15 ≤ vector.priority then
    some ("Maximum priority used by interrupt vector '"++vector.name++"' is more than supported by hardware")
  else if vector.priority < 1 then
    some ("Priority "++toString vector.priority++" used by interrupt vector '"++vector.name++
      "' is less than supported by hardware")
  else none

structure Accepted (chip : Chip) (app : App) (analysis : Analysis) : Prop where
  parsed : app.Parsed
  checked : Check.app app = .ok ()
  analyzed : Analyze.app app = .ok analysis
  supported : architectureSpecificAnalysis app = .ok ()
  asserted : (enabledVectors chip app).findSome? unsupportedPriority = none

abbrev generated (chip : Chip) (app : App) (analysis : Analysis) : Program Handler Task Ident :=
  program app analysis (enabledVectors chip app)

theorem enough_of_supported {app : App} (supported : architectureSpecificAnalysis app = .ok ()) :
    enoughDispatchers app = .ok () := by
  unfold architectureSpecificAnalysis at supported
  split at supported
  · cases supported
  · exact supported

theorem enabled_known (chip : Chip) (app : App) : enabledVectors chip app ⊆ vectors app := by
  cases chip with
  | c3 => exact fun _ member => member
  | c6 => exact List.take_subset 12 _

-- Priority 1 writes 1 back, which lets through what 0 lets through.
def denotes (threshold level : Nat) : Prop := max threshold 1 = level+1

abbrev Fits (ceiling : Nat) : Prop := ceiling < 255

theorem threshold_fits {overflowChecks : Bool} {ceiling register written : Nat}
    (wrote : (backend overflowChecks).raise ceiling register = some written) (fits : Fits ceiling) :
    written = ceiling+1 := by
  have raised : raisedThreshold overflowChecks ceiling = some (ceiling+1) := if_pos (Nat.succ_lt_succ fits)
  exact (Option.some.inj (raised.symm.trans wrote)).symm

-- A threshold that has wrapped lets the highest priority in.
theorem threshold_wraps {overflowChecks : Bool} {ceiling register written : Nat}
    (wrote : (backend overflowChecks).raise ceiling register = some written) (wraps : ¬Fits ceiling) :
    written ≤ 255 ∧ 255 ≤ ceiling := by
  simp only [backend,raisedThreshold] at wrote
  unfold Fits at wraps
  rw [if_neg (by omega)] at wrote
  cases overflowChecks with
  | true => cases wrote
  | false =>
    cases wrote
    omega

theorem encodes (overflowChecks : Bool) : Encodes (backend overflowChecks) denotes False Fits := by
  constructor
  case reset => rfl
  case unmasked => rfl
  case blocks =>
    intro threshold level priority denoted positive delivered
    have reached : threshold ≤ priority := by simpa [backend] using delivered
    unfold denotes at denoted
    omega
  case raise =>
    intro register level ceiling written denoted rising lower raised
    obtain ⟨fits,low⟩ := rising.resolve_left id
    have wrote := threshold_fits raised fits
    unfold denotes
    omega

-- A lock with a lower ceiling than one its task is inside lowers the threshold, and so does one that wraps.
theorem covers_rising {overflowChecks : Bool} {program : Program Handler Task Ident}
    {s t : State Handler Task Ident Nat} {e : Event Handler Task Ident} {evs evs' : List (Event Handler Task Ident)}
    (taken : Step (backend overflowChecks) program s e t) (covers : Covers (backend overflowChecks) program evs' t) :
    Nondecreasing Fits program evs s e t := by
  rintro r top below rfl running
  cases taken with
  | raised running' point written =>
    rw [running] at running'
    cases running'
    have fits : Fits (program.ceiling r) := by
      by_contra wraps
      obtain ⟨low,high⟩ := threshold_wraps written wraps
      have held := covers _ List.mem_cons_self _ List.mem_cons_self
      rw [if_neg nofun] at held
      have masked := held 255 (by decide) high
      simp only [backend,decide_eq_false_iff_not] at masked
      omega
    refine ⟨fits,fun lock inside writes => ?_⟩
    have wrote := threshold_fits written fits
    by_contra falls
    have held := covers _ List.mem_cons_self lock (List.mem_cons_of_mem _ inside)
    rw [if_neg (by simp [writes])] at held
    have masked := held _ (by omega) (Nat.le_refl _)
    simp only [backend,decide_eq_false_iff_not] at masked
    omega

theorem nondecreasing_of_covers {overflowChecks : Bool} {program : Program Handler Task Ident}
    {s : State Handler Task Ident Nat} (run : Run (backend overflowChecks) program s)
    (covers : run.Through (Covers (backend overflowChecks) program)) : run.Every (Nondecreasing Fits program) := by
  induction run with
  | start => exact True.intro
  | snoc prior event taken ih => exact ⟨ih covers.1,covers_rising taken covers.2⟩

theorem exclusive_covers_iff {overflowChecks : Bool} {chip : Chip} {app : App} {analysis : Analysis}
    (accepted : Accepted chip app analysis) {s : State Handler Task Ident Nat}
    (run : Run (backend overflowChecks) (generated chip app analysis) s) :
    (run.Through Exclusive ∧ run.Through (Covers (backend overflowChecks) (generated chip app analysis))) ↔
      run.Every (Nondecreasing Fits (generated chip app analysis)) := by
  have covered := program_covered accepted.parsed accepted.analyzed (enabled_known chip app)
  have base : Sound (generated chip app analysis) denotes _ (initial (backend overflowChecks) _) :=
    initial_sound (encodes overflowChecks)
  have keeps := fun {evs s e t} (sound : Sound (generated chip app analysis) denotes (backend overflowChecks).sectionCeiling s)
      (taken : Step (backend overflowChecks) (generated chip app analysis) s e t)
      (admitted : Nondecreasing Fits (generated chip app analysis) evs s e t) =>
    step_sound (encodes overflowChecks) covered sound taken (Or.inr admitted)
  constructor
  · exact fun both => nondecreasing_of_covers run both.2
  · intro admitted
    constructor
    · exact run.through_of (fun _ s => Sound _ denotes (backend overflowChecks).sectionCeiling s) base keeps
        (fun sound => sound.exclusive) admitted
    · exact run.through_of (fun _ s => Sound _ denotes (backend overflowChecks).sectionCeiling s) base keeps
        (fun sound => sound.covers (encodes overflowChecks)) admitted

def nested : App :=
  ⟨["FROM_CPU_INTR0"],⟨"init",[]⟩,none,[("a",⟨"u32",false⟩),("b",⟨"u32",false⟩)],[],
    [("low",⟨"GPIO",1,[],[("a",.exclusive),("b",.exclusive)]⟩),("mid",⟨"UART0",2,[],[("b",.exclusive)]⟩),
      ("high",⟨"UART1",3,[],[("a",.exclusive)]⟩)],[]⟩

def nestedAnalysis : Analysis :=
  ⟨[],["a","b"],[],[("a",.contended 3),("b",.contended 2)],["u32"],[]⟩

theorem nested_accepted : Accepted .c3 nested nestedAnalysis :=
  ⟨⟨by decide,by decide,by decide,by decide,by decide,by decide⟩,by decide,by decide,by decide,by decide⟩

abbrev NestedRun := Run (backend false) (generated .c3 nested nestedAnalysis)

theorem low_interrupt : (generated .c3 nested nestedAnalysis).interrupt (.hardware "low") 1 :=
  ⟨⟨1,"GPIO",.hardware "low"⟩,by decide,rfl,rfl⟩
theorem high_interrupt : (generated .c3 nested nestedAnalysis).interrupt (.hardware "high") 3 :=
  ⟨⟨3,"UART1",.hardware "high"⟩,by decide,rfl,rfl⟩
theorem low_locks_a : (generated .c3 nested nestedAnalysis).locks (.hardware "low") "a" :=
  ⟨_,_,⟨"u32",false⟩,.hardware (List.mem_cons_self),by decide,by decide,rfl⟩
theorem low_locks_b : (generated .c3 nested nestedAnalysis).locks (.hardware "low") "b" :=
  ⟨_,_,⟨"u32",false⟩,.hardware (List.mem_cons_self),by decide,by decide,rfl⟩
theorem high_locks_a : (generated .c3 nested nestedAnalysis).locks (.hardware "high") "a" :=
  ⟨_,_,⟨"u32",false⟩,.hardware (List.mem_cons_of_mem _ (List.mem_cons_of_mem _ List.mem_cons_self)),by decide,by decide,rfl⟩

def lowRun :=
  (((Transition.Run.start : NestedRun _).snoc (.preempted (.hardware "low") 1)
      (.preempted rfl low_interrupt (by decide) rfl rfl)).snoc
    .began (.began rfl rfl)).snoc
    (.called (.hardware "low")) (.called rfl rfl rfl (.hardware "low"))

-- The lock on b inside the lock on a lets the high task in, which locks a.
def fallingRun :=
  (((((((((lowRun.snoc
    (.reading "a") (.reading rfl rfl rfl low_locks_a (by decide))).snoc
    (.raised "a") (.raised rfl rfl rfl)).snoc
    (.reading "b") (.reading rfl rfl rfl low_locks_b (by decide))).snoc
    (.raised "b") (.raised rfl rfl rfl)).snoc
    (.preempted (.hardware "high") 3) (.preempted rfl high_interrupt (by decide) rfl rfl)).snoc
    .began (.began rfl rfl)).snoc
    (.called (.hardware "high")) (.called rfl rfl rfl (.hardware "high"))).snoc
    (.reading "a") (.reading rfl rfl rfl high_locks_a (by decide))).snoc
    (.raised "a") (.raised rfl rfl rfl))

def risingRun :=
  ((((lowRun.snoc
    (.reading "b") (.reading rfl rfl rfl low_locks_b (by decide))).snoc
    (.raised "b") (.raised rfl rfl rfl)).snoc
    (.reading "a") (.reading rfl rfl rfl low_locks_a (by decide))).snoc
    (.raised "a") (.raised rfl rfl rfl))

theorem inner_lock_admits : Accepted .c3 nested nestedAnalysis ∧
    ∃ s, ∃ run : Run (backend false) (generated .c3 nested nestedAnalysis) s, ¬run.Through Exclusive := by
  refine ⟨nested_accepted,_,fallingRun,fun all => ?_⟩
  have apart := (List.pairwise_cons.mp all.last).1
  exact apart _ List.mem_cons_self "a" (by decide) (by decide)

theorem exclusive_covers_rising : risingRun.Through Exclusive ∧
    risingRun.Through (Covers (backend false) (generated .c3 nested nestedAnalysis)) := by
  refine (exclusive_covers_iff nested_accepted risingRun).mpr ?_
  simp only [risingRun,lowRun,Run.every_snoc,Run.every_start,Nondecreasing]
  simp
  decide

end Rtic.Export.Esp32
