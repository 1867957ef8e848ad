import Mathlib.Logic.Function.Basic
import Rtic.Library.Transition
import Rtic.Time.HalfPeriodCounter
namespace Rtic.Monotonics.HalfPeriodClock
open Function Transition Rtic.Time.HalfPeriodCounter

-- The two interrupt flags: the counter passed 0, and it passed the middle.
inductive Flag where
  | overflow
  | half
  deriving DecidableEq, Repr

-- The counter value at which the timer sets the flag.
def Flag.position (widths : Widths) : Flag → Nat
  | .overflow => 0
  | .half => widths.half

-- What `prev % 2` must be when the flag is counted.
def Flag.parity : Flag → Nat
  | .overflow => 1
  | .half => 0

inductive Backend where
  | stm32
  | nrfTimer
  | nrfRtc
  | imxrt
  deriving DecidableEq, Repr

-- The steps of on_interrupt. imxrt reads both flags at once, and clears a flag
-- after it has counted it; the others test one flag after the other and clear it first.
inductive Op where
  | test (flag : Flag)
  | read
  | clear (flag : Flag)
  | count (flag : Flag)
  deriving DecidableEq, Repr

def Backend.onInterrupt : Backend → List Op
  | .imxrt => [.read]
  | _ => [.test .overflow,.test .half]

def Backend.message : Backend → String
  | .stm32 => "Monotonic must have missed an interrupt!"
  | _ => "Monotonic must have skipped an interrupt!"

-- The assert! after fetch_add.
def Backend.assert (self : Backend) (flag : Flag) (prev : BitVec p) : Except String Unit :=
  if prev.toNat%2 = flag.parity then .ok () else .error self.message

-- What the handler does about a flag that it found set.
def Backend.handles (self : Backend) (flag : Flag) : List Op :=
  match self with
  | .imxrt => [.count flag,.clear flag]
  | _ => [.clear flag,.count flag]

def Backend.handlesIf (self : Backend) (flag : Flag) (set : Bool) : List Op := if set then self.handles flag else []

-- `time` is the true time, whose low bits are the counter. `handler` are the steps
-- that on_interrupt has yet to take, and `now` is the half-period count that a call
-- of `now` has read, in its critical section.
structure State (widths : Widths) where
  time : Nat
  flag : Flag → Bool
  halfPeriods : BitVec widths.halfPeriods
  handler : List Op
  now : Option (BitVec widths.halfPeriods)

inductive Event (widths : Widths) where
  | ticked
  | interrupted
  | tested (flag : Flag) (set : Bool)
  | flagsRead (overflow half : Bool)
  | cleared (flag : Flag)
  | counted (flag : Flag) (outcome : Except String Unit)
  | halfPeriodsRead
  | timerRead (halfPeriods : BitVec widths.halfPeriods) (result : Option (BitVec widths.result))

def raised (widths : Widths) (time : Nat) (flag : Flag) : Bool := decide (time%2^widths.timer = flag.position widths)

inductive Step (widths : Widths) (backend : Backend) : State widths → Event widths → State widths → Prop where
  | ticked : Step widths backend s .ticked
      {s with time := s.time+1,flag := fun flag => s.flag flag || raised widths (s.time+1) flag}
  -- may also come when no flag is set
  | interrupted (idle : s.handler = []) (open_ : s.now = none) :
      Step widths backend s .interrupted {s with handler := backend.onInterrupt}
  | tested (next : s.handler = .test flag::rest) (open_ : s.now = none) :
      Step widths backend s (.tested flag (s.flag flag))
        {s with handler := backend.handlesIf flag (s.flag flag)++rest}
  | flagsRead (next : s.handler = .read::rest) (open_ : s.now = none) :
      Step widths backend s (.flagsRead (s.flag .overflow) (s.flag .half))
        {s with handler := backend.handlesIf .overflow (s.flag .overflow)++
          backend.handlesIf .half (s.flag .half)++rest}
  | cleared (next : s.handler = .clear flag::rest) (open_ : s.now = none) :
      Step widths backend s (.cleared flag) {s with flag := update s.flag flag false,handler := rest}
  | counted (next : s.handler = .count flag::rest) (open_ : s.now = none) :
      Step widths backend s (.counted flag (backend.assert flag s.halfPeriods))
        {s with halfPeriods := s.halfPeriods+1,handler := rest}
  | halfPeriodsRead (open_ : s.now = none) :
      Step widths backend s .halfPeriodsRead {s with now := some s.halfPeriods}
  | timerRead (read : s.now = some halfPeriods) :
      Step widths backend s
        (.timerRead halfPeriods (calculateNow widths halfPeriods (BitVec.ofNat widths.timer s.time)))
        {s with now := none}

-- Started in sync: the half periods up to `start` are counted, and no flag is set.
def initial (widths : Widths) (start : Nat) : State widths :=
  ⟨start,fun _ => false,BitVec.ofNat widths.halfPeriods (start/widths.half),[],none⟩

abbrev Run (widths : Widths) (backend : Backend) (start : Nat) (s : State widths) :=
  Transition.Run (Step widths backend) (initial widths start) s

def Op.looks : Op → Bool
  | .test _ => true
  | .read => true
  | _ => false

-- A half period begins only when the flags of the one before it are handled.
def HandledInTime (widths : Widths) (_ : List (Event widths)) (s : State widths) : Event widths → State widths → Prop
  | .ticked,t => t.time%widths.half = 0 → (∀ flag, s.flag flag = false) ∧ ∀ op ∈ s.handler, op.looks = true
  | _,_ => True

-- The half periods can be counted in the width of their counter.
def CountFits (widths : Widths) (_ : List (Event widths)) (s : State widths) : Prop :=
  s.time/widths.half < 2^widths.halfPeriods

-- `now` returns the time at which it reads the timer, and neither its shift nor its
-- addition overflows.
def Exact (widths : Widths) (_ : List (Event widths)) (s : State widths) : Event widths → State widths → Prop
  | .timerRead halfPeriods result,_ => s.time < 2^widths.result →
    halfPeriods.toNat*widths.half < 2^widths.result ∧ ∃ value, result = some value ∧ value.toNat = s.time
  | _,_ => True

def NeverDecreases (widths : Widths) (evs : List (Event widths)) (s : State widths) : Event widths → State widths → Prop
  | .timerRead _ (some value),_ => s.time < 2^widths.result →
    ∀ halfPeriods earlier, .timerRead halfPeriods (some earlier) ∈ evs → earlier.toNat ≤ value.toNat
  | _,_ => True

def AssertionHolds (widths : Widths) (_ : List (Event widths)) (_ : State widths) : Event widths → State widths → Prop
  | .counted _ outcome,_ => outcome = .ok ()
  | _,_ => True

-- The flag that starts this half period.
def flagAt (halfPeriod : Nat) : Flag := if halfPeriod%2 = 1 then .half else .overflow

def unset : Flag → Bool := fun _ => false
def only (flag : Flag) : Flag → Bool := fun other => decide (other = flag)

-- How far on_interrupt is with the flag of the current half period, and by how many
-- half periods the count lags.
inductive Phase (flag : Flag) : (Flag → Bool) → List Op → Nat → Prop where
  | settled (looks : ∀ op ∈ ops, op.looks = true) : Phase flag unset ops 0
  | raised (looks : ∀ op ∈ ops, op.looks = true) : Phase flag (only flag) ops 1
  | clears (looks : ∀ op ∈ rest, op.looks = true) : Phase flag (only flag) (.clear flag::.count flag::rest) 1
  | cleared (looks : ∀ op ∈ rest, op.looks = true) : Phase flag unset (.count flag::rest) 1
  | counts (looks : ∀ op ∈ rest, op.looks = true) : Phase flag (only flag) (.count flag::.clear flag::rest) 1
  | counted (looks : ∀ op ∈ rest, op.looks = true) : Phase flag (only flag) (.clear flag::rest) 0

structure Sound (widths : Widths) (evs : List (Event widths)) (s : State widths) : Prop where
  count : ∃ lag, s.halfPeriods.toNat+lag = s.time/widths.half ∧ Phase (flagAt (s.time/widths.half)) s.flag s.handler lag
  now : ∀ halfPeriods, s.now = some halfPeriods → halfPeriods = s.halfPeriods
  past : ∀ halfPeriods value, .timerRead halfPeriods (some value) ∈ evs → value.toNat ≤ s.time

section
variable {widths : Widths} {backend : Backend} {evs : List (Event widths)} {s t : State widths} {e : Event widths}
  {flag : Flag} {flags : Flag → Bool} {ops : List Op} {lag : Nat}

theorem Phase.lag_le (phase : Phase flag flags ops lag) : lag ≤ 1 := by
  cases phase <;> decide

-- With no flag set and nothing left to clear or to count, nothing lags.
theorem Phase.settle (phase : Phase flag flags ops lag) (clear : ∀ other, flags other = false)
    (looks : ∀ op ∈ ops, op.looks = true) : lag = 0 ∧ flags = unset := by
  have set : ¬∀ other, only flag other = false := fun none_ => by simpa [only] using none_ flag
  cases phase with
  | settled => exact ⟨rfl,rfl⟩
  | cleared => cases looks _ List.mem_cons_self
  | raised => exact absurd clear set
  | clears => exact absurd clear set
  | counts => exact absurd clear set
  | counted => exact absurd clear set

theorem initial_sound {start : Nat} (fits : CountFits widths [] (initial widths start)) :
    Sound widths [] (initial widths start) := by
  refine ⟨⟨0,?_,.settled nofun⟩,nofun,nofun⟩
  exact (BitVec.toNat_ofNat _ _).trans (Nat.mod_eq_of_lt fits)

theorem half_double (widths : Widths) : 2^widths.timer = widths.half*2 := by
  have positive := widths.timer_pos
  rw [Widths.half,← Nat.pow_succ,Nat.succ_eq_add_one,Nat.sub_add_cancel positive]

theorem half_pos (widths : Widths) : 0 < widths.half := Nat.two_pow_pos _

-- A boundary raises the one flag of the half period that it starts.
theorem raised_boundary {time : Nat} (boundary : time%widths.half = 0) :
    raised widths time = only (flagAt (time/widths.half)) := by
  have positive := half_pos widths
  funext flag
  unfold raised only flagAt
  rw [half_double,Nat.mod_mul,boundary,Nat.zero_add]
  rcases Nat.mod_two_eq_zero_or_one (time/widths.half) with even | odd
  · rw [even]
    cases flag <;> simp [Flag.position]
    omega
  · rw [odd]
    cases flag <;> simp [Flag.position]
    omega

theorem raised_between {time : Nat} (between : time%widths.half ≠ 0) : raised widths time = unset := by
  have bound := Nat.mod_lt time (half_pos widths)
  funext flag
  unfold raised unset
  rw [half_double,Nat.mod_mul]
  rcases Nat.mod_two_eq_zero_or_one (time/widths.half) with even | odd
  · rw [even]
    cases flag <;> simp [Flag.position] <;> omega
  · rw [odd]
    cases flag <;> simp [Flag.position] <;> omega

theorem tick_sound (sound : Sound widths evs s)
    (guard : (s.time+1)%widths.half = 0 → (∀ flag, s.flag flag = false) ∧ ∀ op ∈ s.handler, op.looks = true) :
    ∃ lag, s.halfPeriods.toNat+lag = (s.time+1)/widths.half ∧ Phase (flagAt ((s.time+1)/widths.half))
      (fun flag => s.flag flag || raised widths (s.time+1) flag) s.handler lag := by
  obtain ⟨lag,count,phase⟩ := sound.count
  by_cases boundary : (s.time+1)%widths.half = 0
  · obtain ⟨clear,looks⟩ := guard boundary
    obtain ⟨rfl,none_⟩ := phase.settle clear looks
    refine ⟨1,?_,?_⟩
    · rw [Nat.succ_div_of_dvd (Nat.dvd_of_mod_eq_zero boundary)]
      omega
    · rw [none_,raised_boundary boundary]
      have flags : (fun flag => unset flag || only (flagAt ((s.time+1)/widths.half)) flag) =
          only (flagAt ((s.time+1)/widths.half)) := funext fun _ => Bool.false_or _
      rw [flags]
      exact .raised looks
  · refine ⟨lag,?_,?_⟩
    · rw [Nat.succ_div_of_not_dvd (mt Nat.mod_eq_zero_of_dvd boundary)]
      exact count
    · rw [Nat.succ_div_of_not_dvd (mt Nat.mod_eq_zero_of_dvd boundary),raised_between boundary]
      have flags : (fun flag => s.flag flag || unset flag) = s.flag := funext fun _ => Bool.or_false _
      rw [flags]
      exact phase

theorem looks_tail {op : Op} (looks : ∀ other ∈ op::ops, other.looks = true) : ∀ other ∈ ops, other.looks = true :=
  fun other member => looks other (List.mem_cons_of_mem _ member)

theorem Phase.handle (backend : Backend) (looks : ∀ op ∈ ops, op.looks = true) :
    Phase flag (only flag) (backend.handles flag++ops) 1 := by
  cases backend with
  | imxrt => exact .counts looks
  | _ => exact .clears looks

theorem onInterrupt_looks : ∀ op ∈ backend.onInterrupt, op.looks = true := by
  cases backend <;> decide

-- What on_interrupt makes of the flags that it reads.
theorem Phase.interrupt (phase : Phase flag flags [] lag) : Phase flag flags backend.onInterrupt lag := by
  cases phase with
  | settled => exact .settled onInterrupt_looks
  | raised => exact .raised onInterrupt_looks

theorem Phase.test {other : Flag} (phase : Phase flag flags (.test other::ops) lag) :
    Phase flag flags (backend.handlesIf other (flags other)++ops) lag := by
  cases phase with
  | settled looks => exact .settled (looks_tail looks)
  | raised looks =>
    by_cases same : other = flag
    · subst same
      simpa [only,Backend.handlesIf] using Phase.handle _ (looks_tail looks)
    · simpa [only,same,Backend.handlesIf] using Phase.raised (looks_tail looks)

theorem Phase.read (phase : Phase flag flags (.read::ops) lag) :
    Phase flag flags (backend.handlesIf .overflow (flags .overflow)++backend.handlesIf .half (flags .half)++ops) lag := by
  cases phase with
  | settled looks => exact .settled (looks_tail looks)
  | raised looks =>
    cases flag <;> simpa [only,Backend.handlesIf] using Phase.handle backend (looks_tail looks)

theorem Phase.clear {other : Flag} (phase : Phase flag flags (.clear other::ops) lag) :
    Phase flag (update flags other false) ops lag := by
  have unset_ : update (only flag) flag false = unset := by
    funext another
    by_cases same : another = flag <;> simp [update,only,unset,same]
  cases phase with
  | settled looks => cases looks _ List.mem_cons_self
  | raised looks => cases looks _ List.mem_cons_self
  | clears looks =>
    rw [unset_]
    exact .cleared looks
  | counted looks =>
    rw [unset_]
    exact .settled looks

theorem Phase.count {other : Flag} (phase : Phase flag flags (.count other::ops) lag) :
    other = flag ∧ lag = 1 ∧ Phase flag flags ops 0 := by
  cases phase with
  | settled looks => cases looks _ List.mem_cons_self
  | raised looks => cases looks _ List.mem_cons_self
  | cleared looks => exact ⟨rfl,rfl,.settled looks⟩
  | counts looks => exact ⟨rfl,rfl,.counted looks⟩

theorem Sound.near (sound : Sound widths evs s) {halfPeriods : BitVec widths.halfPeriods}
    (read : s.now = some halfPeriods) :
    s.time/widths.half = halfPeriods.toNat ∨ s.time/widths.half = halfPeriods.toNat+1 := by
  obtain ⟨lag,count,phase⟩ := sound.count
  rw [sound.now _ read,← count]
  have := phase.lag_le
  omega

theorem Sound.calculateNow (sound : Sound widths evs s) {halfPeriods : BitVec widths.halfPeriods}
    (read : s.now = some halfPeriods) (fits : s.time < 2^widths.result) :
    calculateNow widths halfPeriods (BitVec.ofNat widths.timer s.time) = some (BitVec.ofNat widths.result s.time) :=
  calculateNow_exact (sound.near read) (BitVec.toNat_ofNat _ _) fits

-- A result is never later than the time at which it was computed.
theorem Sound.result_le (sound : Sound widths evs s) {halfPeriods : BitVec widths.halfPeriods}
    (read : s.now = some halfPeriods) {value : BitVec widths.result}
    (result : Time.HalfPeriodCounter.calculateNow widths halfPeriods (BitVec.ofNat widths.timer s.time) = some value) :
    value.toNat ≤ s.time := by
  by_cases fits : s.time < 2^widths.result
  · rw [sound.calculateNow read fits] at result
    cases result
    rw [BitVec.toNat_ofNat]
    exact Nat.mod_le _ _
  · exact Nat.le_trans (Nat.le_of_lt value.isLt) (Nat.le_of_not_lt fits)

theorem Sound.keep (sound : Sound widths evs s) (silent : ∀ halfPeriods result, e ≠ .timerRead halfPeriods result)
    (time : s.time ≤ t.time)
    (count : ∃ lag, t.halfPeriods.toNat+lag = t.time/widths.half ∧ Phase (flagAt (t.time/widths.half)) t.flag t.handler lag)
    (now : ∀ halfPeriods, t.now = some halfPeriods → halfPeriods = t.halfPeriods) : Sound widths (evs++[e]) t := by
  refine ⟨count,now,fun halfPeriods value member => ?_⟩
  rcases List.mem_append.mp member with before | last
  · exact Nat.le_trans (sound.past halfPeriods value before) time
  · exact absurd (List.mem_singleton.mp last).symm (silent halfPeriods _)

theorem step_sound (sound : Sound widths evs s) (fits : CountFits widths evs s) (taken : Step widths backend s e t)
    (guard : HandledInTime widths evs s e t) : Sound widths (evs++[e]) t := by
  have open_ : ∀ {h}, s.now = none → s.now = some h → h = s.halfPeriods := fun none_ some_ => by
    rw [none_] at some_
    cases some_
  obtain ⟨lag,count,phase⟩ := sound.count
  cases taken with
  | ticked => exact sound.keep nofun (Nat.le_succ _) (tick_sound sound guard) sound.now
  | interrupted idle now =>
    rw [idle] at phase
    exact sound.keep nofun (Nat.le_refl _) ⟨lag,count,phase.interrupt⟩ sound.now
  | tested next now =>
    rw [next] at phase
    exact sound.keep nofun (Nat.le_refl _) ⟨lag,count,phase.test⟩ sound.now
  | flagsRead next now =>
    rw [next] at phase
    exact sound.keep nofun (Nat.le_refl _) ⟨lag,count,phase.read⟩ sound.now
  | cleared next now =>
    rw [next] at phase
    exact sound.keep nofun (Nat.le_refl _) ⟨lag,count,phase.clear⟩ sound.now
  | counted next now =>
    rw [next] at phase
    obtain ⟨_,rfl,after⟩ := phase.count
    have room : s.halfPeriods.toNat+1 < 2^widths.halfPeriods := by
      rw [count]
      exact fits
    have succ : (s.halfPeriods+1).toNat = s.halfPeriods.toNat+1 := by
      rw [BitVec.toNat_add,show BitVec.toNat 1 = 1%2^widths.halfPeriods from BitVec.toNat_ofNat 1 _,Nat.add_mod_mod,
        Nat.mod_eq_of_lt room]
    refine sound.keep nofun (Nat.le_refl _) ⟨0,succ.trans count,after⟩ fun halfPeriods read => ?_
    exact nomatch now.symm.trans read
  | halfPeriodsRead now =>
    exact sound.keep nofun (Nat.le_refl _) ⟨lag,count,phase⟩ fun _ read => (Option.some.inj read).symm
  | timerRead read =>
    refine ⟨⟨lag,count,phase⟩,nofun,fun halfPeriods value member => ?_⟩
    rcases List.mem_append.mp member with before | last
    · exact sound.past halfPeriods value before
    · have same := List.mem_singleton.mp last
      injection same with _ result
      exact sound.result_le read result.symm

theorem Sound.exact (sound : Sound widths evs s) (taken : Step widths backend s e t) : Exact widths evs s e t := by
  cases taken with
  | timerRead read =>
    intro fits
    refine ⟨shift_fits (sound.near read) fits,_,sound.calculateNow read fits,?_⟩
    rw [BitVec.toNat_ofNat,Nat.mod_eq_of_lt fits]
  | _ => exact True.intro

theorem Sound.neverDecreases (sound : Sound widths evs s) (taken : Step widths backend s e t) :
    NeverDecreases widths evs s e t := by
  cases taken with
  | timerRead read =>
    cases result : Time.HalfPeriodCounter.calculateNow widths _ (BitVec.ofNat widths.timer s.time) with
    | none => exact True.intro
    | some value =>
      intro fits halfPeriods earlier member
      rw [sound.calculateNow read fits] at result
      cases result
      rw [BitVec.toNat_ofNat,Nat.mod_eq_of_lt fits]
      exact sound.past halfPeriods earlier member
  | _ => exact True.intro

theorem Sound.assertionHolds (sound : Sound widths evs s) (taken : Step widths backend s e t) :
    AssertionHolds widths evs s e t := by
  cases taken with
  | counted next now =>
    obtain ⟨lag,count,phase⟩ := sound.count
    rw [next] at phase
    obtain ⟨rfl,rfl,_⟩ := phase.count
    refine if_pos ?_
    unfold flagAt
    rw [← count]
    split
    · change _ = 0
      omega
    · change _ = 1
      omega
  | _ => exact True.intro
end

-- In every run whose flags are handled in time: `now` is the true time, its results
-- never decrease, and no assertion of on_interrupt fails.
theorem now_exact (widths : Widths) (backend : Backend) (start : Nat) {s : State widths}
    (run : Run widths backend start s) (handled : run.Every (HandledInTime widths))
    (fits : run.Through (CountFits widths)) :
    run.Every (Exact widths) ∧ run.Every (NeverDecreases widths) ∧ run.Every (AssertionHolds widths) := by
  have base : Sound widths [] (initial widths start) := initial_sound fits.first
  have admitted := fits.before.and handled
  have preserved : ∀ {evs : List (Event widths)} {s e t}, Sound widths evs s → Step widths backend s e t →
      CountFits widths evs s ∧ HandledInTime widths evs s e t → Sound widths (evs++[e]) t :=
    fun sound taken guard => step_sound sound guard.1 taken guard.2
  refine ⟨?_,?_,?_⟩
  · exact run.every_of (Sound widths) base preserved (fun sound taken _ => sound.exact taken) admitted
  · exact run.every_of (Sound widths) base preserved (fun sound taken _ => sound.neverDecreases taken) admitted
  · exact run.every_of (Sound widths) base preserved (fun sound taken _ => sound.assertionHolds taken) admitted

def rtcWidths : Widths := ⟨24,32,64,by decide,by decide,by decide⟩

-- `now` reads the RTC after it passed the middle and before the interrupt, and again after it.
def passesHalf :=
  ((((((((((Transition.Run.start : Run rtcWidths .nrfRtc 0x7fffff _).snoc
    _ .ticked).snoc
    _ (.halfPeriodsRead rfl)).snoc
    _ (.timerRead rfl)).snoc
    _ (.interrupted rfl rfl)).snoc
    _ (.tested rfl rfl)).snoc
    _ (.tested rfl rfl)).snoc
    _ (.cleared rfl rfl)).snoc
    _ (.counted rfl rfl)).snoc
    _ (.halfPeriodsRead rfl)).snoc
    _ (.timerRead rfl)

theorem passesHalf_now_exact : passesHalf.Every (Exact rtcWidths) ∧ passesHalf.Every (NeverDecreases rtcWidths) ∧
    passesHalf.Every (AssertionHolds rtcWidths) := by
  refine now_exact rtcWidths .nrfRtc 0x7fffff passesHalf ?_ ?_
  · refine ⟨⟨⟨⟨⟨⟨⟨⟨⟨⟨True.intro,fun _ => ⟨fun _ => rfl,nofun⟩⟩,?_⟩,?_⟩,?_⟩,?_⟩,?_⟩,?_⟩,?_⟩,?_⟩,?_⟩
    all_goals exact True.intro
  · refine ⟨⟨⟨⟨⟨⟨⟨⟨⟨⟨(by decide : 0x7fffff/2^23 < 2^32),?_⟩,?_⟩,?_⟩,?_⟩,?_⟩,?_⟩,?_⟩,?_⟩,?_⟩,?_⟩
    all_goals exact (by decide : 0x800000/2^23 < 2^32)

end Rtic.Monotonics.HalfPeriodClock
