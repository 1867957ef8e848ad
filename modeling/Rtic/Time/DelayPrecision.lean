import Mathlib.Algebra.Order.Floor.Ring
import Mathlib.Data.Rat.Floor
import Mathlib.Tactic.Linarith
import Mathlib.Tactic.NormNum
import Rtic.Time.DelayFuture
namespace Rtic.Time.DelayFuture
open Rtic.Common TimerQueueTicks
variable {w : Nat} {S A R : Type} {backend : Backend w S} {pend : Queue w → S → Option (Queue w × S)}

-- The counter has to advance by so much: one tick more than was asked for, except where it was none.
def ticks (duration : BitVec w) : Int := if duration = 0 then 0 else duration.toNat+1

theorem wrap_add (n : Int) (duration : BitVec w) : wrap w n+duration = wrap w (n+duration.toNat) := by
  unfold wrap
  rw [BitVec.ofInt_add,BitVec.ofInt_natCast,BitVec.ofNat_toNat,BitVec.setWidth_eq]

-- The instant that is computed with wrapping additions is that of the true deadline.
theorem deadline_wrap (n : Int) (duration : BitVec w) :
    (if wrap w n ≠ wrap w n+duration then wrap w n+duration+1 else wrap w n+duration) = wrap w (n+ticks duration) := by
  unfold ticks
  by_cases zero : duration = 0
  · simp [zero]
  · have moved : wrap w n ≠ wrap w n+duration := by simpa using zero
    rw [if_pos moved,if_neg zero,wrap_add,← Int.add_assoc]
    unfold wrap
    rw [BitVec.ofInt_add (n+duration.toNat) 1]
    rfl

theorem ticks_bounds {duration : BitVec w} (short : duration.toNat+1 < 2^(w-1)) :
    0 ≤ ticks duration ∧ ticks duration < 2^(w-1) := by
  have small : (duration.toNat : Int)+1 < 2^(w-1) := by exact_mod_cast short
  unfold ticks
  split <;> omega

-- From the start until half the range after the deadline the comparison is that of the true times.
theorem isAtLeast_deadline {start now : Int} {duration : BitVec w} (short : duration.toNat+1 < 2^(w-1))
    (later : start ≤ now) (window : now < start+ticks duration+2^(w-1)) :
    isAtLeast (wrap w now) (wrap w (start+ticks duration)) = decide (ticks duration ≤ now-start) := by
  obtain ⟨_,small⟩ := ticks_bounds short
  have near : Near w now (start+ticks duration) := abs_lt.mpr ⟨by omega,by omega⟩
  rw [isAtLeast_wrap near]
  exact decide_eq_decide.mpr (by omega)

section
variable {fuel i : Nat} {waker : Waker} {queue queue' : Queue w} {s s' : S}

theorem Delay.poll_outcome {self self' : Delay w} {outcome : Poll Unit}
    (result : self.poll backend pend fuel i waker queue s = some (outcome,self',queue',s')) :
    outcome = (if isAtLeast (backend.now s).1 self.instant then .ready () else .pending) ∧ self'.instant = self.instant := by
  unfold Delay.poll at result
  dsimp only at result
  split at result
  · rename_i due
    cases result
    exact ⟨(if_pos due).symm,rfl⟩
  · rename_i early
    split at result
    · cases result
      exact ⟨(if_neg early).symm,rfl⟩
    · obtain ⟨⟨headUpdated,next,after⟩,inserted,result⟩ := Option.bind_eq_some_iff.mp result
      cases headUpdated with
      | false =>
        cases result
        exact ⟨(if_neg early).symm,rfl⟩
      | true =>
        obtain ⟨_,pended,result⟩ := Option.bind_eq_some_iff.mp result
        cases result
        exact ⟨(if_neg early).symm,rfl⟩

-- The future of a Timeout comes first: the deadline counts only while that one is pending.
def answered (due : Bool) : Poll A → Poll (Except TimeoutError A)
  | .ready v => .ready (.ok v)
  | .pending => if due then .ready (.error .timeoutError) else .pending

theorem Timeout.poll_outcome {self self' : Timeout w} {inner : Poll A} {outcome : Poll (Except TimeoutError A)}
    (result : self.poll backend pend fuel i waker inner queue s = some (outcome,self',queue',s')) :
    outcome = answered (isAtLeast (backend.now s).1 self.delay.instant) inner ∧
      self'.delay.instant = self.delay.instant := by
  cases inner with
  | ready v =>
    cases result
    exact ⟨rfl,rfl⟩
  | pending =>
    obtain ⟨⟨polled,delay,queue',after⟩,first,result⟩ := Option.bind_eq_some_iff.mp result
    obtain ⟨rfl,same⟩ := Delay.poll_outcome first
    unfold answered
    by_cases due : isAtLeast (backend.now s).1 self.delay.instant = true
    · simp only [due,if_true] at result ⊢
      cases result
      exact ⟨rfl,same⟩
    · simp only [due] at result ⊢
      cases result
      exact ⟨rfl,same⟩

-- A poll returns, where the pointers of the queue are in order and pend_interrupt returns.
def PollReturns (backend : Backend w S) (pend : Queue w → S → Option (Queue w × S)) : Prop :=
  ∀ (self : Delay w) queue l fuel i waker s, queue.Holds l → (self.linked = false → i ∉ l) → l.length ≤ fuel →
    (∀ queue s, ∃ result, pend queue s = some result) →
    ∃ result, self.poll backend pend fuel i waker queue s = some result

theorem Delay.poll_returns : PollReturns backend pend := by
  intro self queue l fuel i waker s holds out enough pends
  unfold Delay.poll
  dsimp only
  split
  · exact ⟨_,rfl⟩
  · split
    · exact ⟨_,rfl⟩
    · rename_i unlinked
      have out := out (eq_false_of_ne_true unlinked)
      have placed : (queue.place i ⟨waker,self.instant,false⟩).Holds l :=
        holds.outside out (fun j other => Function.update_of_ne other _ _) rfl
      have returned : ∃ result, (queue.place i ⟨waker,self.instant,false⟩).insert WaitingWaker.lt fuel i = some result :=
        LinkedList.insert_returns placed (Function.update_self ..) out enough
      obtain ⟨⟨headUpdated,next⟩,inserted⟩ := returned
      simp only [insert,inserted,Option.bind_eq_bind,Option.bind_some,Option.pure_def]
      cases headUpdated with
      | false => exact ⟨_,rfl⟩
      | true =>
        obtain ⟨⟨queue,s⟩,pended⟩ := pends next (backend.release (backend.acquire (backend.now s).2).1
          (backend.acquire (backend.now s).2).2)
        simp only [if_true,pended,Option.bind_some]
        exact ⟨_,rfl⟩

-- The same of a Timeout, whatever its future answers.
def TimeoutReturns (A : Type) (backend : Backend w S) (pend : Queue w → S → Option (Queue w × S)) : Prop :=
  ∀ (self : Timeout w) (inner : Poll A) queue l fuel i waker s, queue.Holds l → (self.delay.linked = false → i ∉ l) →
    l.length ≤ fuel → (∀ queue s, ∃ result, pend queue s = some result) →
    ∃ result, self.poll backend pend fuel i waker inner queue s = some result

theorem Timeout.poll_returns : TimeoutReturns A backend pend := by
  intro self inner queue l fuel i waker s holds out enough pends
  cases inner with
  | ready v => exact ⟨_,rfl⟩
  | pending =>
    obtain ⟨⟨polled,delay,queue',s'⟩,first⟩ := Delay.poll_returns self.delay queue l fuel i waker s holds out enough pends
    unfold Timeout.poll
    rw [first]
    cases polled with
    | ready => exact ⟨_,rfl⟩
    | pending => exact ⟨_,rfl⟩
end

-- Polls of one future in turn, with what each one finds and its outcome. Everything beside
-- the future may change from one to the next, the waker too.
inductive Polls (backend : Backend w S) (pend : Queue w → S → Option (Queue w × S)) (i : Nat) (first : Delay w) :
    List (S × Poll Unit) → Delay w → Prop where
  | none : Polls backend pend i first [] first
  | poll (prior : Polls backend pend i first polls self)
      (result : self.poll backend pend fuel i waker queue s = some (outcome,self',queue',s')) :
      Polls backend pend i first (polls++[(s,outcome)]) self'

inductive TimeoutPolls (backend : Backend w S) (pend : Queue w → S → Option (Queue w × S)) (i : Nat) (first : Timeout w) :
    List (S × Poll A × Poll (Except TimeoutError A)) → Timeout w → Prop where
  | none : TimeoutPolls backend pend i first [] first
  | poll {inner : Poll A} (prior : TimeoutPolls backend pend i first polls self)
      (result : self.poll backend pend fuel i waker inner queue s = some (outcome,self',queue',s')) :
      TimeoutPolls backend pend i first (polls++[(s,inner,outcome)]) self'

theorem Polls.outcome {i : Nat} {first last : Delay w} {polls : List (S × Poll Unit)}
    (history : Polls backend pend i first polls last) : last.instant = first.instant ∧ ∀ s outcome, (s,outcome) ∈ polls →
      outcome = if isAtLeast (backend.now s).1 first.instant then .ready () else .pending := by
  induction history with
  | none => exact ⟨rfl,nofun⟩
  | poll prior result ih =>
    obtain ⟨same,all⟩ := ih
    obtain ⟨polled,kept⟩ := Delay.poll_outcome result
    refine ⟨kept.trans same,fun s outcome member => ?_⟩
    rcases List.mem_append.mp member with before | last
    · exact all s outcome before
    · cases List.mem_singleton.mp last
      rw [← same]
      exact polled

theorem TimeoutPolls.outcome {i : Nat} {first last : Timeout w} {polls : List (S × Poll A × Poll (Except TimeoutError A))}
    (history : TimeoutPolls backend pend i first polls last) : last.delay.instant = first.delay.instant ∧
      ∀ s inner outcome, (s,inner,outcome) ∈ polls →
        outcome = answered (isAtLeast (backend.now s).1 first.delay.instant) inner := by
  induction history with
  | none => exact ⟨rfl,nofun⟩
  | poll prior result ih =>
    obtain ⟨same,all⟩ := ih
    obtain ⟨polled,kept⟩ := Timeout.poll_outcome result
    refine ⟨kept.trans same,fun s inner outcome member => ?_⟩
    rcases List.mem_append.mp member with before | last
    · exact all s inner outcome before
    · cases List.mem_singleton.mp last
      rw [← same]
      exact polled

-- True times are in periods of a tick, at any phase; the counter shows how many are full.
section
variable [Field R] [LinearOrder R] [IsStrictOrderedRing R] [FloorRing R]

def Shows (backend : Backend w S) (s : S) (time : R) : Prop := (backend.now s).1 = wrap w ⌊time⌋

theorem elapsed {start time : R} {duration : BitVec w} (later : start ≤ time) (due : ticks duration ≤ ⌊time⌋-⌊start⌋) :
    start+duration.toNat ≤ time := by
  unfold ticks at due
  split at due
  · rename_i zero
    simpa [zero] using later
  · have whole : ((⌊start⌋+duration.toNat+1 : Int) : R) ≤ (⌊time⌋ : Int) := by
      exact_mod_cast (by omega : ⌊start⌋+duration.toNat+1 ≤ ⌊time⌋)
    push_cast at whole
    have below := Int.lt_floor_add_one start
    have above := Int.floor_le time
    linarith

-- What a comparison decides, which is Pending where it is early.
theorem outcome_decided {B : Type} {early : Prop} [Decidable early] {outcome pending ended : B} (apart : pending ≠ ended)
    (polled : outcome = if (!decide early) = true then ended else pending) :
    outcome = (if early then pending else ended) ∧ (outcome = ended → ¬early) := by
  by_cases holds : early
  · simp only [holds,decide_true,Bool.not_true] at polled
    rw [if_pos holds]
    exact ⟨polled,fun ready => absurd (polled.symm.trans ready) apart⟩
  · simp only [holds,decide_false,Bool.not_false] at polled
    rw [if_neg holds]
    exact ⟨polled,fun _ => holds⟩

theorem delay_precise (backend : Backend w S) (pend : Queue w → S → Option (Queue w × S)) (start : R) (duration : BitVec w)
    (short : duration.toNat+1 < 2^(w-1)) (s : S) (shown : Shows backend s start) :
    (∃ made s', delay backend true duration s = some (made,s') ∧
      ∀ i polls last, Polls backend pend i made polls last → ∀ s outcome (time : R), (s,outcome) ∈ polls →
        Shows backend s time → start ≤ time → ⌊time⌋ < ⌊start⌋+ticks duration+2^(w-1) →
        outcome = (if ⌊time⌋-⌊start⌋ < ticks duration then .pending else .ready ()) ∧
          (outcome = .ready () → start+duration.toNat ≤ time)) ∧
    (∀ i (polls : List (S × Poll A × Poll (Except TimeoutError A))) last,
      TimeoutPolls backend pend i (timeoutAfter backend duration s).1 polls last →
      ∀ s inner outcome (time : R), (s,inner,outcome) ∈ polls →
        Shows backend s time → start ≤ time → ⌊time⌋ < ⌊start⌋+ticks duration+2^(w-1) →
        (∀ v, inner = .ready v → outcome = .ready (.ok v)) ∧
          (inner = .pending →
            outcome = (if ⌊time⌋-⌊start⌋ < ticks duration then .pending else .ready (.error .timeoutError)) ∧
              (outcome = .ready (.error .timeoutError) → start+duration.toNat ≤ time))) ∧
    PollReturns backend pend ∧ TimeoutReturns A backend pend := by
  have deadline := deadline_wrap (w:=w) ⌊start⌋ duration
  rw [← shown] at deadline
  -- Where the comparison says that it is time, the counter has advanced so far.
  have fires : ∀ (s : S) (time : R), Shows backend s time → start ≤ time → ⌊time⌋ < ⌊start⌋+ticks duration+2^(w-1) →
      isAtLeast (backend.now s).1 (wrap w (⌊start⌋+ticks duration)) = !decide (⌊time⌋-⌊start⌋ < ticks duration) := by
    intro s time shows later window
    rw [shows,isAtLeast_deadline short (Int.floor_le_floor later) window,← decide_not]
    exact decide_eq_decide.mpr Int.not_lt.symm
  refine ⟨?_,?_,Delay.poll_returns,Timeout.poll_returns⟩
  · refine ⟨⟨wrap w (⌊start⌋+ticks duration),false,0⟩,(backend.now s).2,?_,?_⟩
    · simp only [delay,delayUntil,deadline]
      rfl
    · intro i polls last history s outcome time member shows later window
      have polled := history.outcome.2 s outcome member
      rw [fires s time shows later window] at polled
      obtain ⟨decided,ended⟩ := outcome_decided (by simp) polled
      exact ⟨decided,fun ready => elapsed later (Int.not_lt.mp (ended ready))⟩
  · intro i polls last history s' inner outcome time member shows later window
    have polled := history.outcome.2 s' inner outcome member
    have instant : (timeoutAfter backend duration s).1.delay.instant = wrap w (⌊start⌋+ticks duration) := by
      simp only [timeoutAfter,timeoutAt,deadline]
    rw [instant,fires s' time shows later window] at polled
    refine ⟨?_,?_⟩
    · rintro v rfl
      exact polled
    · rintro rfl
      obtain ⟨decided,ended⟩ := outcome_decided (by simp) polled
      exact ⟨decided,fun ready => elapsed later (Int.not_lt.mp (ended ready))⟩
end

-- A clock that shows the state, and nothing else.
def clock (w : Nat) : Backend w (BitVec w) :=
  ⟨fun s => (s,s),fun _ s => s,id,id,id,id,fun s => (true,s),fun _ s => s,fun _ s => s⟩

theorem delay_precise_wrapped : (∃ made s', delay (clock 32) true 1 0xffffffff = some (made,s') ∧
      ∀ i polls last, Polls (clock 32) (fun queue s => some (queue,s)) i made polls last →
        ∀ outcome, ((0,outcome) ∈ polls → outcome = .pending) ∧ ((1,outcome) ∈ polls → outcome = .ready ())) ∧
    ∀ i (polls : List (BitVec 32 × Poll Bool × Poll (Except TimeoutError Bool))) last,
      TimeoutPolls (clock 32) (fun queue s => some (queue,s)) i (timeoutAfter (clock 32) 1 0xffffffff).1 polls last →
      ∀ outcome, ((0,.pending,outcome) ∈ polls → outcome = .pending) ∧
        ((1,.pending,outcome) ∈ polls → outcome = .ready (.error .timeoutError)) ∧
        ((1,.ready true,outcome) ∈ polls → outcome = .ready (.ok true)) := by
  have floors : ⌊(4294967295.5 : ℚ)⌋ = 4294967295 ∧ ⌊(4294967296.25 : ℚ)⌋ = 4294967296 ∧
      ⌊(4294967297.125 : ℚ)⌋ = 4294967297 := by
    refine ⟨?_,?_,?_⟩ <;> rw [Int.floor_eq_iff] <;> norm_num
  obtain ⟨start,before,after⟩ := floors
  have long : ticks (1 : BitVec 32) = 2 := rfl
  have shows : Shows (clock 32) 0 (4294967296.25 : ℚ) ∧ Shows (clock 32) 1 (4294967297.125 : ℚ) := by
    unfold Shows
    rw [before,after]
    exact ⟨rfl,rfl⟩
  have precise := delay_precise (A:=Bool) (clock 32) (fun queue s => some (queue,s)) (4294967295.5 : ℚ) 1 (by decide)
    0xffffffff (by unfold Shows; rw [start]; rfl)
  obtain ⟨⟨made,s',delayed,polled⟩,timed,_⟩ := precise
  refine ⟨⟨made,s',delayed,fun i polls last history outcome => ⟨fun member => ?_,fun member => ?_⟩⟩,
    fun i polls last history outcome => ⟨fun member => ?_,fun member => ?_,fun member => ?_⟩⟩
  · have early := polled i polls last history _ _ _ member shows.1 (by norm_num) (by rw [before,start]; decide)
    rw [before,start,long] at early
    exact early.1
  · have due := polled i polls last history _ _ _ member shows.2 (by norm_num) (by rw [after,start]; decide)
    rw [after,start,long] at due
    exact due.1
  · have early := (timed i polls last history _ _ _ _ member shows.1 (by norm_num) (by rw [before,start]; decide)).2 rfl
    rw [before,start,long] at early
    exact early.1
  · have due := (timed i polls last history _ _ _ _ member shows.2 (by norm_num) (by rw [after,start]; decide)).2 rfl
    rw [after,start,long] at due
    exact due.1
  · exact (timed i polls last history _ _ _ _ member shows.2 (by norm_num) (by rw [after,start]; decide)).1 true rfl

end Rtic.Time.DelayFuture
