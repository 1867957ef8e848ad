import Rtic.Monotonics.CompareValue
import Rtic.Time.TimerArmed
namespace Rtic.Monotonics.CompareTimer
open Rtic.Time TimerQueueTicks CompareValue
open TimerQueue (HandlerPoint)

-- `rolls`: interrupts at each overflow of the counter too; `lead`: a compare value that the counter comes to in
-- fewer ticks does not match.
structure Backend (B : Nat) where
  gated : Bool
  rolls : Bool
  lead : Nat
  compareValue : BitVec 64 → BitVec 64 → BitVec B

def stm32 (B : Nat) : Backend B := ⟨true,true,1,computeCompareValue B⟩
def rp2040 : Backend 32 := ⟨false,false,1,rp2040SetCompare⟩
def rp235x : Backend 32 := ⟨false,false,1,rp235xSetCompare⟩
-- cc[0] has 24 bits; the errata asks for two ticks.
def nrfRtc : Backend 24 := ⟨false,true,2,fun instant now => truncFromU64 24 ((rtcSetCompare instant now).setWidth 64)⟩
def nrfTimer : Backend 32 := ⟨false,true,1,fun instant _ => truncFromU64 32 instant⟩
def imxrt : Backend 32 := ⟨false,true,1,fun instant _ => truncFromU64 32 instant⟩

-- The compare register of `core` is not used. Its clock is exact: the half periods that on_interrupt counts for
-- `now` are left out, and so is a flag of them that is handled too late.
structure State (B : Nat) where
  core : TimerQueue.State 64
  register : BitVec B
  written : Int
  now : Option Int
  overflow : Bool

inductive Event where
  | compareRead
  | queue (event : TimerQueue.Event)
  deriving DecidableEq, Repr

section
variable {B : Nat} (timer : Backend B)

def counter (B : Nat) (time : Int) : BitVec B := wrap B time

def State.matchesAt (s : State B) (time : Int) : Bool :=
  decide (counter B time = s.register ∧ s.written+timer.lead ≤ time)

def overflowsAt (time : Int) : Bool := timer.rolls && decide (counter B time = 0)

def within (happens : Int → Bool) (time : Int) (ticks : Nat) : Bool := decide (∃ k < ticks, happens (time+k+1) = true)

def requested (s : State B) : Bool := s.core.pended || (s.core.matched && s.core.enabled) || s.overflow

inductive Step : State B → Event → State B → Prop where
  | advanced : Step s (.queue (.advanced ticks))
      {s with
        core := {s.core with
          time := s.core.time+ticks
          matched := s.core.matched || within (s.matchesAt timer) s.core.time ticks}
        overflow := s.overflow || within (overflowsAt timer) s.core.time ticks}
  | interrupted (idle : s.core.handler = .idle) (requested : requested s = true) :
      Step s (.queue .interrupted) {s with core := {s.core with handler := .clearCompareFlag,pended := false}}
  -- on_interrupt takes note of the overflow
  | hooked (taken : TimerQueue.Step timer.gated s.core .hooked core) :
      Step s (.queue .hooked) {s with core := core,overflow := false}
  | compareRead (at_ : s.core.handler = .setCompare instant) (unread : s.now = none) :
      Step s .compareRead {s with now := some s.core.time}
  | compareSet (at_ : s.core.handler = .setCompare instant) (read : s.now = some now)
      (taken : TimerQueue.Step timer.gated s.core .compareSet core) :
      Step s (.queue .compareSet)
        {s with
          core := core
          register := timer.compareValue (wrap 64 instant) (wrap 64 now)
          written := s.core.time
          now := none}
  | other (plain : (∀ ticks, event ≠ .advanced ticks) ∧ event ≠ .interrupted ∧ event ≠ .hooked ∧ event ≠ .compareSet)
      (taken : TimerQueue.Step timer.gated s.core event core) : Step s (.queue event) {s with core := core}

def initial (start : Int) : State B := ⟨TimerQueue.initial 64 timer.gated start,0,start,none,false⟩

abbrev Run (start : Int) (s : State B) := Transition.Run (Step timer) (initial timer start) s
end

end Rtic.Monotonics.CompareTimer
