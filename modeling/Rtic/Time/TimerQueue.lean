import Rtic.Common.WakerRegistration
import Rtic.Library.Transition
import Rtic.Time.LinkedList
import Rtic.Time.Ticks
namespace Rtic.Time.TimerQueue
open Function Rtic.Common TimerQueueTicks

-- Instants are true instants throughout; the code has their Ticks, of `w` bits.
structure WaitingWaker where
  waker : Waker
  releaseAt : Int
  wasPopped : Bool
  deriving DecidableEq, Repr

def WaitingWaker.lt (w : Nat) (self other : WaitingWaker) : Bool :=
  TimerQueueTicks.compare (wrap w self.releaseAt) (wrap w other.releaseAt) == .lt

-- The order of the code is the order of the instants, as far as these are near each other.
theorem lt_iff {w : Nat} {a b : WaitingWaker} (near : Near w a.releaseAt b.releaseAt) :
    WaitingWaker.lt w a b = true ↔ a.releaseAt < b.releaseAt := by
  unfold WaitingWaker.lt
  rw [compare_wrap near,beq_iff_eq,compare_lt_iff_lt]

-- The closure that on_monotonic_interrupt gives to pop_if.
def shouldPop (w : Nat) (now : Int) (head : WaitingWaker) : Bool × WaitingWaker :=
  let should := isAtLeast (wrap w now) (wrap w head.releaseAt)
  (should,{head with wasPopped := should})

-- Where a Delay stands, within a poll or a drop.
inductive DelayPoint where
  | gone
  | idle
  | insert
  | marker (headUpdated : Bool)
  | pend
  | delete
  deriving DecidableEq, Repr

-- A Delay, alone or in a Timeout: that one polls it only when its own future is
-- pending, and drops it with itself. Delays are numbered as they are made. The
-- `link_ptr` of the Delay at an address is what lies there in the memory of the queue.
structure Delay where
  number : Nat
  instant : Int
  marker : Nat
  point : DelayPoint
  deriving DecidableEq, Repr

-- Where on_monotonic_interrupt stands.
inductive HandlerPoint where
  | idle
  | clearCompareFlag
  | onInterrupt
  | popIf
  | wake (number : Nat) (waker : Waker)
  | enableTimer (instant : Int)
  | setCompare (instant : Int)
  | check (instant : Int)
  | disableTimer
  deriving DecidableEq, Repr

-- The queue, its Delays by address, the handler, and the backend: its clock, whether
-- its timer is enabled, the compare register, the compare flag, and the pended interrupt.
structure State (w : Nat) where
  queue : LinkedList WaitingWaker
  delay : Nat → Delay
  delays : Nat
  handler : HandlerPoint
  time : Int
  enabled : Bool
  compare : BitVec w
  matched : Bool
  pended : Bool

inductive Event where
  | advanced (ticks : Nat)
  | spurious
  | created (i : Nat) (instant : Int)
  | ready (i : Nat)
  | stillPending (i : Nat)
  | linkMade (i number : Nat) (waker : Waker)
  | inserted (i number : Nat) (headUpdated : Bool)
  | marked (i : Nat)
  | pendInterrupt (i : Nat)
  | returned (i : Nat)
  | dropping (i : Nat)
  | deleted (i : Nat)
  | interrupted
  | flagCleared
  | hooked
  | popped (i number : Nat)
  | notDue (instant : Int)
  | empty
  | woke (number : Nat) (waker : Waker)
  | timerEnabled
  | compareSet
  | rechecked (due : Bool)
  | timerDisabled
  deriving DecidableEq, Repr

variable {w : Nat}

-- The clock comes to the compare value within so many ticks.
def reaches (compare : BitVec w) (time : Int) (ticks : Nat) : Bool :=
  decide (∃ k < ticks, wrap w (time+k+1) = compare)

def State.point (s : State w) (i : Nat) : DelayPoint := (s.delay i).point

def State.move (s : State w) (i : Nat) (point : DelayPoint) : State w :=
  {s with delay := update s.delay i {s.delay i with point := point}}

-- this.marker.store(addr)
def State.mark (s : State w) (i : Nat) (point : DelayPoint) : State w :=
  {s with delay := update s.delay i {s.delay i with marker := i,point := point}}

-- `gated`: whether the backend has an enable_timer and a disable_timer.
inductive Step (gated : Bool) : State w → Event → State w → Prop where
  | advanced : Step gated s (.advanced ticks)
      {s with time := s.time+ticks,matched := s.matched || (s.enabled && reaches s.compare s.time ticks)}
  | spurious : Step gated s .spurious {s with pended := true}
  | created (here : s.point i = .gone) : Step gated s (.created i instant)
      {s with delay := update s.delay i ⟨s.delays,instant,0,.idle⟩,delays := s.delays+1}
  -- poll
  | ready (here : s.point i = .idle) (due : isAtLeast (wrap w s.time) (wrap w (s.delay i).instant) = true) :
      Step gated s (.ready i) s
  | stillPending (here : s.point i = .idle)
      (early : isAtLeast (wrap w s.time) (wrap w (s.delay i).instant) = false)
      (linked : s.queue.link i = some link) : Step gated s (.stillPending i) s
  | linkMade (here : s.point i = .idle)
      (early : isAtLeast (wrap w s.time) (wrap w (s.delay i).instant) = false)
      (unlinked : s.queue.link i = none) : Step gated s (.linkMade i (s.delay i).number waker)
      {s.move i .insert with queue := s.queue.place i ⟨waker,(s.delay i).instant,false⟩}
  | inserted (here : s.point i = .insert)
      (result : s.queue.insert (WaitingWaker.lt w) fuel i = some (headUpdated,next)) :
      Step gated s (.inserted i (s.delay i).number headUpdated) {s.move i (.marker headUpdated) with queue := next}
  | marked (here : s.point i = .marker headUpdated) :
      Step gated s (.marked i) (s.mark i (if headUpdated then .pend else .idle))
  | pendInterrupt (here : s.point i = .pend) :
      Step gated s (.pendInterrupt i) {s.move i .idle with pended := true}
  -- drop
  | returned (here : s.point i = .idle)
      (done : ∀ link, s.queue.link i = some link → link.val.wasPopped = true) :
      Step gated s (.returned i) {s.move i .gone with queue := s.queue.free i}
  | dropping (here : s.point i = .idle) (linked : s.queue.link i = some link)
      (unpopped : link.val.wasPopped = false) : Step gated s (.dropping i) (s.move i .delete)
  | deleted (here : s.point i = .delete) (result : s.queue.delete fuel (s.delay i).marker = some next) :
      Step gated s (.deleted i) {s.move i .gone with queue := next.free i}
  -- on_monotonic_interrupt
  | interrupted (idle : s.handler = .idle) (requested : (s.pended || (s.matched && s.enabled)) = true) :
      Step gated s .interrupted {s with handler := .clearCompareFlag,pended := false}
  | flagCleared (at_ : s.handler = .clearCompareFlag) :
      Step gated s .flagCleared {s with handler := .onInterrupt,matched := false}
  | hooked (at_ : s.handler = .onInterrupt) : Step gated s .hooked {s with handler := .popIf}
  | popped (at_ : s.handler = .popIf) (result : s.queue.popIf (shouldPop w s.time) = some (some (i,val,true),next)) :
      Step gated s (.popped i (s.delay i).number) {s with queue := next,handler := .wake (s.delay i).number val.waker}
  | notDue (at_ : s.handler = .popIf) (result : s.queue.popIf (shouldPop w s.time) = some (some (i,val,false),next)) :
      Step gated s (.notDue val.releaseAt) {s with queue := next,handler := .enableTimer val.releaseAt}
  | empty (at_ : s.handler = .popIf) (result : s.queue.popIf (shouldPop w s.time) = some (none,next)) :
      Step gated s .empty {s with queue := next,handler := .disableTimer}
  | woke (at_ : s.handler = .wake number waker) : Step gated s (.woke number waker) {s with handler := .popIf}
  | timerEnabled (at_ : s.handler = .enableTimer instant) :
      Step gated s .timerEnabled {s with handler := .setCompare instant,enabled := true}
  | compareSet (at_ : s.handler = .setCompare instant) :
      Step gated s .compareSet {s with handler := .check instant,compare := wrap w instant}
  | rechecked (at_ : s.handler = .check instant) :
      Step gated s (.rechecked (isAtLeast (wrap w s.time) (wrap w instant)))
        {s with handler := if isAtLeast (wrap w s.time) (wrap w instant) then .popIf else .idle}
  | timerDisabled (at_ : s.handler = .disableTimer) :
      Step gated s .timerDisabled {s with handler := .idle,enabled := s.enabled && !gated}

def initial (w : Nat) (gated : Bool) (start : Int) : State w :=
  ⟨LinkedList.new,fun _ => ⟨0,0,0,.gone⟩,0,.idle,start,!gated,0,false,false⟩

abbrev Run (gated : Bool) (start : Int) (s : State w) := Transition.Run (Step gated) (initial w gated start) s

end Rtic.Time.TimerQueue
