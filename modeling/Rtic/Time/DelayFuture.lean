import Rtic.Common.WakerRegistration
import Rtic.Time.LinkedList
import Rtic.Time.Ticks
namespace Rtic.Time.DelayFuture
open Rtic.Common TimerQueueTicks

inductive Poll (A : Type) where
  | ready (value : A)
  | pending
  deriving DecidableEq, Repr

-- Here the instants are the Ticks that the code has.
structure WaitingWaker (w : Nat) where
  waker : Waker
  releaseAt : BitVec w
  wasPopped : Bool
  deriving DecidableEq, Repr

def WaitingWaker.lt {w : Nat} (self other : WaitingWaker w) : Bool :=
  TimerQueueTicks.compare self.releaseAt other.releaseAt == .lt

abbrev Queue (w : Nat) := LinkedList (WaitingWaker w)

-- TimerQueueBackend, critical_section and the wakers, each as it acts on all that there is beside the queue.
structure Backend (w : Nat) (S : Type) where
  now : S → BitVec w × S
  setCompare : BitVec w → S → S
  clearCompareFlag : S → S
  onInterrupt : S → S
  enableTimer : S → S
  disableTimer : S → S
  acquire : S → Bool × S
  release : Bool → S → S
  wake : Waker → S → S

section
variable {w : Nat} {S : Type} (backend : Backend w S)

def shouldPop (now : BitVec w) (head : WaitingWaker w) : Bool × WaitingWaker w :=
  let should := isAtLeast now head.releaseAt
  (should,{head with wasPopped := should})

-- pop_if with the closure of on_monotonic_interrupt, which reads the clock only where there is a head.
def popIf (queue : Queue w) (s : S) : Option (Option (Nat × WaitingWaker w × Bool) × Queue w × S) := do
  let (restore,s) := backend.acquire s
  let (now,s) := if queue.head.isSome then backend.now s else (0,s)
  let (popped,queue) ← queue.popIf (shouldPop now)
  return (popped,queue,backend.release restore s)

-- The loop of on_monotonic_interrupt.
def drain : Nat → Queue w → S → Option (Queue w × S)
  | 0,_,_ => none
  | fuel+1,queue,s => do
    let (popped,queue,s) ← popIf backend queue s
    match popped with
    | some (_,link,true) => drain fuel queue (backend.wake link.waker s)
    | some (_,head,false) =>
      let s := backend.setCompare head.releaseAt (backend.enableTimer s)
      let (now,s) := backend.now s
      if isAtLeast now head.releaseAt then drain fuel queue s else return (queue,s)
    | none => return (queue,backend.disableTimer s)

def onMonotonicInterrupt (fuel : Nat) (queue : Queue w) (s : S) : Option (Queue w × S) :=
  drain backend fuel queue (backend.onInterrupt (backend.clearCompareFlag s))

def insert (fuel i : Nat) (queue : Queue w) (s : S) : Option (Bool × Queue w × S) := do
  let (restore,s) := backend.acquire s
  let (headUpdated,queue) ← queue.insert WaitingWaker.lt fuel i
  return (headUpdated,queue,backend.release restore s)

-- `linked` is whether there is a link in `link_ptr`; it lies where the Delay is pinned.
structure Delay (w : Nat) where
  instant : BitVec w
  linked : Bool
  marker : Nat
  deriving DecidableEq, Repr

inductive TimeoutError where
  | timeoutError
  deriving DecidableEq, Repr

-- The Delay of a Timeout; its future is given with each poll as what it answers.
structure Timeout (w : Nat) where
  delay : Delay w
  deriving DecidableEq, Repr

def timeoutAt (instant : BitVec w) : Timeout w := ⟨⟨instant,false,0⟩⟩

def timeoutAfter (duration : BitVec w) (s : S) : Timeout w × S :=
  let (now,s) := backend.now s
  let timeout := now+duration
  let timeout := if now ≠ timeout then timeout+1 else timeout
  (timeoutAt timeout,s)

-- none: the panic where the queue is not initialized.
def delayUntil (initialized : Bool) (instant : BitVec w) : Option (Delay w) :=
  if initialized then some ⟨instant,false,0⟩ else none

def delay (initialized : Bool) (duration : BitVec w) (s : S) : Option (Delay w × S) := do
  let (now,s) := backend.now s
  let timeout := now+duration
  let timeout := if now ≠ timeout then timeout+1 else timeout
  let delay ← delayUntil initialized timeout
  return (delay,s)

-- `pend` is the backend's pend_interrupt, which may run the handler.
variable (pend : Queue w → S → Option (Queue w × S))

def Delay.poll (fuel i : Nat) (waker : Waker) (self : Delay w) (queue : Queue w) (s : S) :
    Option (Poll Unit × Delay w × Queue w × S) := do
  let (now,s) := backend.now s
  if isAtLeast now self.instant then return (.ready (),self,queue,s)
  else if self.linked then return (.pending,self,queue,s)
  else
    let (headUpdated,queue,s) ← insert backend fuel i (queue.place i ⟨waker,self.instant,false⟩) s
    let (queue,s) ← if headUpdated then pend queue s else some (queue,s)
    return (.pending,{self with linked := true,marker := i},queue,s)

def Timeout.poll {A : Type} (fuel i : Nat) (waker : Waker) (inner : Poll A) (self : Timeout w) (queue : Queue w) (s : S) :
    Option (Poll (Except TimeoutError A) × Timeout w × Queue w × S) :=
  match inner with
  | .ready v => some (.ready (.ok v),self,queue,s)
  | .pending => do
    let (polled,delay,queue,s) ← self.delay.poll backend pend fuel i waker queue s
    match polled with
    | .ready () => return (.ready (.error .timeoutError),⟨delay⟩,queue,s)
    | .pending => return (.pending,⟨delay⟩,queue,s)
end

end Rtic.Time.DelayFuture
