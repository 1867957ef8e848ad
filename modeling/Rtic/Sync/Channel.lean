import Mathlib.Logic.Function.Basic
import Rtic.Common.WakerRegistration
import Rtic.Library.BoundedDeque
import Rtic.Library.Transition
namespace Rtic.Sync.Channel
open Function Rtic.Common
variable {D T : Type}

abbrev Deque (D : Type) := BoundedDeque.Api Nat D

-- Link<(Waker, SlotPtr)>: it lies in the send future of a Sender, whose number
-- stands for its address.
structure Link where
  waker : Waker
  isPopped : Bool
  deriving DecidableEq, Repr

-- `num_senders`, a usize, is not followed past its maximum.
structure Channel (D T : Type) where
  freeq : D
  readyq : D
  receiverWaker : WakerRegistration
  slots : Nat → Option T
  waitQueue : List Nat
  receiverDropped : Bool
  numSenders : Nat

def Channel.new (api : Deque D) : Channel D T :=
  ⟨api.new,api.new,.new,fun _ => none,[],false,0⟩

-- What `split` asserts before all else.
def Channel.cleared (api : Deque D) (self : Channel D T) : Bool := api.isEmpty self.readyq

-- `0..N as u8`
def indices (N : Nat) : List Nat := List.range (N%256)

def Channel.split (api : Deque D) (N : Nat) (self : Channel D T) : Channel D T :=
  {self with freeq := (indices N).foldl api.pushBackUnchecked (api.clear self.freeq),numSenders := 1}

-- How the `poll_fn` of a send future ended, if the future was not dropped.
inductive Outcome where
  | slot (idx : Nat)
  | noReceiver
  | dropped
  deriving DecidableEq, Repr

-- Where a Sender stands between two critical sections.
inductive SenderPoint (T : Type) where
  | gone
  | idle
  -- try_send
  | tryQueue (val : T)
  | tryClosed (val : T)
  | tryClaim (val : T)
  -- send: the future before its first poll, and suspended
  | fresh (val : T)
  | waiting (val : T)
  -- the dropper
  | unlink (val : T) (outcome : Outcome)
  | takeSlot (val : T) (outcome : Outcome)
  | giveBack (val : T) (outcome : Outcome) (slot : Nat)
  | leave (val : T) (outcome : Outcome)
  -- send_footer
  | write (val : T) (slot : Nat)
  | publish (val : T) (slot : Nat)
  | notify (val : T)
  -- Sender::drop has counted down to zero
  | lastDropped
  deriving DecidableEq, Repr

-- A Sender with the two locals of its send future that the channel points to.
structure Sender (T : Type) where
  point : SenderPoint T
  link : Option Link
  freeSlot : Option Nat
  deriving DecidableEq, Repr

-- Inside a poll of `recv`, `origin` is the waker of that poll.
inductive ReceiverPoint (T : Type) where
  | idle
  -- recv: the future before its first poll, and after one that was Pending
  | fresh
  | pending (waker : Waker)
  | register (waker : Waker)
  -- try_recv
  | pop (origin : Option Waker)
  | read (origin : Option Waker) (slot : Nat)
  | giveBack (origin : Option Waker) (slot : Nat) (val : T)
  | checkClosed (origin : Option Waker)
  -- Receiver::drop
  | drain
  | drainRead (slot : Nat)
  | unqueue
  | wakeWaiter (waker : Waker)
  | dropped
  deriving DecidableEq, Repr

structure State (D T : Type) extends Channel D T where
  handles : Nat
  sender : Nat → Sender T
  receiver : ReceiverPoint T

def gone : Sender T := ⟨.gone,none,none⟩
def idle : Sender T := ⟨.idle,none,none⟩

-- The handles that `split` returns: one Sender, number 0, and the Receiver.
def opened (channel : Channel D T) : State D T :=
  ⟨channel,1,fun i => if i = 0 then idle else gone,.idle⟩

inductive Query where
  | isClosed
  | isFull
  | isEmpty
  deriving DecidableEq, Repr

def senderAnswer (api : Deque D) (s : State D T) : Query → Bool
  | .isClosed => s.receiverDropped
  | .isFull => api.isEmpty s.freeq
  | .isEmpty => api.isFull s.freeq

def receiverAnswer (api : Deque D) (s : State D T) : Query → Bool
  | .isClosed => s.numSenders == 0
  | .isFull => api.isFull s.readyq
  | .isEmpty => api.isEmpty s.readyq

inductive TrySendError where
  | noReceiver
  | full
  deriving DecidableEq, Repr

-- Steps of the Sender `i`, then steps of the Receiver.
inductive Event (T : Type) where
  | tryCalled (i : Nat) (val : T)
  | sendCalled (i : Nat) (val : T)
  | passed (i : Nat)
  | refused (i : Nat) (val : T) (error : TrySendError)
  | claimed (i slot : Nat)
  | granted (i slot : Nat)
  | queued (i : Nat) (waker : Waker)
  | stillPending (i : Nat)
  | foundClosed (i : Nat)
  | forgotten (i : Nat) (val : T)
  | cancelled (i : Nat)
  | unlinked (i : Nat) (outcome : Outcome)
  | reclaimed (i slot : Nat)
  | nothingLeft (i : Nat)
  | gaveBack (i slot : Nat) (handed : Option (Nat × Waker))
  | left (i : Nat) (val : T) (outcome : Outcome)
  | wrote (i slot : Nat) (val : T)
  | pushed (i slot : Nat) (val : T)
  | sent (i : Nat) (val : T) (woken : Option Waker)
  | cloned (i j : Nat)
  | senderDropped (i : Nat)
  | lastWoke (i : Nat) (woken : Option Waker)
  | senderAsked (i : Nat) (query : Query) (answer : Bool)
  | tryRecvCalled
  | recvCalled
  | polled (waker : Waker)
  | recvDropped
  | registered (woken : Option Waker)
  | popped (slot : Nat)
  | foundEmpty
  | slotRead (slot : Nat) (val : T)
  | received (slot : Nat) (val : T) (handed : Option (Nat × Waker))
  | noSender
  | empty
  | closing
  | drained (slot : Nat)
  | discarded (slot : Nat) (val : T)
  | drainEnded
  | unqueued (j : Nat) (waker : Waker)
  | wokeWaiter (waker : Waker)
  | receiverDropped
  | receiverAsked (query : Query) (answer : Bool)
  deriving DecidableEq, Repr

def SenderPoint.future : SenderPoint T → Option T
  | .fresh val => some val
  | .waiting val => some val
  | _ => none

def ReceiverPoint.awaiting : ReceiverPoint T → Bool
  | .fresh => true
  | .pending _ => true
  | _ => false

-- What a `send` goes on with when its dropper is gone.
def resume (val : T) : Outcome → SenderPoint T
  | .slot idx => .write val idx
  | .noReceiver => .idle
  | .dropped => .idle

-- What try_recv returned ends the poll that called it, or leaves it Pending.
def ReceiverPoint.suspended : Option Waker → ReceiverPoint T
  | some waker => .pending waker
  | none => .idle

def Link.popped (self : Link) : Link := {self with isPopped := true}

-- `wait_queue.pop` reads the link of the longest-waiting future, and there is
-- nothing to read if that is gone.
def popWaiter (s : State D T) : Option (Option (Nat × Waker) × State D T) :=
  match s.waitQueue with
  | [] => some (none,s)
  | j::rest => (s.sender j).link.map fun link =>
    (some (j,link.waker),
      {s with waitQueue := rest,sender := update s.sender j {s.sender j with link := some link.popped}})

def returnFreeSlot (api : Deque D) (s : State D T) (slot : Nat) : Option (Option (Nat × Waker) × State D T) :=
  (popWaiter s).map fun popped => match popped with
  | (some (j,waker),t) =>
    (some (j,waker),{t with sender := update t.sender j {t.sender j with freeSlot := some slot}})
  | (none,t) => (none,{t with freeq := api.pushBackUnchecked t.freeq slot})

-- The steps of Sender `i` that write nothing but itself: `x` before and `y` after.
inductive Local (api : Deque D) (s : State D T) (i : Nat) : Sender T → Event T → Sender T → Prop where
  | tryCalled : Local api s i ⟨.idle,c,f⟩ (.tryCalled i val) ⟨.tryQueue val,c,f⟩
  | sendCalled : Local api s i ⟨.idle,c,f⟩ (.sendCalled i val) ⟨.fresh val,c,f⟩
  | queueEmpty (empty : s.waitQueue = []) : Local api s i ⟨.tryQueue val,c,f⟩ (.passed i) ⟨.tryClosed val,c,f⟩
  | queueBusy (busy : s.waitQueue ≠ []) :
      Local api s i ⟨.tryQueue val,c,f⟩ (.refused i val .full) ⟨.idle,c,f⟩
  | isOpen (alive : s.receiverDropped = false) :
      Local api s i ⟨.tryClosed val,c,f⟩ (.passed i) ⟨.tryClaim val,c,f⟩
  | isClosed (closed : s.receiverDropped = true) :
      Local api s i ⟨.tryClosed val,c,f⟩ (.refused i val .noReceiver) ⟨.idle,c,f⟩
  -- poll of a send future
  | pollClosed (future : p.future = some val) (closed : s.receiverDropped = true) :
      Local api s i ⟨p,c,f⟩ (.foundClosed i) ⟨.unlink val .noReceiver,c,f⟩
  | granted (future : p.future = some val) (alive : s.receiverDropped = false) (popped : link.isPopped = true) :
      Local api s i ⟨p,some link,some slot⟩ (.granted i slot) ⟨.unlink val (.slot slot),none,none⟩
  | denied (future : p.future = some val) (alive : s.receiverDropped = false) (popped : link.isPopped = true) :
      Local api s i ⟨p,some link,none⟩ (.foundClosed i) ⟨.unlink val .noReceiver,none,none⟩
  | stillPending (future : p.future = some val) (alive : s.receiverDropped = false)
      (queued : link.isPopped = false) :
      Local api s i ⟨p,some link,f⟩ (.stillPending i) ⟨.waiting val,some link,f⟩
  -- drop of a send future, with a dropper only if it was polled
  | forgotten : Local api s i ⟨.fresh val,c,f⟩ (.forgotten i val) ⟨.idle,c,f⟩
  | cancelled : Local api s i ⟨.waiting val,c,f⟩ (.cancelled i) ⟨.unlink val .dropped,c,f⟩
  | nothingLinked (out : ∀ link, c = some link → link.isPopped = true) :
      Local api s i ⟨.unlink val outcome,c,f⟩ (.unlinked i outcome) ⟨.takeSlot val outcome,c,f⟩
  | reclaimed : Local api s i ⟨.takeSlot val outcome,c,some slot⟩ (.reclaimed i slot) ⟨.giveBack val outcome slot,c,none⟩
  | nothingLeft : Local api s i ⟨.takeSlot val outcome,c,none⟩ (.nothingLeft i) ⟨.leave val outcome,c,none⟩
  | left : Local api s i ⟨.leave val outcome,c,f⟩ (.left i val outcome) ⟨resume val outcome,none,none⟩
  | asked : Local api s i ⟨.idle,c,f⟩ (.senderAsked i query (senderAnswer api s query)) ⟨.idle,c,f⟩

-- The steps of the Receiver that write nothing but itself.
inductive ReceiverLocal (api : Deque D) (s : State D T) :
    ReceiverPoint T → Event T → ReceiverPoint T → Prop where
  | tryRecvCalled : ReceiverLocal api s .idle .tryRecvCalled (.pop none)
  | recvCalled : ReceiverLocal api s .idle .recvCalled .fresh
  | polled (future : p.awaiting = true) : ReceiverLocal api s p (.polled waker) (.register waker)
  | recvDropped (future : p.awaiting = true) : ReceiverLocal api s p .recvDropped .idle
  | read (written : s.slots slot = some val) :
      ReceiverLocal api s (.read origin slot) (.slotRead slot val) (.giveBack origin slot val)
  | noSender (closed : s.numSenders = 0) : ReceiverLocal api s (.checkClosed origin) .noSender .idle
  | empty (alive : s.numSenders ≠ 0) :
      ReceiverLocal api s (.checkClosed origin) .empty (.suspended origin)
  | discarded (written : s.slots slot = some val) :
      ReceiverLocal api s (.drainRead slot) (.discarded slot val) .drain
  | wokeWaiter : ReceiverLocal api s (.wakeWaiter waker) (.wokeWaiter waker) .unqueue
  | dropped (empty : s.waitQueue = []) : ReceiverLocal api s .unqueue .receiverDropped .dropped
  | asked : ReceiverLocal api s .idle (.receiverAsked query (receiverAnswer api s query)) .idle

inductive Step (api : Deque D) : State D T → Event T → State D T → Prop where
  | sends (i : Nat) (here : s.sender i = x) (moves : Local api s i x e y) :
      Step api s e {s with sender := update s.sender i y}
  | receives (here : s.receiver = p) (moves : ReceiverLocal api s p e q) : Step api s e {s with receiver := q}
  -- freeq
  | tryClaimed (here : s.sender i = ⟨.tryClaim val,c,f⟩) (got : api.popFront s.freeq = (some slot,q)) :
      Step api s (.claimed i slot) {s with freeq := q,sender := update s.sender i ⟨.write val slot,c,f⟩}
  | tryFull (here : s.sender i = ⟨.tryClaim val,c,f⟩) (got : api.popFront s.freeq = (none,q)) :
      Step api s (.refused i val .full) {s with freeq := q,sender := update s.sender i ⟨.idle,c,f⟩}
  | claimed (here : s.sender i = ⟨p,none,f⟩) (future : p.future = some val) (alive : s.receiverDropped = false)
      (first : s.waitQueue = []) (some_ : api.isEmpty s.freeq = false) :
      Step api s (.claimed i (api.popBackUnchecked s.freeq).1)
        {s with
          freeq := (api.popBackUnchecked s.freeq).2
          sender := update s.sender i ⟨.unlink val (.slot (api.popBackUnchecked s.freeq).1),none,f⟩}
  -- wait queue
  | queued (here : s.sender i = ⟨p,none,f⟩) (future : p.future = some val) (alive : s.receiverDropped = false)
      (full : s.waitQueue ≠ [] ∨ api.isEmpty s.freeq = true) :
      Step api s (.queued i waker)
        {s with
          waitQueue := s.waitQueue++[i]
          sender := update s.sender i ⟨.waiting val,some ⟨waker,false⟩,f⟩}
  | unlinked (here : s.sender i = ⟨.unlink val outcome,some link,f⟩) (queued : link.isPopped = false) :
      Step api s (.unlinked i outcome)
        {s with
          waitQueue := s.waitQueue.erase i
          sender := update s.sender i ⟨.takeSlot val outcome,some link.popped,f⟩}
  | gaveBack (here : s.sender i = ⟨.giveBack val outcome slot,c,f⟩)
      (returned : returnFreeSlot api s slot = some (handed,t)) :
      Step api s (.gaveBack i slot handed)
        {t with sender := update t.sender i {t.sender i with point := .leave val outcome}}
  -- send_footer
  | wrote (here : s.sender i = ⟨.write val slot,c,f⟩) :
      Step api s (.wrote i slot val)
        {s with slots := update s.slots slot (some val),sender := update s.sender i ⟨.publish val slot,c,f⟩}
  | pushed (here : s.sender i = ⟨.publish val slot,c,f⟩) :
      Step api s (.pushed i slot val)
        {s with
          readyq := api.pushBackUnchecked s.readyq slot
          sender := update s.sender i ⟨.notify val,c,f⟩}
  | sent (here : s.sender i = ⟨.notify val,c,f⟩) :
      Step api s (.sent i val s.receiverWaker.wake.2)
        {s with receiverWaker := s.receiverWaker.wake.1,sender := update s.sender i ⟨.idle,c,f⟩}
  -- Clone and Drop of a Sender
  | cloned (here : (s.sender i).point = .idle) :
      Step api s (.cloned i s.handles)
        {s with
          numSenders := s.numSenders+1
          handles := s.handles+1
          sender := update s.sender s.handles idle}
  | senderDropped (here : s.sender i = ⟨.idle,c,f⟩) :
      Step api s (.senderDropped i)
        {s with
          numSenders := s.numSenders-1
          sender := update s.sender i ⟨if s.numSenders-1 = 0 then .lastDropped else .gone,c,f⟩}
  | lastWoke (here : s.sender i = ⟨.lastDropped,c,f⟩) :
      Step api s (.lastWoke i s.receiverWaker.wake.2)
        {s with receiverWaker := s.receiverWaker.wake.1,sender := update s.sender i ⟨.gone,c,f⟩}
  -- recv and try_recv
  | registered (here : s.receiver = .register waker) :
      Step api s (.registered (s.receiverWaker.register waker).2)
        {s with receiverWaker := (s.receiverWaker.register waker).1,receiver := .pop (some waker)}
  | popped (here : s.receiver = .pop origin) (got : api.popFront s.readyq = (some slot,q)) :
      Step api s (.popped slot) {s with readyq := q,receiver := .read origin slot}
  | foundEmpty (here : s.receiver = .pop origin) (got : api.popFront s.readyq = (none,q)) :
      Step api s .foundEmpty {s with readyq := q,receiver := .checkClosed origin}
  | received (here : s.receiver = .giveBack origin slot val)
      (returned : returnFreeSlot api s slot = some (handed,t)) :
      Step api s (.received slot val handed) {t with receiver := .idle}
  -- Receiver::drop
  | closing (here : s.receiver = .idle) :
      Step api s .closing {s with receiverDropped := true,receiver := .drain}
  | drained (here : s.receiver = .drain) (got : api.popBack s.readyq = (some slot,q)) :
      Step api s (.drained slot) {s with readyq := q,receiver := .drainRead slot}
  | drainEnded (here : s.receiver = .drain) (got : api.popBack s.readyq = (none,q)) :
      Step api s .drainEnded {s with readyq := q,receiver := .unqueue}
  | unqueued (here : s.receiver = .unqueue) (got : popWaiter s = some (some (j,waker),t)) :
      Step api s (.unqueued j waker) {t with receiver := .wakeWaiter waker}

abbrev initial (api : Deque D) (N : Nat) : State D T := opened ((Channel.new api).split api N)

abbrev Run (api : Deque D) (N : Nat) (s : State D T) := Transition.Run (Step api) (initial api N) s

-- One value sent by try_send and received by try_recv.
def exchange :=
  (((((((((((Transition.Run.start : Run (T:=Nat) (BoundedDeque.listApi 1) 1 _).snoc
    (.tryCalled 0 7) (.sends 0 rfl .tryCalled)).snoc
    (.passed 0) (.sends 0 rfl (.queueEmpty rfl))).snoc
    (.passed 0) (.sends 0 rfl (.isOpen rfl))).snoc
    (.claimed 0 0) (.tryClaimed rfl rfl)).snoc
    (.wrote 0 0 7) (.wrote rfl)).snoc
    (.pushed 0 0 7) (.pushed rfl)).snoc
    (.sent 0 7 none) (.sent rfl)).snoc
    .tryRecvCalled (.receives rfl .tryRecvCalled)).snoc
    (.popped 0) (.popped rfl rfl)).snoc
    (.slotRead 0 7) (.receives rfl (.read rfl))).snoc
    (.received 0 7 none) (.received rfl rfl)

end Rtic.Sync.Channel
