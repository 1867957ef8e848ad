import Rtic.Sync.ChannelSlots
namespace Rtic.Sync.Channel
open Function Buckets Transition Rtic.Common
open BoundedDeque (Documented listApi)
variable {D T : Type} {N : Nat}

-- The channel with each deque replaced by what is in it.
def contents (items : D → List Nat) (s : State D T) : State (List Nat) T :=
  ⟨⟨items s.freeq,items s.readyq,s.receiverWaker,s.slots,s.waitQueue,s.receiverDropped,s.numSenders⟩,s.handles,
    s.sender,s.receiver⟩

section
variable {evs : List (Event T)} {s : State (List Nat) T} {i slot : Nat}

theorem Sound.held_le (sound : Sound N evs s) (i k : Nat) : (s.sender i).slots.count k ≤ (heldSlots s).count k := by
  by_cases inside : i < s.handles
  · exact count_le_gather inside (fun j => (s.sender j).slots) k
  · rw [sound.queue.unused i (Nat.le_of_not_lt inside)]
    exact Nat.zero_le _

theorem Sound.bound (sound : Sound N evs s) (k : Nat) : occurrences evs s k ≤ if k < N%256 then 1 else 0 :=
  Nat.le_of_eq (sound.slots k)

theorem length_lt_capacity (slot : Nat) {l : List Nat} (once : ∀ a, l.count a+[slot].count a ≤ if a < N%256 then 1 else 0) :
    l.length < N := Nat.lt_of_lt_of_le (length_lt once) (Nat.mod_le N 256)

-- For a slot that a Sender holds there is room in either queue.
theorem Sound.room_at {x : Sender T} (sound : Sound N evs s) (here : s.sender i = x) (held : x.slots ≠ []) :
    s.freeq.length < N ∧ s.readyq.length < N := by
  subst here
  obtain ⟨slot,held⟩ := List.exists_mem_of_ne_nil _ held
  have elsewhere : ∀ k, [slot].count k ≤ (heldSlots s).count k := fun k =>
    Nat.le_trans ((List.singleton_sublist.mpr held).count_le k) (sound.held_le i k)
  constructor
  · refine length_lt_capacity slot fun k => ?_
    have bound := sound.bound k
    have there := elsewhere k
    unfold occurrences at bound
    omega
  · refine length_lt_capacity slot fun k => ?_
    have bound := sound.bound k
    have there := elsewhere k
    unfold occurrences at bound
    omega

theorem Sound.receiver_room (sound : Sound N evs s) (held : s.receiver.slots = [slot]) : s.freeq.length < N := by
  refine length_lt_capacity slot fun k => ?_
  have bound := sound.bound k
  unfold occurrences at bound
  rw [held] at bound
  omega
end

section
variable {api : Deque D} {items : D → List Nat} {s t : State D T} {e : Event T}

theorem popWaiter_contents {waiter : Option (Nat × Waker)} (popped : popWaiter s = some (waiter,t)) :
    popWaiter (contents items s) = some (waiter,contents items t) := by
  rcases popWaiter_cases popped with ⟨empty,rfl,rfl⟩ | ⟨j,rest,link,queue,linked,rfl,rfl⟩
  · simp [popWaiter,contents,empty]
  · simp [popWaiter,contents,queue,linked]

variable (doc : Documented api N items)
include doc

theorem returnFreeSlot_contents {slot : Nat} {handed : Option (Nat × Waker)}
    (room : s.waitQueue = [] → (items s.freeq).length < N) (returned : returnFreeSlot api s slot = some (handed,t)) :
    returnFreeSlot (listApi N) (contents items s) slot = some (handed,contents items t) := by
  rcases returnFreeSlot_cases returned with ⟨empty,rfl,rfl⟩ | ⟨j,rest,link,queue,linked,rfl,rfl⟩
  · have pushed := doc.pushBack s.freeq slot (room empty)
    simp [returnFreeSlot,popWaiter,contents,empty,listApi,pushed]
  · simp [returnFreeSlot,popWaiter,contents,queue,linked]

theorem senderAnswer_contents (query : Query) :
    senderAnswer api s query = senderAnswer (listApi N) (contents items s) query := by
  cases query with
  | isClosed => rfl
  | isFull => exact doc.isEmpty s.freeq
  | isEmpty => exact doc.isFull s.freeq

theorem receiverAnswer_contents (query : Query) :
    receiverAnswer api s query = receiverAnswer (listApi N) (contents items s) query := by
  cases query with
  | isClosed => rfl
  | isFull => exact doc.isFull s.readyq
  | isEmpty => exact doc.isEmpty s.readyq

theorem local_contents {i : Nat} {x y : Sender T} (moves : Local api s i x e y) :
    Local (listApi N) (contents items s) i x e y := by
  cases moves with
  | asked =>
    rw [senderAnswer_contents doc]
    exact .asked
  | queueEmpty empty => exact .queueEmpty empty
  | queueBusy busy => exact .queueBusy busy
  | isOpen alive => exact .isOpen alive
  | isClosed closed => exact .isClosed closed
  | pollClosed future closed => exact .pollClosed future closed
  | granted future alive popped => exact .granted future alive popped
  | denied future alive popped => exact .denied future alive popped
  | stillPending future alive queued => exact .stillPending future alive queued
  | nothingLinked out => exact .nothingLinked out
  | tryCalled => exact .tryCalled
  | sendCalled => exact .sendCalled
  | forgotten => exact .forgotten
  | cancelled => exact .cancelled
  | reclaimed => exact .reclaimed
  | nothingLeft => exact .nothingLeft
  | left => exact .left

theorem receiverLocal_contents {p q : ReceiverPoint T} (moves : ReceiverLocal api s p e q) :
    ReceiverLocal (listApi N) (contents items s) p e q := by
  cases moves with
  | asked =>
    rw [receiverAnswer_contents doc]
    exact .asked
  | polled future => exact .polled future
  | recvDropped future => exact .recvDropped future
  | read written => exact .read written
  | noSender closed => exact .noSender closed
  | empty alive => exact .empty alive
  | discarded written => exact .discarded written
  | dropped empty => exact .dropped empty
  | tryRecvCalled => exact .tryRecvCalled
  | recvCalled => exact .recvCalled
  | wokeWaiter => exact .wokeWaiter

-- A step of the channel over any documented deque is, on what the deques hold,
-- the same step over lists.
theorem step_contents {evs : List (Event T)} (sound : Sound N evs (contents items s)) (taken : Step api s e t) :
    Step (listApi N) (contents items s) e (contents items t) := by
  cases taken with
  | sends i here moves => exact .sends i here (local_contents doc moves)
  | receives here moves => exact .receives here (receiverLocal_contents doc moves)
  | tryClaimed here got =>
    have front := doc.popFront_some got
    exact .tryClaimed here (by simp [listApi,contents,front])
  | tryFull here got =>
    obtain ⟨before,after⟩ := doc.popFront_none got
    simpa [contents,after] using Step.tryFull (s:=contents items s) here (q:=[]) (by simp [listApi,contents,before])
  | claimed here future alive first some_ =>
    have filled : items s.freeq ≠ [] := by
      have tested := doc.isEmpty s.freeq
      rw [some_] at tested
      intro none_
      simp [none_] at tested
    obtain ⟨rest,k,split⟩ := (List.eq_nil_or_concat' (items s.freeq)).resolve_left filled
    obtain ⟨last,before⟩ := doc.popBackUnchecked s.freeq rest k split
    have listed : (listApi N).popBackUnchecked (items s.freeq) = (k,rest) := by simp [listApi,split]
    have step : Step (listApi N) (contents items s) _ _ := .claimed here future alive first
      (by simpa [listApi,contents] using filled)
    simp only [contents,listed] at step
    rw [last]
    simpa only [contents,before] using step
  | queued here future alive full =>
    refine .queued here future alive ?_
    rwa [doc.isEmpty] at full
  | unlinked here queued => exact .unlinked here queued
  | gaveBack here returned =>
    have room := (sound.room_at here (by simp [Sender.slots,SenderPoint.slots])).1
    exact Step.gaveBack (s:=contents items s) here (returnFreeSlot_contents doc (fun _ => room) returned)
  | wrote here => exact .wrote here
  | pushed here =>
    have room := (sound.room_at here (by simp [Sender.slots,SenderPoint.slots])).2
    rename_i i slot val c f
    have pushed := doc.pushBack s.readyq slot room
    have step : Step (listApi N) (contents items s) (.pushed i slot val) _ := .pushed here
    simpa only [contents,listApi,pushed] using step
  | sent here => exact .sent here
  | cloned here => exact .cloned here
  | senderDropped here => exact .senderDropped here
  | lastWoke here => exact .lastWoke here
  | registered here => exact .registered here
  | popped here got =>
    have front := doc.popFront_some got
    exact .popped here (by simp [listApi,contents,front])
  | foundEmpty here got =>
    obtain ⟨before,after⟩ := doc.popFront_none got
    simpa [contents,after] using Step.foundEmpty (s:=contents items s) here (q:=[]) (by simp [listApi,contents,before])
  | received here returned =>
    have room := sound.receiver_room (by rw [show (contents items s).receiver = _ from here]; rfl)
    exact Step.received (s:=contents items s) here (returnFreeSlot_contents doc (fun _ => room) returned)
  | closing here => exact .closing here
  | drained here got =>
    have front := doc.popBack_some got
    exact .drained here (by simp [listApi,contents,front])
  | drainEnded here got =>
    obtain ⟨before,after⟩ := doc.popBack_none got
    simpa [contents,after] using Step.drainEnded (s:=contents items s) here (q:=[]) (by simp [listApi,contents,before])
  | unqueued here got => exact Step.unqueued (s:=contents items s) here (popWaiter_contents got)

theorem initial_contents : contents items (initial api N : State D T) =
    (initial (listApi N) N : State (List Nat) T) := by
  have cleared := doc.clear api.new
  have filled := doc.fill (q:=api.clear api.new) (indices N) (by simp [cleared,indices,Nat.mod_le])
  rw [cleared] at filled
  simp only [contents,opened,Channel.split,Channel.new,filled,doc.new,listApi_fill]
  rfl

-- A run over any documented deque is a run over lists, event by event.
theorem contents_run (run : Run api N s) : ∃ listed : Run (listApi N) N (contents items s),
    listed.events = run.events ∧
    (∀ law, listed.Through law ↔ run.Through fun evs s => law evs (contents items s)) ∧
    ∀ law, listed.Every law ↔ run.Every fun evs s e t => law evs (contents items s) e (contents items t) := by
  unfold Run
  rw [← initial_contents doc]
  have base : Sound N [] (contents items (initial api N : State D T)) := by
    rw [initial_contents doc]
    exact initial_sound
  have forward : ∀ {evs : List (Event T)} {s : State D T} {e : Event T} {t : State D T},
      Sound N evs (contents items s) → Step api s e t → Step (listApi N) (contents items s) e (contents items t) :=
    fun sound taken => step_contents doc sound taken
  refine ⟨run.simulate (contents items) (Sound N) base step_sound forward,?_,?_,?_⟩
  · exact run.simulate_events _ _ base step_sound forward
  · exact fun law => run.simulate_through _ _ base step_sound forward Iff.rfl
  · exact fun law => run.simulate_every _ _ base step_sound forward Iff.rfl
end

end Rtic.Sync.Channel
