import Rtic.Library.Behaviors
import Rtic.Library.WaitLine
import Rtic.Sync.ChannelResplit
import Rtic.Sync.ChannelWaiting
namespace Rtic.Sync.Channel
open Function Buckets Transition Behaviors Rtic.Common
open BoundedDeque (Documented listApi listApi_documented)
variable {D T : Type} {N : Nat}

-- How many steps a call of try_send, or of send after its first poll, still takes at most when it need not wait.
@[simp] def SenderPoint.stepsLeft : SenderPoint T → Nat
  | .waiting _ => 9
  | .unlink _ _ => 8
  | .takeSlot _ _ => 7
  | .giveBack _ _ _ => 6
  | .leave _ _ => 5
  | .tryQueue _ => 6
  | .tryClosed _ => 5
  | .tryClaim _ => 4
  | .write _ _ => 3
  | .publish _ _ => 2
  | .notify _ => 1
  | _ => 0

-- Likewise for the Receiver until it has given a slot back or woken a waiter, with so many slots left to drain.
@[simp] def ReceiverPoint.stepsLeft (undrained : Nat) : ReceiverPoint T → Nat
  | .read _ _ => 2
  | .giveBack _ _ _ => 1
  | .drain => 2*undrained+3
  | .drainRead _ => 2*undrained+4
  | .unqueue => 1
  | .wakeWaiter _ => 2
  | _ => 0

-- It is the turn of a Sender within a call, unless its future waits in the queue.
def Sender.Due (x : Sender T) : Prop := 0 < x.point.stepsLeft ∧ ∀ val, x.point = .waiting val → x.isQueued = false

-- The Receiver comes for a value, or is dropped.
def Event.fetches : Event T → Bool
  | .popped _ => true
  | .closing => true
  | _ => false

-- The Receiver goes on with what it has begun, and comes back to the values that are there, if only to drop the handle.
structure Takes {api : Deque D} {init : State D T} (b : Behavior (Step api) init) : Prop where
  receives : ∀ n, (b.state n).receiver.busy = true → b.Comes n (·.actor = none)
  takes : ∀ n, (b.state n).receiver.alive = true → api.isEmpty (b.state n).readyq = false → b.Comes n (·.fetches = true)

-- Senders go on when it is their turn.
structure Fair {api : Deque D} {init : State D T} (b : Behavior (Step api) init) : Prop extends Takes b where
  sends : ∀ n i, ((b.state n).sender i).Due → b.Comes n (·.actor = some i)

-- The call of Sender `i` is over.
def Ends (i : Nat) : Event T → Prop
  | .refused j _ _ => j = i
  | .sent j _ _ => j = i
  | .left j _ outcome => j = i ∧ outcome.slots = []
  | _ => False

-- The first that waits is taken out of the queue, if there is one.
def Event.serves : Event T → Bool
  | .gaveBack _ _ _ => true
  | .received _ _ _ => true
  | .unqueued _ _ => true
  | _ => false

-- A Sender's own step: its call is over or comes nearer to its end, and a slot that it has stays with it until it is
-- in readyq or given back.
structure Advances (i : Nat) (x : Sender T) (e : Event T) (y : Sender T) (readyq : List Nat) : Prop where
  nearer : Ends i e ∧ y.point = .idle ∨ y.Due ∧ y.point.stepsLeft < x.point.stepsLeft
  slot : x.slots ≠ [] → readyq ≠ [] ∨ (∃ slot handed, e = .gaveBack i slot handed) ∨ y.slots ≠ []

-- What a step does to the wait queue.
inductive QueueMoves (queue : List Nat) : Event T → List Nat → Prop where
  | kept {e : Event T} (idle : e.serves = true → queue = []) : QueueMoves queue e queue
  | joined (i : Nat) (waker : Waker) : QueueMoves queue (.queued i waker) (queue++[i])
  | left (i : Nat) (outcome : Outcome) : QueueMoves queue (.unlinked i outcome) (queue.erase i)
  | served {e : Event T} (serves : e.serves = true) (first : queue = i::rest) : QueueMoves queue e rest

section
variable {s t : State (List Nat) T} {e : Event T} {i : Nat} {x y : Sender T} {evs : List (Event T)}

theorem due_of {p : SenderPoint T} {c : Option Link} {f : Option Nat} (left : 0 < p.stepsLeft)
    (moving : ∀ val, p ≠ .waiting val) : (⟨p,c,f⟩ : Sender T).Due :=
  ⟨left,fun val here => absurd here (moving val)⟩

theorem local_nearer {api : Deque D} {u : State D T} (moves : Local api u i x e y) (due : x.Due) :
    Ends i e ∧ y.point = .idle ∨ y.Due ∧ y.point.stepsLeft < x.point.stepsLeft := by
  obtain ⟨left,turn⟩ := due
  cases moves with
  | tryCalled => cases left
  | sendCalled => cases left
  | asked => cases left
  | forgotten => cases left
  | queueBusy busy => exact .inl ⟨rfl,rfl⟩
  | isClosed closed => exact .inl ⟨rfl,rfl⟩
  | left =>
    rename_i val outcome c f
    cases outcome with
    | slot idx => exact .inr ⟨due_of (by simp [resume]) (by simp [resume]),by simp [resume]⟩
    | noReceiver => exact .inl ⟨⟨rfl,rfl⟩,rfl⟩
    | dropped => exact .inl ⟨⟨rfl,rfl⟩,rfl⟩
  | pollClosed future closed =>
    rcases future_cases future with rfl | rfl
    · cases left
    · exact .inr ⟨due_of (by simp) (by simp),by simp⟩
  | granted future alive popped =>
    rcases future_cases future with rfl | rfl
    · cases left
    · exact .inr ⟨due_of (by simp) (by simp),by simp⟩
  | denied future alive popped =>
    rcases future_cases future with rfl | rfl
    · cases left
    · exact .inr ⟨due_of (by simp) (by simp),by simp⟩
  | stillPending future alive queued =>
    rcases future_cases future with rfl | rfl
    · cases left
    · have out := turn _ rfl
      rw [isQueued_some,queued] at out
      cases out
  | _ => exact .inr ⟨due_of (by simp) (by simp),by simp⟩

theorem slots_kept (same : ∀ k, y.slots.count k = x.slots.count k) (held : x.slots ≠ []) : y.slots ≠ [] := by
  obtain ⟨k,member⟩ := List.exists_mem_of_ne_nil _ held
  have counted := List.count_pos_iff.mpr member
  rw [← same] at counted
  exact List.ne_nil_of_mem (List.count_pos_iff.mp counted)

-- A call that goes on by a step of its own.
theorem advances {p q : SenderPoint T} {c c' : Option Link} {f : Option Nat} (left : 0 < q.stepsLeft)
    (moving : ∀ val, q ≠ .waiting val) (less : q.stepsLeft < p.stepsLeft) {readyq : List Nat}
    (slot : p.slots ≠ [] → readyq ≠ [] ∨ q.slots ≠ []) : Advances i ⟨p,c,f⟩ e ⟨q,c',f⟩ readyq := by
  refine ⟨.inr ⟨due_of left moving,less⟩,fun held => ?_⟩
  cases f with
  | some k => exact .inr (.inr (List.cons_ne_nil _ _))
  | none => exact (slot held).imp_right .inr

theorem own_advances (sound : QueueSound s) (taken : Step (listApi N) s e t) (own : e.actor = some i)
    (due : (s.sender i).Due) : Advances i (s.sender i) e (t.sender i) t.readyq := by
  cases taken with
  | sends j here moves =>
    obtain rfl := Option.some.inj ((local_actor moves).symm.trans own)
    have same := (local_fits moves (sound.at_ here)).2.2
    simp only [here,update_self] at due ⊢
    exact ⟨local_nearer moves due,fun held => .inr (.inr (slots_kept same held))⟩
  | receives here moves => cases moves <;> cases own
  | tryClaimed here got =>
    cases own
    simp only [here,update_self]
    exact advances (by simp) nofun (by simp) nofun
  | tryFull here got =>
    cases own
    obtain ⟨_,rfl⟩ := sound.at_ here
    simp only [here,update_self]
    exact ⟨.inl ⟨rfl,rfl⟩,fun held => absurd rfl held⟩
  | claimed here future alive first some_ =>
    cases own
    have fits := sound.at_ here
    rcases future_cases future with rfl | rfl
    · rw [here] at due
      cases due.1
    · cases fits.1
  | queued here future alive full =>
    cases own
    have fits := sound.at_ here
    rcases future_cases future with rfl | rfl
    · rw [here] at due
      cases due.1
    · cases fits.1
  | unlinked here queued =>
    cases own
    simp only [here,update_self]
    exact advances (by simp) nofun (by simp) .inr
  | gaveBack here returned =>
    cases own
    simp only [here,update_self]
    exact ⟨.inr ⟨due_of (by simp) nofun,by simp⟩,fun _ => .inr (.inl ⟨_,_,rfl⟩)⟩
  | wrote here =>
    cases own
    simp only [here,update_self]
    exact advances (by simp) nofun (by simp) .inr
  | pushed here =>
    cases own
    simp only [here,update_self]
    exact advances (by simp) nofun (by simp) fun _ => .inl (by simp [BoundedDeque.listApi])
  | sent here =>
    cases own
    obtain ⟨_,rfl⟩ := sound.at_ here
    simp only [here,update_self]
    exact ⟨.inl ⟨rfl,rfl⟩,fun held => absurd rfl held⟩
  | cloned here =>
    cases own
    unfold Sender.Due at due
    rw [here] at due
    cases due.1
  | senderDropped here =>
    cases own
    rw [here] at due
    cases due.1
  | lastWoke here =>
    cases own
    rw [here] at due
    cases due.1
  | _ => cases own

theorem returned_moves {slot : Nat} {handed : Option (Nat × Waker)}
    (returned : returnFreeSlot (listApi N) s slot = some (handed,t)) (e : Event T) (serves : e.serves = true) :
    QueueMoves s.waitQueue e t.waitQueue := by
  rcases returnFreeSlot_cases returned with ⟨empty,_,rfl⟩ | ⟨j,rest,link,queue,_,_,rfl⟩
  · exact .kept fun _ => empty
  · exact .served serves queue

theorem step_moves (taken : Step (listApi N) s e t) : QueueMoves s.waitQueue e t.waitQueue := by
  cases taken with
  | sends i here moves => exact .kept (by cases moves <;> nofun)
  | receives here moves => exact .kept (by cases moves <;> nofun)
  | queued here future alive full => exact .joined _ _
  | unlinked here queued => exact .left _ _
  | gaveBack here returned =>
    rename_i slot handed u i val outcome c f
    have moves := returned_moves returned (.gaveBack i slot handed) rfl
    exact moves
  | received here returned =>
    rename_i slot handed u val origin
    have moves := returned_moves returned (.received slot val handed) rfl
    exact moves
  | unqueued here got =>
    obtain ⟨rest,link,queue,_,_,rfl⟩ := popWaiter_some got
    exact .served rfl queue
  | _ => exact .kept nofun

theorem step_unqueued (taken : Step (listApi N) s e t) (other : e.actor ≠ some i) (out : i ∉ s.waitQueue) :
    i ∉ t.waitQueue := by
  have moves := step_moves taken
  generalize s.waitQueue = queue,t.waitQueue = queue' at moves out ⊢
  cases moves with
  | kept idle => exact out
  | joined j waker =>
    rw [List.mem_append,not_or]
    refine ⟨out,fun last => other ?_⟩
    rw [List.mem_singleton.mp last]
    rfl
  | left j outcome => exact fun member => out (List.mem_of_mem_erase member)
  | served serves first =>
    subst first
    exact fun member => out (List.mem_cons_of_mem _ member)

-- Nobody gets before one that waits, and each that is served brings it nearer.
theorem step_waits (nodup : s.waitQueue.Nodup) (taken : Step (listApi N) s e t) (waits : i ∈ s.waitQueue) :
    i ∉ t.waitQueue ∨ i ∈ t.waitQueue ∧ t.waitQueue.idxOf i ≤ s.waitQueue.idxOf i ∧
      (e.serves = true → t.waitQueue.idxOf i < s.waitQueue.idxOf i) := by
  have moves := step_moves taken
  generalize s.waitQueue = queue,t.waitQueue = queue' at moves nodup waits ⊢
  cases moves with
  | kept idle => exact .inr ⟨waits,Nat.le_refl _,fun serves => absurd (idle serves) (List.ne_nil_of_mem waits)⟩
  | joined j waker =>
    have place : (queue++[j]).idxOf i = queue.idxOf i := List.idxOf_append_of_mem waits
    exact .inr ⟨List.mem_append_left _ waits,Nat.le_of_eq place,nofun⟩
  | left j outcome =>
    by_cases same : i = j
    · subst same
      exact .inl nodup.not_mem_erase
    · exact .inr ⟨(List.mem_erase_of_ne same).mpr waits,WaitLine.idxOf_erase_le same,nofun⟩
  | served serves first =>
    subst first
    rename_i j
    by_cases same : j = i
    · subst same
      exact .inl (List.nodup_cons.mp nodup).1
    · have less : queue'.idxOf i < (j::queue').idxOf i := by
        rw [List.idxOf_cons_ne _ same]
        exact Nat.lt_succ_self _
      exact .inr ⟨(List.mem_cons.mp waits).resolve_left (Ne.symm same),Nat.le_of_lt less,fun _ => less⟩

-- A Sender stands still while others take their steps.
theorem step_stands (sound : QueueSound s) (taken : Step (listApi N) s e t) (other : e.actor ≠ some i)
    (called : 0 < (s.sender i).point.stepsLeft) : (t.sender i).point = (s.sender i).point := by
  refine (step_point taken other).resolve_right fun ⟨_,new⟩ => ?_
  rw [sound.unused i (Nat.le_of_eq new.symm)] at called
  cases called

theorem due_stays (sound : QueueSound s) (after : QueueSound t) (taken : Step (listApi N) s e t)
    (other : e.actor ≠ some i) (due : (s.sender i).Due) :
    (t.sender i).Due ∧ (t.sender i).point = (s.sender i).point := by
  have same := step_stands sound taken other due.1
  refine ⟨⟨by rw [same]; exact due.1,fun val here => ?_⟩,same⟩
  have unqueued := due.2 val (same ▸ here)
  have out : i ∉ s.waitQueue := by
    rw [sound.linked,unqueued]
    exact Bool.false_ne_true
  have out := step_unqueued taken other out
  rw [after.linked] at out
  exact Bool.eq_false_iff.mpr out

theorem queued_called (fits : x.Fits) (queued : x.isQueued = true) : 0 < x.point.stepsLeft := by
  rcases x with ⟨p,c,f⟩
  cases p <;> simp_all [Sender.Fits]

-- One that waits stays within its call.
theorem step_called (sound : QueueSound s) (after : QueueSound t) (taken : Step (listApi N) s e t) (waits : i ∈ s.waitQueue) :
    0 < (t.sender i).point.stepsLeft := by
  have queued := (sound.linked i).mp waits
  by_cases still : i ∈ t.waitQueue
  · exact queued_called (after.fits i) ((after.linked i).mp still)
  · by_cases own : e.actor = some i
    · cases taken with
      | queued here future alive full => exact absurd (List.mem_append_left _ waits) still
      | unlinked here unpopped =>
        cases own
        simp
      | gaveBack here returned =>
        cases own
        have fits := sound.at_ here
        rw [here] at queued
        cases fits.2.1.symm.trans queued
      | received here returned => cases own
      | unqueued here got => cases own
      | _ => exact absurd waits still
    · rw [step_stands sound taken own (queued_called (sound.fits i) queued)]
      exact queued_called (sound.fits i) queued

-- A slot that a Sender has is not taken from it.
theorem step_holds (sound : QueueSound s) (taken : Step (listApi N) s e t) (other : e.actor ≠ some i)
    (held : (s.sender i).slots ≠ []) (called : 0 < (s.sender i).point.stepsLeft) : (t.sender i).slots ≠ [] := by
  have same := step_stands sound taken other called
  rcases (step_given sound taken other).2 with idle | given
  · rw [same] at idle
    rw [idle] at called
    cases called
  · unfold Sender.slots at held ⊢
    rw [given,same,List.append_assoc]
    simp only [ne_eq,List.append_eq_nil_iff,not_and] at held ⊢
    exact fun none_ _ => held none_

theorem held_due (fits : x.Fits) (held : x.slots ≠ []) : x.Due := by
  rcases x with ⟨p,c,f⟩
  cases p <;> simp_all [Sender.Fits,Sender.slots,SenderPoint.slots,Sender.Due]

-- The Receiver stands still while Senders take their steps.
theorem step_receiver (taken : Step (listApi N) s e t) (actor : e.actor = some i) : t.receiver = s.receiver := by
  cases taken with
  | receives here moves => cases moves <;> cases actor
  | gaveBack here returned =>
    obtain ⟨_,_,_,rfl⟩ := returnFreeSlot_rest returned
    rfl
  | registered here => cases actor
  | popped here got => cases actor
  | foundEmpty here got => cases actor
  | received here returned => cases actor
  | closing here => cases actor
  | drained here got => cases actor
  | drainEnded here got => cases actor
  | unqueued here got => cases actor
  | _ => rfl

theorem drained_actor (actor : e.actor = some i) : drainedSlots (evs++[e]) = drainedSlots evs := by
  have drains : e.drainedSlot = none := by cases e <;> first | rfl | cases actor
  rw [drainedSlots_snoc,drains]
  exact List.append_nil _

-- A drained slot is out of use for good.
theorem Sound.drained_le (sound : Sound N evs s) : (drainedSlots evs).length ≤ N%256 := by
  refine length_le fun k => ?_
  have bound := sound.bound k
  unfold occurrences at bound
  omega

-- While someone waits, what the Receiver has begun comes to the step that serves it.
theorem receiver_advances (after : Sound N (evs++[e]) t) (taken : Step (listApi N) s e t) (own : e.actor = none)
    (waits : s.waitQueue ≠ []) (begun : 0 < s.receiver.stepsLeft (N%256-(drainedSlots evs).length)) :
    e.serves = true ∨ 0 < t.receiver.stepsLeft (N%256-(drainedSlots (evs++[e])).length) ∧
      t.receiver.stepsLeft (N%256-(drainedSlots (evs++[e])).length) <
        s.receiver.stepsLeft (N%256-(drainedSlots evs).length) := by
  have bound := after.drained_le
  rw [drainedSlots_snoc] at bound ⊢
  cases taken with
  | sends i here moves => cases (local_actor moves).symm.trans own
  | receives here moves =>
    simp only [here] at begun ⊢
    cases moves with
    | dropped empty => exact absurd empty waits
    | read written => exact .inr ⟨by simp,by simp⟩
    | discarded written => exact .inr ⟨by simp,by simp [Event.drainedSlot]⟩
    | wokeWaiter => exact .inr ⟨by simp,by simp⟩
    | polled future => rcases awaiting_cases future with rfl | ⟨_,rfl⟩ <;> cases begun
    | recvDropped future => rcases awaiting_cases future with rfl | ⟨_,rfl⟩ <;> cases begun
    | _ => cases begun
  | registered here => simp [here] at begun
  | popped here got => simp [here] at begun
  | foundEmpty here got => simp [here] at begun
  | received here returned => exact .inl rfl
  | closing here => simp [here] at begun
  | drained here got =>
    simp only [Event.drainedSlot,Option.toList_some,List.length_append,List.length_singleton] at bound ⊢
    simp only [here,ReceiverPoint.stepsLeft]
    exact .inr ⟨by omega,by omega⟩
  | drainEnded here got => exact .inr ⟨by simp,by simp [here]⟩
  | unqueued here got => exact .inl rfl
  | _ => cases own

theorem step_begins {k : Nat} (taken : Step (listApi N) s e t) (fetches : e.fetches = true) : 0 < t.receiver.stepsLeft k := by
  cases taken with
  | sends i here moves => cases moves <;> cases fetches
  | receives here moves => cases moves <;> cases fetches
  | popped here got => simp
  | closing here => simp
  | _ => cases fetches

end

section
variable {init : State (List Nat) T} {b : Behavior (Step (listApi N)) init} {i j n : Nat}

-- The first that waits is taken out of the queue at last, or Sender `i` has left it.
def MovesUp (b : Behavior (Step (listApi N)) init) (i n : Nat) : Prop :=
  ∃ m, n ≤ m ∧ ((∃ e, b.event m = some e ∧ e.serves = true) ∨ i ∉ (b.state (m+1)).waitQueue)

theorem MovesUp.later {m : Nat} (later : n ≤ m) (moves : MovesUp b i m) : MovesUp b i n := by
  obtain ⟨k,last,outcome⟩ := moves
  exact ⟨k,Nat.le_trans later last,outcome⟩

theorem MovesUp.comes (comes : ∃ m, n ≤ m ∧ MovesUp b i m) : MovesUp b i n := by
  obtain ⟨m,later,moves⟩ := comes
  exact moves.later later

theorem MovesUp.serves {e : Event T} (here : b.event n = some e) (serves : e.serves = true) : MovesUp b i n :=
  ⟨n,Nat.le_refl n,.inl ⟨e,here,serves⟩⟩

theorem moved_or_waits : MovesUp b i n ∨ i ∈ (b.state (n+1)).waitQueue := by
  by_cases still : i ∈ (b.state (n+1)).waitQueue
  · exact .inr still
  · exact .inl ⟨n,Nat.le_refl n,.inr still⟩

def receiverLeft (N : Nat) (evs : List (Event T)) (s : State (List Nat) T) : Nat :=
  s.receiver.stepsLeft (N%256-(drainedSlots evs).length)

theorem begun_busy {p : ReceiverPoint T} {k : Nat} (begun : 0 < p.stepsLeft k) : p.busy = true := by
  cases p <;> first | rfl | cases begun

theorem every_served (base : Served N [] init) (n : Nat) : Served N (b.events n) (b.state n) :=
  b.guarded (Served N) base (fun served taken _ => step_served served taken) b.every_true n

-- What a Sender does leaves to the Receiver as much as before.
theorem sender_left {e : Event T} (here : b.event n = some e) (actor : e.actor = some j) :
    receiverLeft N (b.events (n+1)) (b.state (n+1)) = receiverLeft N (b.events n) (b.state n) := by
  unfold receiverLeft
  rw [b.events_some here,drained_actor actor,step_receiver (b.taken n e here) actor]

variable (takes : Takes b) (served : ∀ n, Served N (b.events n) (b.state n))
include takes served

-- The Receiver goes through with it.
theorem Takes.receiver_serves (waits : i ∈ (b.state n).waitQueue) (begun : 0 < receiverLeft N (b.events n) (b.state n)) :
    MovesUp b i n := by
  let near (evs : List (Event T)) (s : State (List Nat) T) (d : Nat) : Prop :=
    i ∈ s.waitQueue ∧ 0 < receiverLeft N evs s ∧ receiverLeft N evs s = d
  refine .comes (b.arrives (p:=(·.actor = none)) near ?_ ?_ ?_ ⟨waits,begun,rfl⟩)
  · exact fun m d ⟨_,begun,_⟩ => takes.receives m (begun_busy begun)
  · intro m d e here ⟨_,begun,same⟩
    cases own : e.actor with
    | none => exact .inl rfl
    | some j =>
      have stands := sender_left here own
      exact .inr (moved_or_waits.imp_right fun still => ⟨still,stands ▸ begun,stands.trans same⟩)
  · rintro m d e here ⟨waits,begun,rfl⟩ own
    have after := (served (m+1)).tracked.valid.sound
    rw [b.events_some here] at after
    have advanced := receiver_advances after (b.taken m e here) own (List.ne_nil_of_mem waits) begun
    rw [← b.events_some here] at advanced
    rcases advanced with serves | ⟨more,less⟩
    · exact .inl (.serves here serves)
    · exact moved_or_waits.imp_right fun still => ⟨_,less,still,more,rfl⟩

-- Receiver::drop lets all go that wait.
theorem Takes.shut_serves (waits : i ∈ (b.state n).waitQueue) (shut : (b.state n).receiver.alive = false) :
    MovesUp b i n := by
  have emptied := (served n).released.emptied
  refine takes.receiver_serves served waits ?_
  unfold receiverLeft
  cases here : (b.state n).receiver with
  | drain => simp
  | drainRead slot => simp
  | unqueue => simp
  | wakeWaiter waker => simp
  | dropped =>
    rw [emptied here] at waits
    cases waits
  | _ =>
    rw [here] at shut
    cases shut

-- A value that is ready is received or drained, and its slot given back.
theorem Takes.ready_serves (waits : i ∈ (b.state n).waitQueue) (ready : (b.state n).readyq ≠ []) : MovesUp b i n := by
  cases alive : (b.state n).receiver.alive with
  | false => exact takes.shut_serves served waits alive
  | true =>
    have some_ : (listApi N).isEmpty (b.state n).readyq = false := by simpa [listApi] using ready
    obtain ⟨m,later,_,moves | ⟨e,here,fetches⟩⟩ := b.meets (fun _ s => i ∈ s.waitQueue) waits
      (fun m e _ _ _ => .inr moved_or_waits) (takes.takes n alive some_)
    · exact moves.later later
    · rcases moved_or_waits with moves | still
      · exact moves.later later
      · exact (takes.receiver_serves served still (step_begins (b.taken m e here) fetches)).later (Nat.le_succ_of_le later)

variable (fair : Fair b)
omit takes
include fair

-- A slot that a Sender has comes to readyq, or is given back.
theorem Fair.holder_serves (waits : i ∈ (b.state n).waitQueue) (held : ((b.state n).sender j).slots ≠ []) :
    MovesUp b i n := by
  let near (_ : List (Event T)) (s : State (List Nat) T) (d : Nat) : Prop :=
    i ∈ s.waitQueue ∧ (s.sender j).slots ≠ [] ∧ (s.sender j).point.stepsLeft = d
  have sound (m : Nat) := (served m).tracked.valid.sound.queue
  have due (m : Nat) : ((b.state m).sender j).slots ≠ [] → ((b.state m).sender j).Due := held_due ((sound m).fits j)
  refine .comes (b.arrives (p:=(·.actor = some j)) near ?_ ?_ ?_ ⟨waits,held,rfl⟩)
  · exact fun m d ⟨_,held,_⟩ => fair.sends m j (due m held)
  · intro m d e here ⟨_,held,same⟩
    by_cases own : e.actor = some j
    · exact .inl own
    · have stands := step_stands (sound m) (b.taken m e here) own (due m held).1
      have holds := step_holds (sound m) (b.taken m e here) own held (due m held).1
      exact .inr (moved_or_waits.imp_right fun still => ⟨still,holds,by rw [stands]; exact same⟩)
  · rintro m d e here ⟨_,held,rfl⟩ own
    have advanced := own_advances (sound m) (b.taken m e here) own (due m held)
    rcases moved_or_waits with moves | still
    · exact .inl moves
    · rcases advanced.slot held with ready | ⟨slot,handed,rfl⟩ | kept
      · exact .inl ((fair.ready_serves served still ready).later (Nat.le_succ m))
      · exact .inl (.serves here rfl)
      · rcases advanced.nearer with ⟨_,idle⟩ | ⟨_,less⟩
        · have more := (due (m+1) kept).1
          rw [idle] at more
          cases more
        · exact .inr ⟨_,less,still,kept,rfl⟩

-- Wherever the first slot is, it comes to one that waits.
theorem Fair.queue_moves (some_ : 0 < N%256) (waits : i ∈ (b.state n).waitQueue) : MovesUp b i n := by
  have valid := (served n).tracked.valid
  have starved := valid.sound.queue.starved (List.ne_nil_of_mem waits)
  have once := valid.sound.slots 0
  rw [if_pos some_] at once
  unfold occurrences at once
  rw [starved,List.count_nil,Nat.zero_add] at once
  by_cases ready : (b.state n).readyq = []
  · rw [ready,List.count_nil,Nat.zero_add] at once
    by_cases held : (heldSlots (b.state n)).count 0 = 0
    · cases alive : (b.state n).receiver.alive with
      | false => exact fair.shut_serves served waits alive
      | true =>
        -- the Receiver is reading it
        rw [held,valid.undrained alive,List.count_nil] at once
        refine fair.receiver_serves served waits ?_
        unfold receiverLeft
        cases here : (b.state n).receiver with
        | read origin slot => simp
        | giveBack origin slot val => simp
        | _ =>
          rw [here] at once
          cases once
    · have member : 0 ∈ heldSlots (b.state n) := List.count_pos_iff.mp (Nat.pos_of_ne_zero held)
      obtain ⟨j,_,mine⟩ := List.mem_flatMap.mp member
      exact fair.holder_serves served (j:=j) waits (List.ne_nil_of_mem mine)
  · exact fair.ready_serves served waits ready

-- One that waits is popped at last, or its future is dropped; the call goes on then.
theorem Fair.leaves_queue (some_ : 0 < N%256) (waits : i ∈ (b.state n).waitQueue) :
    ∃ m, n ≤ m ∧ ∃ e, b.event m = some e ∧ i ∈ (b.state m).waitQueue ∧ i ∉ (b.state (m+1)).waitQueue := by
  let place (s : State (List Nat) T) : Nat := s.waitQueue.idxOf i
  have moves (m : Nat) {e : Event T} (here : b.event m = some e) :=
    step_waits (served m).tracked.valid.sound.queue.nodup (i:=i) (b.taken m e here)
  refine acts_arrive (fun m d => i ∈ (b.state m).waitQueue ∧ place (b.state m) ≤ d)
    (fun m => (∃ e, b.event m = some e ∧ e.serves = true) ∨ i ∉ (b.state (m+1)).waitQueue) ?_ ?_ ?_ ⟨waits,Nat.le_refl _⟩
  · exact fun m d ⟨waits,_⟩ => fair.queue_moves served some_ waits
  · intro m d near
    refine or_assoc.mp (b.moment (fun _ s => i ∈ s.waitQueue ∧ place s ≤ d) near fun e here => ?_)
    rcases moves m here near.1 with out | ⟨still,nearer,_⟩
    · exact .inl (.inl (.inr out))
    · exact .inr ⟨still,Nat.le_trans nearer near.2⟩
  · intro m d ⟨waits,near⟩ acts
    cases what : b.event m with
    | none =>
      rw [what,b.rests m what] at acts
      exact absurd waits (acts.resolve_left nofun)
    | some e =>
      rcases moves m what waits with out | ⟨still,_,less⟩
      · exact .inl ⟨e,rfl,waits,out⟩
      · obtain ⟨e',here,serves⟩ := acts.resolve_right (not_not_intro still)
        cases what.symm.trans here
        exact .inr ⟨_,Nat.lt_of_lt_of_le (less serves) near,still,Nat.le_refl _⟩

-- A call whose turn it is ends.
theorem Fair.due_ends (due : ((b.state n).sender i).Due) : b.Comes n (Ends i) := by
  have sound (m : Nat) := (served m).tracked.valid.sound.queue
  refine b.arrives (p:=(·.actor = some i)) (fun _ s d => (s.sender i).Due ∧ (s.sender i).point.stepsLeft = d)
    ?_ ?_ ?_ ⟨due,rfl⟩
  · exact fun m d ⟨due,_⟩ => fair.sends m i due
  · intro m d e here ⟨due,same⟩
    by_cases own : e.actor = some i
    · exact .inl own
    · obtain ⟨still,stands⟩ := due_stays (sound m) (sound (m+1)) (b.taken m e here) own due
      exact .inr (.inr ⟨still,by rw [stands]; exact same⟩)
  · rintro m d e here ⟨due,rfl⟩ own
    rcases (own_advances (sound m) (b.taken m e here) own due).nearer with ⟨ends,_⟩ | ⟨still,less⟩
    · exact .inl ⟨e,here,ends⟩
    · exact .inr ⟨_,less,still,rfl⟩

theorem Fair.ends (some_ : 0 < N%256) (called : 0 < ((b.state n).sender i).point.stepsLeft) : b.Comes n (Ends i) := by
  have sound (m : Nat) := (served m).tracked.valid.sound.queue
  have due (m : Nat) (called : 0 < ((b.state m).sender i).point.stepsLeft) (out : i ∉ (b.state m).waitQueue) :
      ((b.state m).sender i).Due := by
    rw [(sound m).linked,Bool.not_eq_true] at out
    exact ⟨called,fun _ _ => out⟩
  by_cases waits : i ∈ (b.state n).waitQueue
  · obtain ⟨m,later,e,here,waits,out⟩ := fair.leaves_queue served some_ waits
    have called := step_called (sound m) (sound (m+1)) (b.taken m e here) waits
    exact (fair.due_ends served (due (m+1) called out)).later (Nat.le_succ_of_le later)
  · exact fair.due_ends served (due n called waits)

end

section
variable {api : Deque D} {items : D → List Nat} (doc : Documented api N items)
include doc

theorem contents_served : Served N [] (contents items (initial api N : State D T)) := by
  rw [initial_contents doc]
  exact initial_served

-- A behavior over any documented deque is one over lists.
def listed (b : Behavior (Step api) (initial api N : State D T)) :
    Behavior (Step (listApi N)) (contents items (initial api N : State D T)) :=
  b.simulate (contents items) (Served N) (contents_served doc) step_served
    fun served taken => step_contents doc served.tracked.valid.sound taken

variable {b : Behavior (Step api) (initial api N : State D T)}

theorem Takes.listed (takes : Takes b) : Takes (listed doc b) := by
  refine ⟨takes.receives,fun n alive ready => takes.takes n alive ?_⟩
  rw [doc.isEmpty]
  exact ready

-- No call of try_send or send waits for ever.
theorem send_ends (some_ : 0 < N%256) (fair : Fair b) (n i : Nat)
    (called : 0 < ((b.state n).sender i).point.stepsLeft) : b.Comes n (Ends i) := by
  have fair' : Fair (listed doc b) := ⟨fair.toTakes.listed doc,fair.sends⟩
  exact fair'.ends (every_served (contents_served doc)) some_ called
end

-- The only slot passes from a value that is received to a Sender that waits for it.
def sendsTwice : Behavior (Step (listApi 1)) (initial (listApi 1) 1 : State (List Nat) Nat) :=
  .after (.sendCalled 0 41) (.sends 0 rfl .sendCalled) <|
  .after (.claimed 0 0) (.claimed rfl rfl rfl rfl rfl) <|
  .after (.unlinked 0 (.slot 0)) (.sends 0 rfl (.nothingLinked nofun)) <|
  .after (.nothingLeft 0) (.sends 0 rfl .nothingLeft) <|
  .after (.left 0 41 (.slot 0)) (.sends 0 rfl .left) <|
  .after (.wrote 0 0 41) (.wrote rfl) <|
  .after (.pushed 0 0 41) (.pushed rfl) <|
  .after (.sent 0 41 none) (.sent rfl) <|
  .after (.sendCalled 0 42) (.sends 0 rfl .sendCalled) <|
  .after (.queued 0 ⟨2,0⟩) (.queued rfl rfl rfl (.inr rfl)) <|
  .after .tryRecvCalled (.receives rfl .tryRecvCalled) <|
  .after (.popped 0) (.popped rfl rfl) <|
  .after (.slotRead 0 41) (.receives rfl (.read rfl)) <|
  .after (.received 0 41 (some (0,⟨2,0⟩))) (.received rfl rfl) <|
  .after (.granted 0 0) (.sends 0 rfl (.granted rfl rfl rfl)) <|
  .after (.unlinked 0 (.slot 0)) (.sends 0 rfl (.nothingLinked nofun)) <|
  .after (.nothingLeft 0) (.sends 0 rfl .nothingLeft) <|
  .after (.left 0 42 (.slot 0)) (.sends 0 rfl .left) <|
  .after (.wrote 0 0 42) (.wrote rfl) <|
  .after (.pushed 0 0 42) (.pushed rfl) <|
  .after (.sent 0 42 none) (.sent rfl) <|
  .after .tryRecvCalled (.receives rfl .tryRecvCalled) <|
  .after (.popped 0) (.popped rfl rfl) <|
  .after (.slotRead 0 42) (.receives rfl (.read rfl)) <|
  .after (.received 0 42 none) (.received rfl rfl) (.rest _)

theorem sendsTwice_handles (n : Nat) : (sendsTwice.state n).handles = 1 := by
  match n with
  | 0 | 1 | 2 | 3 | 4 | 5 | 6 | 7 | 8 | 9 | 10 | 11 | 12 | 13 | 14 | 15 | 16 | 17 | 18 | 19 | 20 | 21 | 22 | 23 | 24 => rfl
  | n+25 => rfl

theorem sendsTwice_idle (n : Nat) (late : 21 ≤ n) : (sendsTwice.state n).sender 0 = idle ∧
    (25 ≤ n → (sendsTwice.state n).receiver = .idle) ∧ (23 ≤ n → (sendsTwice.state n).readyq = []) := by
  obtain ⟨k,rfl⟩ := Nat.exists_eq_add_of_le' late
  match k with
  | 0 | 1 => exact ⟨rfl,by omega,by omega⟩
  | 2 | 3 => exact ⟨rfl,by omega,fun _ => rfl⟩
  | k+4 => exact ⟨rfl,fun _ => rfl,fun _ => rfl⟩

theorem sendsTwice_takes : Takes sendsTwice := by
  refine ⟨fun n busy => ?_,fun n alive ready => ?_⟩
  · refine ⟨24,?_,_,rfl,rfl⟩
    by_contra late
    rw [(sendsTwice_idle n (by omega)).2.1 (by omega)] at busy
    cases busy
  · refine ⟨22,?_,_,rfl,rfl⟩
    by_contra late
    rw [(sendsTwice_idle n (by omega)).2.2 (by omega)] at ready
    cases ready

theorem sendsTwice_fair : Fair sendsTwice := by
  refine ⟨sendsTwice_takes,fun n i due => ?_⟩
  have called := due.1
  by_cases first : i = 0
  · subst first
    refine ⟨20,?_,_,rfl,rfl⟩
    by_contra late
    rw [(sendsTwice_idle n (by omega)).1] at called
    cases called
  · have beyond : (sendsTwice.state n).handles ≤ i := by
      rw [sendsTwice_handles]
      exact Nat.pos_of_ne_zero first
    rw [(every_served initial_served n).tracked.valid.sound.queue.unused i beyond] at called
    cases called

-- At moment 10 the second value waits.
theorem sendsTwice_ends : sendsTwice.Comes 10 (Ends 0) :=
  send_ends (listApi_documented 1) (by decide) sendsTwice_fair 10 0 (by decide)

end Rtic.Sync.Channel
