import Rtic.Sync.ChannelProgress
import Rtic.Sync.ChannelWaking
namespace Rtic.Sync.Channel
open Function Transition Behaviors Rtic.Common
open BoundedDeque (Documented listApi listApi_documented)
variable {D T : Type} {N : Nat}

def Event.takesReady : Event T → Bool
  | .popped _ => true
  | .drained _ => true
  | _ => false

-- What a step does to readyq.
inductive ReadyMoves (s : State (List Nat) T) : Event T → State (List Nat) T → Prop where
  | kept {e : Event T} (quiet : e.takesReady = false) (same : t.readyq = s.readyq) : ReadyMoves s e t
  | pushed (i slot : Nat) (val : T) (last : t.readyq = s.readyq++[slot]) : ReadyMoves s (.pushed i slot val) t
  | popped (slot : Nat) (origin : Option Waker) (first : s.readyq = slot::t.readyq) (from_ : s.receiver = .pop origin)
      (here : t.receiver = .read origin slot) : ReadyMoves s (.popped slot) t
  | drained (slot : Nat) (last : s.readyq = t.readyq++[slot]) (from_ : s.receiver = .drain)
      (here : t.receiver = .drainRead slot) : ReadyMoves s (.drained slot) t

-- The value comes out of the channel.
def Yields (slot : Nat) (val : T) (e : Event T) : Prop := (∃ handed, e = .received slot val handed) ∨ e = .discarded slot val

-- The Receiver has it in hand, or drains it.
inductive Holds (slot : Nat) (val : T) (s : State (List Nat) T) : Prop where
  | reading (origin : Option Waker) (here : s.receiver = .read origin slot) (written : s.slots slot = some val)
  | returning (origin : Option Waker) (here : s.receiver = .giveBack origin slot val)
  | draining (ready : slot ∈ s.readyq) (written : s.slots slot = some val)
      (here : s.receiver = .drain ∨ ∃ k, s.receiver = .drainRead k)
  | discarding (here : s.receiver = .drainRead slot) (written : s.slots slot = some val)

-- What the Receiver's own step does to where it stands.
inductive ReceiverMoves (s : State (List Nat) T) : ReceiverPoint T → Event T → ReceiverPoint T → Prop where
  | alone {p q : ReceiverPoint T} {e : Event T} (moves : ReceiverLocal (listApi N) s p e q) : ReceiverMoves s p e q
  | registered (waker : Waker) (woken : Option Waker) :
      ReceiverMoves s (.register waker) (.registered woken) (.pop (some waker))
  | popped (origin : Option Waker) (first : s.readyq = slot::rest) :
      ReceiverMoves s (.pop origin) (.popped slot) (.read origin slot)
  | foundEmpty (origin : Option Waker) (empty : s.readyq = []) :
      ReceiverMoves s (.pop origin) .foundEmpty (.checkClosed origin)
  | received (origin : Option Waker) (slot : Nat) (val : T) (handed : Option (Nat × Waker)) :
      ReceiverMoves s (.giveBack origin slot val) (.received slot val handed) .idle
  | closing : ReceiverMoves s .idle .closing .drain
  | drained (last : s.readyq = rest++[slot]) : ReceiverMoves s .drain (.drained slot) (.drainRead slot)
  | drainEnded (empty : s.readyq = []) : ReceiverMoves s .drain .drainEnded .unqueue
  | unqueued (j : Nat) (waker : Waker) : ReceiverMoves s .unqueue (.unqueued j waker) (.wakeWaiter waker)

section
variable {evs : List (Event T)} {s t : State (List Nat) T} {e : Event T} {i slot : Nat} {val : T}

theorem step_ready (taken : Step (listApi N) s e t) : ReadyMoves s e t := by
  cases taken with
  | sends i here moves => exact .kept (by cases moves <;> rfl) rfl
  | receives here moves => exact .kept (by cases moves <;> rfl) rfl
  | gaveBack here returned =>
    obtain ⟨_,_,_,rfl⟩ := returnFreeSlot_rest returned
    exact .kept rfl rfl
  | received here returned =>
    obtain ⟨_,_,_,rfl⟩ := returnFreeSlot_rest returned
    exact .kept rfl rfl
  | unqueued here got =>
    obtain ⟨_,_,_,_,_,rfl⟩ := popWaiter_some got
    exact .kept rfl rfl
  | pushed here => exact .pushed _ _ _ rfl
  | popped here got => exact .popped _ _ (popFront_list got) here rfl
  | foundEmpty here got =>
    obtain ⟨before,after⟩ := popFront_nil got
    exact .kept rfl (after.trans before.symm)
  | drained here got => exact .drained _ (popBack_list got) here rfl
  | drainEnded here got =>
    obtain ⟨before,after⟩ := popBack_nil got
    exact .kept rfl (after.trans before.symm)
  | _ => exact .kept rfl rfl

-- A value stays in its slot until the Receiver has read it.
theorem step_slot (valid : Valid N evs s) (taken : Step (listApi N) s e t)
    (there : slot ∈ s.readyq ∨ s.receiver.reads = some slot) : t.slots slot = s.slots slot := by
  cases taken with
  | wrote here =>
    rename_i i k w c f
    refine update_of_ne ?_ _ _
    rintro rfl
    have held : slot ∈ (s.sender i).slots := by simp [here,Sender.slots,SenderPoint.slots]
    obtain ⟨notReady,notReceiver,notDrained,_⟩ := valid.sound.sender_apart held
    rcases there with ready | reads
    · exact notReady ready
    · exact (valid.stored.reads_held reads).elim notReceiver notDrained
  | gaveBack here returned =>
    obtain ⟨_,_,_,rfl⟩ := returnFreeSlot_rest returned
    rfl
  | received here returned =>
    obtain ⟨_,_,_,rfl⟩ := returnFreeSlot_rest returned
    rfl
  | unqueued here got =>
    obtain ⟨_,_,_,_,_,rfl⟩ := popWaiter_some got
    rfl
  | _ => rfl

-- What Senders do leaves it there.
theorem step_ready_kept (taken : Step (listApi N) s e t) (quiet : e.takesReady = false) (ready : slot ∈ s.readyq) :
    slot ∈ t.readyq ∧ t.readyq.idxOf slot = s.readyq.idxOf slot := by
  cases step_ready taken with
  | kept quiet same =>
    rw [same]
    exact ⟨ready,rfl⟩
  | pushed i k w last =>
    rw [last]
    exact ⟨List.mem_append_left _ ready,List.idxOf_append_of_mem ready⟩
  | popped k origin first from_ here => cases quiet
  | drained k last from_ here => cases quiet

theorem sender_quiet (actor : e.actor = some i) : e.takesReady = false := by
  cases e <;> first | rfl | cases actor

theorem sender_holds (valid : Valid N evs s) (taken : Step (listApi N) s e t) (actor : e.actor = some i)
    (holds : Holds slot val s) : Holds slot val t := by
  have same := step_receiver taken actor
  cases holds with
  | reading origin here written =>
    have slots : t.slots slot = s.slots slot := step_slot valid taken (.inr (by rw [here]; rfl))
    exact .reading origin (same.trans here) (slots.trans written)
  | returning origin here => exact .returning origin (same.trans here)
  | draining ready written here =>
    have slots := step_slot valid taken (.inl ready)
    refine .draining (step_ready_kept taken (sender_quiet actor) ready).1 (slots.trans written) ?_
    rw [same]
    exact here
  | discarding here written =>
    have slots : t.slots slot = s.slots slot := step_slot valid taken (.inr (by rw [here]; rfl))
    exact .discarding (same.trans here) (slots.trans written)

theorem receiver_moves (taken : Step (listApi N) s e t) (own : e.actor = none) :
    ReceiverMoves (N:=N) s s.receiver e t.receiver := by
  cases taken with
  | sends i here moves => cases (local_actor moves).symm.trans own
  | receives here moves =>
    rw [here]
    exact .alone moves
  | registered here =>
    rw [here]
    exact .registered _ _
  | popped here got =>
    rw [here]
    exact .popped _ (popFront_list got)
  | foundEmpty here got =>
    rw [here]
    exact .foundEmpty _ (popFront_nil got).1
  | received here returned =>
    rw [here]
    exact .received _ _ _ _
  | closing here =>
    rw [here]
    exact .closing
  | drained here got =>
    rw [here]
    exact .drained (popBack_list got)
  | drainEnded here got =>
    rw [here]
    exact .drainEnded (popBack_nil got).1
  | unqueued here got =>
    rw [here]
    exact .unqueued _ _
  | _ => cases own

-- What the Receiver does next with it.
theorem own_holds (valid : Valid N evs s) (after : Sound N (evs++[e]) t) (taken : Step (listApi N) s e t)
    (own : e.actor = none) (holds : Holds slot val s) : Yields slot val e ∨ Holds slot val t ∧
      t.receiver.stepsLeft (N%256-(drainedSlots (evs++[e])).length) <
        s.receiver.stepsLeft (N%256-(drainedSlots evs).length) := by
  have bound := after.drained_le
  have moves := receiver_moves taken own
  rw [drainedSlots_snoc] at bound ⊢
  cases holds with
  | reading origin here written =>
    rw [here] at moves ⊢
    generalize there : t.receiver = q at moves ⊢
    cases moves with
    | alone moves =>
      cases moves with
      | read found =>
        cases written.symm.trans found
        exact .inr ⟨.returning origin there,by simp⟩
      | polled future => cases future
      | recvDropped future => cases future
  | returning origin here =>
    rw [here] at moves ⊢
    generalize there : t.receiver = q at moves ⊢
    cases moves with
    | alone moves =>
      cases moves with
      | polled future => cases future
      | recvDropped future => cases future
    | received _ _ _ handed => exact .inl (.inl ⟨handed,rfl⟩)
  | discarding here written =>
    rw [here] at moves ⊢
    generalize there : t.receiver = q at moves ⊢
    cases moves with
    | alone moves =>
      cases moves with
      | discarded found =>
        cases written.symm.trans found
        exact .inl (.inr rfl)
      | polled future => cases future
      | recvDropped future => cases future
  | draining ready written here =>
    have slots := step_slot valid taken (.inl ready)
    rcases here with here | ⟨k,here⟩
    · rw [here] at moves ⊢
      generalize there : t.receiver = q at moves ⊢
      cases moves with
      | alone moves =>
        cases moves with
        | polled future => cases future
        | recvDropped future => cases future
      | drainEnded empty =>
        rw [empty] at ready
        cases ready
      | drained last =>
        rename_i rest k
        right
        simp only [Event.drainedSlot,Option.toList_some,List.length_append,List.length_singleton,
          ReceiverPoint.stepsLeft] at bound ⊢
        refine ⟨?_,by omega⟩
        by_cases same : slot = k
        · subst same
          exact .discarding there (slots.trans written)
        · have still : slot ∈ t.readyq := by
            cases step_ready taken with
            | kept quiet same => cases quiet
            | drained k last from_ here =>
              rw [last,List.mem_append,List.mem_singleton] at ready
              exact ready.resolve_right same
          exact .draining still (slots.trans written) (.inr ⟨k,there⟩)
    · rw [here] at moves ⊢
      generalize there : t.receiver = q at moves ⊢
      cases moves with
      | alone moves =>
        cases moves with
        | discarded found =>
          have still := (step_ready_kept taken rfl ready).1
          exact .inr ⟨.draining still (slots.trans written) (.inl there),by simp [Event.drainedSlot]⟩
        | polled future => cases future
        | recvDropped future => cases future

theorem Holds.busy (holds : Holds slot val s) : s.receiver.busy = true := by
  cases holds with
  | reading origin here written => rw [here]; rfl
  | returning origin here => rw [here]; rfl
  | draining ready written here => rcases here with here | ⟨k,here⟩ <;> rw [here] <;> rfl
  | discarding here written => rw [here]; rfl

-- A value in readyq, while the Receiver lives.
structure Ready (slot : Nat) (val : T) (s : State (List Nat) T) : Prop where
  ready : slot ∈ s.readyq
  written : s.slots slot = some val
  alive : s.receiver.alive = true

theorem step_fetched (valid : Valid N evs s) (taken : Step (listApi N) s e t) (fetches : e.fetches = true)
    (ready : Ready slot val s) : Holds slot val t ∨ Ready slot val t ∧ t.readyq.idxOf slot < s.readyq.idxOf slot := by
  have written := (step_slot valid taken (.inl ready.ready)).trans ready.written
  cases taken with
  | sends i here moves => cases moves <;> cases fetches
  | receives here moves => cases moves <;> cases fetches
  | popped here got =>
    have member := ready.ready
    rw [popFront_list got] at member ⊢
    rename_i k q origin
    by_cases same : k = slot
    · subst same
      exact .inl (.reading origin rfl written)
    · rw [List.idxOf_cons_ne _ same]
      exact .inr ⟨⟨(List.mem_cons.mp member).resolve_left (Ne.symm same),written,rfl⟩,Nat.lt_succ_self _⟩
  | closing here => exact .inl (.draining ready.ready written (.inl rfl))
  | _ => cases fetches

theorem step_unfetched (valid : Valid N evs s) (taken : Step (listApi N) s e t) (other : e.fetches = false)
    (ready : Ready slot val s) : Ready slot val t ∧ t.readyq.idxOf slot = s.readyq.idxOf slot := by
  have written := (step_slot valid taken (.inl ready.ready)).trans ready.written
  have alive : t.receiver.alive = true := by
    rw [← Bool.not_eq_false]
    intro shut
    rcases step_shutting taken shut with before | ⟨_,rfl,_⟩
    · cases before.symm.trans ready.alive
    · cases other
  have quiet : e.takesReady = false := by
    cases step_ready taken with
    | kept quiet same => exact quiet
    | pushed i k w last => rfl
    | popped k origin first from_ here => cases other
    | drained k last from_ here =>
      rw [here] at alive
      cases alive
  obtain ⟨still,place⟩ := step_ready_kept taken quiet ready.ready
  exact ⟨⟨still,written,alive⟩,place⟩

theorem step_pushed (valid : Valid N evs s) (taken : Step (listApi N) s (.pushed i slot val) t)
    (alive : s.receiver.alive = true) : Ready slot val t := by
  cases taken with
  | sends j here moves => cases moves
  | receives here moves => cases moves
  | pushed here =>
    refine ⟨?_,(valid.stored.published i val slot (by rw [here])).1,alive⟩
    simp [listApi]

end

section
variable {init : State (List Nat) T} {b : Behavior (Step (listApi N)) init} {n slot : Nat} {val : T}
  (takes : Takes b) (served : ∀ n, Served N (b.events n) (b.state n))
include takes served

theorem Takes.holds_yields (holds : Holds slot val (b.state n)) : b.Comes n (Yields slot val) := by
  let near (evs : List (Event T)) (s : State (List Nat) T) (d : Nat) : Prop :=
    Holds slot val s ∧ receiverLeft N evs s = d
  refine b.arrives (p:=(·.actor = none)) near ?_ ?_ ?_ ⟨holds,rfl⟩
  · exact fun m d ⟨holds,_⟩ => takes.receives m holds.busy
  · intro m d e here ⟨holds,same⟩
    cases own : e.actor with
    | none => exact .inl rfl
    | some j =>
      have still := sender_holds (served m).tracked.valid (b.taken m e here) own holds
      exact .inr (.inr ⟨still,(sender_left here own).trans same⟩)
  · rintro m d e here ⟨holds,rfl⟩ own
    have after := (served (m+1)).tracked.valid.sound
    rw [b.events_some here] at after
    have advanced := own_holds (served m).tracked.valid after (b.taken m e here) own holds
    rw [← b.events_some here] at advanced
    exact advanced.imp (fun yields => ⟨e,here,yields⟩) fun ⟨still,less⟩ => ⟨_,less,still,rfl⟩

-- A value in readyq comes out of it in its turn, or when the Receiver is dropped.
theorem Takes.ready_yields (ready : Ready slot val (b.state n)) : b.Comes n (Yields slot val) := by
  let near (_ : List (Event T)) (s : State (List Nat) T) (d : Nat) : Prop := Ready slot val s ∧ s.readyq.idxOf slot = d
  have valid (m : Nat) := (served m).tracked.valid
  obtain ⟨m,later,holds⟩ : ∃ m, n ≤ m ∧ Holds slot val (b.state (m+1)) := by
    refine b.arrives (p:=(·.fetches = true)) near ?_ ?_ ?_ ⟨ready,rfl⟩
    · intro m d ⟨ready,_⟩
      have some_ : (listApi N).isEmpty (b.state m).readyq = false := by
        simpa [listApi] using List.ne_nil_of_mem ready.ready
      exact takes.takes m ready.alive some_
    · intro m d e here ⟨ready,same⟩
      cases fetches : e.fetches with
      | true => exact .inl rfl
      | false =>
        obtain ⟨still,stands⟩ := step_unfetched (valid m) (b.taken m e here) fetches ready
        exact .inr (.inr ⟨still,stands.trans same⟩)
    · rintro m d e here ⟨ready,rfl⟩ fetches
      rcases step_fetched (valid m) (b.taken m e here) fetches ready with holds | ⟨still,less⟩
      · exact .inl holds
      · exact .inr ⟨_,less,still,rfl⟩
  exact (takes.holds_yields served holds).later (Nat.le_succ_of_le later)

end

-- Every value that is pushed before the Receiver's drop begins is received, or dropped with the Receiver.
theorem pushed_yields {api : Deque D} {items : D → List Nat} (doc : Documented api N items)
    {b : Behavior (Step api) (initial api N : State D T)} (takes : Takes b) (n i slot : Nat) (val : T)
    (pushed : b.event n = some (.pushed i slot val)) (alive : (b.state n).receiver.alive = true) :
    b.Comes (n+1) (Yields slot val) := by
  have served := every_served (b:=listed doc b) (contents_served doc)
  have step := (listed doc b).taken n (.pushed i slot val) pushed
  exact (takes.listed doc).ready_yields served (step_pushed (served n).tracked.valid step alive)

theorem sendsTwice_yields : sendsTwice.Comes 7 (Yields 0 41) :=
  pushed_yields (listApi_documented 1) sendsTwice_takes 6 0 0 41 rfl rfl

-- There is something that recv can return.
def Answerable (s : State (List Nat) T) : Prop := s.readyq ≠ [] ∨ s.numSenders = 0

-- A call of try_recv, or a poll of recv, that finds it, with the steps that it still takes.
inductive Finding (s : State (List Nat) T) : Nat → Prop where
  | registering (waker : Waker) (here : s.receiver = .register waker) (due : Answerable s) : Finding s 4
  | popping (origin : Option Waker) (here : s.receiver = .pop origin) (due : Answerable s) : Finding s 3
  | reading (origin : Option Waker) (slot : Nat) (here : s.receiver = .read origin slot) : Finding s 2
  | returning (origin : Option Waker) (slot : Nat) (val : T) (here : s.receiver = .giveBack origin slot val) : Finding s 1
  | checking (origin : Option Waker) (here : s.receiver = .checkClosed origin) (closed : s.numSenders = 0) : Finding s 1

-- The recv that waits is polled, or dropped.
def Resumes (e : Event T) : Prop := e.polls = true ∨ e = .recvDropped

def Answered (e : Event T) : Prop := (∃ slot val handed, e = .received slot val handed) ∨ e = .noSender

section
variable {evs : List (Event T)} {s t : State (List Nat) T} {e : Event T} {i d : Nat} {waker : Waker}

theorem step_closed (counted : Counted evs s) (sound : QueueSound s) (taken : Step (listApi N) s e t)
    (none_ : s.numSenders = 0) : t.numSenders = 0 := by
  cases taken with
  | cloned here =>
    rename_i i
    have out := counted.none_left sound none_ i
    rw [here] at out
    cases out
  | senderDropped here => exact Nat.sub_eq_zero_of_le (Nat.le_trans (Nat.le_of_eq none_) (Nat.zero_le _))
  | gaveBack here returned =>
    obtain ⟨_,_,_,rfl⟩ := returnFreeSlot_rest returned
    exact none_
  | received here returned =>
    obtain ⟨_,_,_,rfl⟩ := returnFreeSlot_rest returned
    exact none_
  | unqueued here got =>
    obtain ⟨_,_,_,_,_,rfl⟩ := popWaiter_some got
    exact none_
  | _ => exact none_

-- It is still there until the Receiver takes it.
theorem step_remains (counted : Counted evs s) (sound : QueueSound s) (taken : Step (listApi N) s e t)
    (quiet : e.takesReady = false) (due : Answerable s) : Answerable t := by
  refine due.imp (fun filled => ?_) (step_closed counted sound taken)
  obtain ⟨k,member⟩ := List.exists_mem_of_ne_nil _ filled
  exact List.ne_nil_of_mem (step_ready_kept taken quiet member).1

theorem sender_finding (counted : Counted evs s) (sound : QueueSound s) (taken : Step (listApi N) s e t)
    (actor : e.actor = some i) (finding : Finding s d) : Finding t d := by
  have same := step_receiver taken actor
  have remains := step_remains counted sound taken (sender_quiet actor)
  cases finding with
  | registering waker here due => exact .registering waker (same.trans here) (remains due)
  | popping origin here due => exact .popping origin (same.trans here) (remains due)
  | reading origin slot here => exact .reading origin slot (same.trans here)
  | returning origin slot val here => exact .returning origin slot val (same.trans here)
  | checking origin here closed => exact .checking origin (same.trans here) (step_closed counted sound taken closed)

theorem own_finding (counted : Counted evs s) (sound : QueueSound s) (taken : Step (listApi N) s e t)
    (own : e.actor = none) (finding : Finding s d) : Answered e ∨ ∃ d' < d, Finding t d' := by
  have moves := receiver_moves taken own
  have remains := step_remains counted sound taken
  have closed' := step_closed counted sound taken
  generalize there : t.receiver = q at moves
  cases finding with
  | registering waker here due =>
    rw [here] at moves
    cases moves with
    | alone moves =>
      cases moves with
      | polled future => cases future
      | recvDropped future => cases future
    | registered waker woken => exact .inr ⟨3,by decide,.popping _ there (remains rfl due)⟩
  | popping origin here due =>
    rw [here] at moves
    cases moves with
    | alone moves =>
      cases moves with
      | polled future => cases future
      | recvDropped future => cases future
    | popped origin first => exact .inr ⟨2,by decide,.reading _ _ there⟩
    | foundEmpty origin empty =>
      have closed := due.resolve_left (not_not_intro empty)
      exact .inr ⟨1,by decide,.checking _ there (closed' closed)⟩
  | reading origin slot here =>
    rw [here] at moves
    cases moves with
    | alone moves =>
      cases moves with
      | read found => exact .inr ⟨1,by decide,.returning _ _ _ there⟩
      | polled future => cases future
      | recvDropped future => cases future
  | returning origin slot val here =>
    rw [here] at moves
    cases moves with
    | alone moves =>
      cases moves with
      | polled future => cases future
      | recvDropped future => cases future
    | received _ _ _ handed => exact .inl (.inl ⟨_,_,_,rfl⟩)
  | checking origin here closed =>
    rw [here] at moves
    cases moves with
    | alone moves =>
      cases moves with
      | noSender closed => exact .inl (.inr rfl)
      | empty alive => exact absurd closed alive
      | polled future => cases future
      | recvDropped future => cases future

theorem Finding.busy (finding : Finding s d) : s.receiver.busy = true := by
  cases finding with
  | registering waker here due => rw [here]; rfl
  | popping origin here due => rw [here]; rfl
  | reading origin slot here => rw [here]; rfl
  | returning origin slot val here => rw [here]; rfl
  | checking origin here closed => rw [here]; rfl

theorem step_polled (counted : Counted evs s) (sound : QueueSound s) (taken : Step (listApi N) s e t)
    (pending : s.receiver = .pending waker) (due : Answerable s) (polls : e.polls = true) : Finding t 4 := by
  have own : e.actor = none := by cases e <;> first | rfl | cases polls
  have quiet : e.takesReady = false := by cases e <;> first | rfl | cases polls
  have moves := receiver_moves taken own
  rw [pending] at moves
  generalize there : t.receiver = q at moves
  cases moves with
  | alone moves =>
    cases moves with
    | polled future => exact .registering _ there (step_remains counted sound taken quiet due)
    | recvDropped future => cases polls

theorem step_pending_or (taken : Step (listApi N) s e t) (pending : s.receiver = .pending waker) :
    Resumes e ∨ t.receiver = .pending waker ∧ e.polls = false ∧ e.takesReady = false := by
  cases own : e.actor with
  | none =>
    have moves := receiver_moves taken own
    rw [pending] at moves
    generalize t.receiver = q at moves ⊢
    cases moves with
    | alone moves =>
      cases moves with
      | polled future => exact .inl (.inl rfl)
      | recvDropped future => exact .inl (.inr rfl)
  | some i =>
    have unpolled : e.polls = false := by cases e <;> first | rfl | cases own
    exact .inr ⟨(step_receiver taken own).trans pending,unpolled,sender_quiet own⟩

end

-- The Receiver goes on with what it has begun, and so does a Sender that is about to wake it.
structure Acts {api : Deque D} {init : State D T} (b : Behavior (Step api) init) : Prop where
  receives : ∀ n, (b.state n).receiver.busy = true → b.Comes n (·.actor = none)
  wakes : ∀ n i, ((b.state n).sender i).point.wakeDue = true → b.Comes n (·.actor = some i)

-- A recv that has been woken is polled again, or dropped.
structure Answers {api : Deque D} {init : State D T} (b : Behavior (Step api) init) : Prop extends Acts b where
  polls : ∀ n waker, (b.state n).receiver = .pending waker → Woken (b.events n) waker → b.Comes n Resumes

section
variable {init : State (List Nat) T} {b : Behavior (Step (listApi N)) init} {n i d : Nat} {waker : Waker} {e : Event T}
  (answers : Answers b) (known : ∀ n, Closing N (b.events n) (b.state n) ∧ Watched (b.events n) (b.state n))
include answers known

theorem Answers.finding_answered (finding : Finding (b.state n) d) : b.Comes n Answered := by
  have counted (m : Nat) := (known m).1.counted
  have sound (m : Nat) := (known m).1.tracked.valid.sound.queue
  refine b.arrives (p:=(·.actor = none)) (fun _ s d => Finding s d) ?_ ?_ ?_ finding
  · exact fun m d finding => answers.receives m finding.busy
  · intro m d e here finding
    cases own : e.actor with
    | none => exact .inl rfl
    | some i => exact .inr (.inr (sender_finding (counted m) (sound m) (b.taken m e here) own finding))
  · intro m d e here finding own
    exact (own_finding (counted m) (sound m) (b.taken m e here) own finding).imp_left fun answered => ⟨e,here,answered⟩

-- What wakes the registered waker wakes the one that waits, if that has not been woken already.
theorem Answers.woken_resumes (pending : (b.state n).receiver = .pending waker) (here : b.event n = some e)
    (wakes : e.wakes = (b.state n).receiverWaker.waker) : b.Comes n Resumes := by
  rcases step_pending_or (b.taken n e here) pending with resumes | ⟨still,unpolled,_⟩
  · exact ⟨n,Nat.le_refl n,e,here,resumes⟩
  · have woken : Woken (b.events (n+1)) waker := by
      rw [b.events_some here,woken_snoc unpolled,wakes]
      exact ((known n).2.registered waker (by rw [pending]; rfl)).symm
    exact (answers.polls (n+1) waker still woken).later (Nat.le_succ n)

theorem Answers.due_resumes (pending : (b.state n).receiver = .pending waker)
    (due : ((b.state n).sender i).point.wakeDue = true) : b.Comes n Resumes := by
  have sound (m : Nat) := (known m).1.tracked.valid.sound.queue
  let awaits (_ : List (Event T)) (s : State (List Nat) T) : Prop :=
    s.receiver = .pending waker ∧ (s.sender i).point.wakeDue = true
  have keeps : ∀ m e, n ≤ m → b.event m = some e → awaits (b.events m) (b.state m) →
      e.actor = some i ∨ b.Comes m Resumes ∨ awaits (b.events (m+1)) (b.state (m+1)) := by
    intro m e _ here ⟨pending,due⟩
    rcases step_pending_or (b.taken m e here) pending with resumes | ⟨still,_⟩
    · exact .inr (.inl ⟨m,Nat.le_refl m,e,here,resumes⟩)
    · rcases step_due (sound m) (b.taken m e here) due with same | wakes
      · exact .inr (.inr ⟨still,by rw [same]; exact due⟩)
      · exact .inr (.inl (answers.woken_resumes known pending here wakes))
  obtain ⟨m,later,⟨pending,due⟩,resumes | ⟨e,here,own⟩⟩ := b.meets awaits ⟨pending,due⟩ keeps (answers.wakes n i due)
  · exact resumes.later later
  · exact (answers.woken_resumes known pending here (own_due (b.taken m e here) own due)).later later

-- A recv that waits is polled while there is still something for it, unless it is dropped before.
theorem Answers.due_answered (pending : (b.state n).receiver = .pending waker) (due : Answerable (b.state n)) :
    b.Comes n fun e => Answered e ∨ e = .recvDropped := by
  have counted (m : Nat) := (known m).1.counted
  have sound (m : Nat) := (known m).1.tracked.valid.sound.queue
  have coming : b.Comes n Resumes := by
    rcases (known n).2.noLostWake waker pending due with woken | ⟨i,val,here⟩ | ⟨i,here⟩
    · exact answers.polls n waker pending woken
    · exact answers.due_resumes known (i:=i) pending (by rw [here]; rfl)
    · exact answers.due_resumes known (i:=i) pending (by rw [here]; rfl)
  let awaits (_ : List (Event T)) (s : State (List Nat) T) : Prop := s.receiver = .pending waker ∧ Answerable s
  have keeps : ∀ m e, n ≤ m → b.event m = some e → awaits (b.events m) (b.state m) →
      Resumes e ∨ False ∨ awaits (b.events (m+1)) (b.state (m+1)) := by
    intro m e _ here ⟨pending,due⟩
    exact (step_pending_or (b.taken m e here) pending).imp_right fun ⟨still,_,quiet⟩ =>
      .inr ⟨still,step_remains (counted m) (sound m) (b.taken m e here) quiet due⟩
  obtain ⟨m,later,⟨pending,due⟩,stop | ⟨e,here,polls | dropped⟩⟩ := b.meets awaits ⟨pending,due⟩ keeps coming
  · exact stop.elim
  · have finding := step_polled (counted m) (sound m) (b.taken m e here) pending due polls
    obtain ⟨k,last,answer,what,answered⟩ := answers.finding_answered known finding
    exact ⟨k,by omega,answer,what,.inl answered⟩
  · exact ⟨m,later,e,here,.inr dropped⟩

end

theorem every_watched {api : Deque D} {items : D → List Nat} (doc : Documented api N items)
    (b : Behavior (Step api) (initial api N : State D T)) (n : Nat) :
    Closing N ((listed doc b).events n) ((listed doc b).state n) ∧
      Watched ((listed doc b).events n) ((listed doc b).state n) := by
  refine (listed doc b).guarded (fun evs s => Closing N evs s ∧ Watched evs s) ?_
    (fun both taken _ => ⟨step_closing both.1 taken,step_watched both.1.tracked.valid.sound.queue both.2 taken⟩)
    (listed doc b).every_true n
  rw [initial_contents doc]
  exact ⟨initial_closing,initial_watched⟩

-- A recv that waits while there is a value, or no Sender left, returns or is dropped.
theorem recv_answered {api : Deque D} {items : D → List Nat} (doc : Documented api N items)
    {b : Behavior (Step api) (initial api N : State D T)} (answers : Answers b) (n : Nat) (waker : Waker)
    (pending : (b.state n).receiver = .pending waker)
    (due : api.isEmpty (b.state n).readyq = false ∨ (b.state n).numSenders = 0) :
    b.Comes n fun e => Answered e ∨ e = .recvDropped := by
  have answers' : Answers (listed doc b) := ⟨⟨answers.receives,answers.wakes⟩,answers.polls⟩
  refine answers'.due_answered (every_watched doc b) pending (due.imp_left fun filled => ?_)
  rw [doc.isEmpty,List.isEmpty_eq_false_iff] at filled
  exact filled

-- A recv waits for the value of a try_send.
def awaitsValue : Behavior (Step (listApi 3)) (initial (listApi 3) 3 : State (List Nat) Nat) :=
  .after .recvCalled (.receives rfl .recvCalled) <|
  .after (.polled ⟨3,0⟩) (.receives rfl (.polled rfl)) <|
  .after (.registered none) (.registered rfl) <|
  .after .foundEmpty (.foundEmpty rfl rfl) <|
  .after .empty (.receives rfl (.empty (by decide))) <|
  .after (.tryCalled 0 51) (.sends 0 rfl .tryCalled) <|
  .after (.passed 0) (.sends 0 rfl (.queueEmpty rfl)) <|
  .after (.passed 0) (.sends 0 rfl (.isOpen rfl)) <|
  .after (.claimed 0 0) (.tryClaimed rfl rfl) <|
  .after (.wrote 0 0 51) (.wrote rfl) <|
  .after (.pushed 0 0 51) (.pushed rfl) <|
  .after (.sent 0 51 (some ⟨3,0⟩)) (.sent rfl) <|
  .after (.polled ⟨3,1⟩) (.receives rfl (.polled rfl)) <|
  .after (.registered none) (.registered rfl) <|
  .after (.popped 0) (.popped rfl rfl) <|
  .after (.slotRead 0 51) (.receives rfl (.read rfl)) <|
  .after (.received 0 51 none) (.received rfl rfl) (.rest _)

theorem awaitsValue_handles (n : Nat) : (awaitsValue.state n).handles = 1 := by
  match n with
  | 0 | 1 | 2 | 3 | 4 | 5 | 6 | 7 | 8 | 9 | 10 | 11 | 12 | 13 | 14 | 15 | 16 => rfl
  | n+17 => rfl

theorem awaitsValue_late (n : Nat) (late : 12 ≤ n) : (awaitsValue.state n).sender 0 = idle ∧
    (13 ≤ n → ∀ waker, (awaitsValue.state n).receiver ≠ .pending waker) ∧
    (17 ≤ n → (awaitsValue.state n).receiver = .idle) := by
  obtain ⟨k,rfl⟩ := Nat.exists_eq_add_of_le' late
  match k with
  | 0 => exact ⟨rfl,by omega,by omega⟩
  | 1 | 2 | 3 | 4 => exact ⟨rfl,fun _ => nofun,by omega⟩
  | k+5 => exact ⟨rfl,fun _ => nofun,fun _ => rfl⟩

theorem awaitsValue_answers : Answers awaitsValue := by
  refine ⟨⟨fun n busy => ⟨16,?_,_,rfl,rfl⟩,fun n i due => ?_⟩,fun n waker pending _ => ⟨12,?_,_,rfl,.inl rfl⟩⟩
  · by_contra late
    rw [(awaitsValue_late n (by omega)).2.2 (by omega)] at busy
    cases busy
  · by_cases first : i = 0
    · subst first
      refine ⟨11,?_,_,rfl,rfl⟩
      by_contra late
      rw [(awaitsValue_late n (by omega)).1] at due
      cases due
    · have beyond : (awaitsValue.state n).handles ≤ i := by
        rw [awaitsValue_handles]
        exact Nat.pos_of_ne_zero first
      rw [(every_served initial_served n).tracked.valid.sound.queue.unused i beyond] at due
      cases due
  · by_contra late
    exact (awaitsValue_late n (by omega)).2.1 (by omega) waker pending

-- At moment 11 the value is there, and the Receiver not yet woken.
theorem awaitsValue_answered : awaitsValue.Comes 11 fun e => Answered e ∨ e = .recvDropped :=
  recv_answered (listApi_documented 3) awaitsValue_answers 11 ⟨3,0⟩ rfl (.inl rfl)

end Rtic.Sync.Channel
