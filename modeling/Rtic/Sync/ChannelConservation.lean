import Rtic.Sync.ChannelValues
namespace Rtic.Sync.Channel
open Function Buckets Transition Rtic.Common
open BoundedDeque (Documented listApi listApi_documented)
variable {D T : Type} {N : Nat}

-- The places a slot can be in: free, ready, handed to a waiting send future, with
-- a Sender, with the Receiver, or drained.
def Partitioned (N : Nat) (evs : List (Event T)) (s : State (List Nat) T) : Prop :=
  (s.freeq++s.readyq++handedSlots s++claimedSlots s++s.receiver.slots++drainedSlots evs).Perm (List.range N)

-- Every unchecked push finds room, and every unchecked pop an element.
def UncheckedSafe (N : Nat) (_ : List (Event T)) (s : State (List Nat) T) (e : Event T) (_ : State (List Nat) T) : Prop :=
  match e with
  | .pushed _ _ _ => s.readyq.length < N
  | .gaveBack _ _ none => s.freeq.length < N
  | .received _ _ none => s.freeq.length < N
  | .claimed i _ => (s.sender i).point.future.isSome → s.freeq ≠ []
  | _ => True

-- What the Receiver is about to read was written since it was last read.
def ReadsWritten (evs : List (Event T)) (s : State (List Nat) T) : Prop :=
  ∀ k, s.receiver.reads = some k → (s.slots k).isSome ∧ Unread evs k

-- No operation is in progress, no waiting send future holds a slot, and there is a Receiver.
structure Quiescent (s : State D T) : Prop where
  senders : ∀ i, ((s.sender i).point = .gone ∨ (s.sender i).point = .idle ∨ (s.sender i).point.future.isSome) ∧
    (s.sender i).freeSlot = none
  receiver : s.receiver = .idle ∨ s.receiver.awaiting = true

section
variable {evs : List (Event T)} {s t : State (List Nat) T} {e : Event T}

theorem held_split (s : State D T) (k : Nat) :
    (heldSlots s).count k = (handedSlots s).count k+(claimedSlots s).count k :=
  count_gather_append _ _ _ k

theorem Sound.partitioned (sound : Sound N evs s) (small : N < 256) : Partitioned N evs s := by
  refine perm_range_of_count fun k => ?_
  have once := sound.slots k
  unfold occurrences at once
  rw [Nat.mod_eq_of_lt small,held_split] at once
  simp only [List.count_append]
  omega

theorem Sound.uncheckedSafe (sound : Sound N evs s) (taken : Step (listApi N) s e t) : UncheckedSafe N evs s e t := by
  cases taken with
  | sends i here moves => cases moves <;> exact True.intro
  | receives here moves => cases moves <;> exact True.intro
  | tryClaimed here got => simp [UncheckedSafe,here,SenderPoint.future]
  | claimed here future alive first some_ =>
    intro _ none_
    rw [none_] at some_
    cases some_
  | pushed here => exact (sound.room_at here (by simp [Sender.slots,SenderPoint.slots])).2
  | gaveBack here returned =>
    have room := (sound.room_at here (by simp [Sender.slots,SenderPoint.slots])).1
    rename_i slot handed u i val outcome c f
    cases handed with
    | none => exact room
    | some waiter => exact True.intro
  | received here returned =>
    have room := sound.receiver_room (by rw [here]; rfl)
    rename_i slot handed u val origin
    cases handed with
    | none => exact room
    | some waiter => exact True.intro
  | _ => exact True.intro

theorem Quiescent.settled (quiet : Quiescent s) :
    handedSlots s = [] ∧ claimedSlots s = [] ∧ s.receiver.slots = [] ∧ s.receiver.alive = true := by
  refine ⟨gather_eq_nil fun i _ => ?_,gather_eq_nil fun i _ => ?_,?_⟩
  · rw [(quiet.senders i).2]
    rfl
  · cases here : (s.sender i).point with
    | fresh val => rfl
    | waiting val => rfl
    | gone => rfl
    | idle => rfl
    | _ => have none_ := (quiet.senders i).1; simp [here,SenderPoint.future] at none_
  · cases here : s.receiver with
    | idle => exact ⟨rfl,rfl⟩
    | fresh => exact ⟨rfl,rfl⟩
    | pending waker => exact ⟨rfl,rfl⟩
    | _ => have none_ := quiet.receiver; simp [here,ReceiverPoint.awaiting] at none_

theorem Valid.agree (valid : Valid N evs s) (small : N < 256) (quiet : Quiescent s) {query : Query}
    (about : query ≠ .isClosed) : senderAnswer (listApi N) s query = receiverAnswer (listApi N) s query := by
  obtain ⟨handed,claimed,receiver,alive⟩ := quiet.settled
  have partition := valid.sound.partitioned small
  unfold Partitioned at partition
  rw [handed,claimed,receiver,valid.undrained alive] at partition
  have total := partition.length_eq
  simp only [List.append_nil,List.length_append,List.length_range] at total
  cases query with
  | isClosed => exact absurd rfl about
  | isFull =>
    have empty : s.freeq.isEmpty = true ↔ s.readyq.length = N := by
      rw [List.isEmpty_iff_length_eq_zero]
      omega
    rw [Bool.eq_iff_iff]
    simpa [senderAnswer,receiverAnswer,listApi] using empty
  | isEmpty =>
    have empty : s.freeq.length = N ↔ s.readyq.isEmpty = true := by
      rw [List.isEmpty_iff_length_eq_zero]
      omega
    rw [Bool.eq_iff_iff]
    simpa [senderAnswer,receiverAnswer,listApi] using empty
end

-- `split` fills the free queue without ever meeting a full one.
theorem split_room {api : Deque D} {items : D → List Nat} (doc : Documented api N items) (q : D) {k : Nat}
    (more : k < N) : (items ((List.range k).foldl api.pushBackUnchecked (api.clear q))).length < N := by
  have cleared := doc.clear q
  have filled := doc.fill (q:=api.clear q) (List.range k) (by simp [cleared,Nat.le_of_lt more])
  rw [filled,cleared]
  simpa using more

theorem slots_conserved {api : Deque D} {items : D → List Nat} (doc : Documented api N items) (small : N < 256)
    {s : State D T} (run : Run api N s) :
    run.Through (fun evs s => Partitioned N evs (contents items s)) ∧
    run.Every (fun evs s e t => UncheckedSafe N evs (contents items s) e (contents items t)) ∧
    run.Through (fun evs s => ReadsWritten evs (contents items s)) ∧
    run.Through (fun _ s => Quiescent s → ∀ query, query ≠ .isClosed →
      senderAnswer api s query = receiverAnswer api s query) ∧
    ∀ q k, k < N → (items ((List.range k).foldl api.pushBackUnchecked (api.clear q))).length < N := by
  obtain ⟨listed,_,through,every⟩ := contents_run doc run
  refine ⟨(through _).mp ?_,(every _).mp ?_,(through _).mp ?_,?_,fun q k more => split_room doc q more⟩
  · exact listed.through_of (Valid N) initial_valid (fun valid taken _ => step_valid valid taken)
      (fun valid => valid.sound.partitioned small) listed.every_true
  · exact listed.every (Valid N) initial_valid (fun valid taken => step_valid valid taken)
      fun valid taken => valid.sound.uncheckedSafe taken
  · exact listed.through_of (Valid N) initial_valid (fun valid taken _ => step_valid valid taken)
      (fun valid => valid.stored.reading) listed.every_true
  · have agree : listed.Through fun _ s => Quiescent s → ∀ query, query ≠ .isClosed →
        senderAnswer (listApi N) s query = receiverAnswer (listApi N) s query :=
      listed.through_of (Valid N) initial_valid (fun valid taken _ => step_valid valid taken)
        (fun valid quiet _ about => valid.agree small quiet about) listed.every_true
    refine ((through _).mp agree).imp fun same quiet query about => ?_
    rw [senderAnswer_contents doc,receiverAnswer_contents doc]
    exact same ⟨quiet.senders,quiet.receiver⟩ query about

theorem slots_conserved_exchange : exchange.Through (fun evs s => Partitioned 1 evs (contents id s)) :=
  (slots_conserved (listApi_documented 1) (by decide) exchange).1

end Rtic.Sync.Channel
