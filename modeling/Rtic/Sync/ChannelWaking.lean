import Rtic.Sync.ChannelCalls
namespace Rtic.Sync.Channel
open Function Buckets Transition Rtic.Common
open BoundedDeque (Documented listApi listApi_documented)
variable {D T : Type} {N : Nat}

-- The wakers that a step wakes.
def Event.wakes : Event T → Option Waker
  | .sent _ _ woken => woken
  | .lastWoke _ woken => woken
  | .registered woken => woken
  | .gaveBack _ _ handed => handed.map Prod.snd
  | .received _ _ handed => handed.map Prod.snd
  | .wokeWaiter waker => some waker
  | _ => none

def Event.polls : Event T → Bool
  | .polled _ => true
  | _ => false

-- Since the last poll of recv began.
def Woken (evs : List (Event T)) (waker : Waker) : Prop := ∃ e ∈ since Event.polls evs, e.wakes = some waker

-- The waker of the last poll of recv, from its registration on.
def ReceiverPoint.watches : ReceiverPoint T → Option Waker
  | .pop origin => origin
  | .read origin _ => origin
  | .giveBack origin _ _ => origin
  | .checkClosed origin => origin
  | .pending waker => some waker
  | _ => none

-- As `watches`, once that poll has found readyq empty.
def ReceiverPoint.settles : ReceiverPoint T → Option Waker
  | .checkClosed origin => origin
  | .pending waker => some waker
  | _ => none

-- A Pending recv with something to return has been woken, or a Sender is about to.
def NoLostWake (items : D → List Nat) (evs : List (Event T)) (s : State D T) : Prop :=
  ∀ waker, s.receiver = .pending waker → items s.readyq ≠ [] ∨ s.numSenders = 0 →
    Woken evs waker ∨ (∃ i val, (s.sender i).point = .notify val) ∨ ∃ i, (s.sender i).point = .lastDropped

-- The Sender has done what the Receiver waits for, and has yet to wake it.
def SenderPoint.wakeDue : SenderPoint T → Bool
  | .notify _ => true
  | .lastDropped => true
  | _ => false

structure Watched (evs : List (Event T)) (s : State (List Nat) T) : Prop where
  registered : ∀ waker, s.receiver.watches = some waker → s.receiverWaker.waker = some waker ∨ Woken evs waker
  ready : ∀ waker, s.receiver.settles = some waker → s.readyq ≠ [] →
    Woken evs waker ∨ ∃ i val, (s.sender i).point = .notify val
  closed : ∀ waker, s.receiver = .pending waker → s.numSenders = 0 →
    Woken evs waker ∨ ∃ i, (s.sender i).point = .lastDropped

section
variable {evs : List (Event T)} {s t : State (List Nat) T} {e : Event T} {waker : Waker}

theorem woken_snoc (unpolled : e.polls = false) : Woken (evs++[e]) waker ↔ Woken evs waker ∨ e.wakes = some waker := by
  unfold Woken
  rw [since_snoc,unpolled]
  simp [or_and_right,exists_or]

theorem settles_watches {p : ReceiverPoint T} (settled : p.settles = some waker) : p.watches = some waker := by
  cases p with
  | checkClosed origin => exact settled
  | pending other => exact settled
  | _ => cases settled

-- A watched waker has just been registered, or was watched before and is still
-- registered unless this step wakes it.
theorem step_watches (taken : Step (listApi N) s e t) (watched : t.receiver.watches = some waker) :
    e.polls = false ∧ (t.receiverWaker.waker = some waker ∨ (s.receiver.watches = some waker ∧
      (t.receiverWaker = s.receiverWaker ∨ e.wakes = s.receiverWaker.waker))) := by
  cases taken with
  | sends i here moves => cases moves <;> exact ⟨rfl,Or.inr ⟨watched,Or.inl rfl⟩⟩
  | receives here moves =>
    rw [here]
    cases moves with
    | read written => exact ⟨rfl,Or.inr ⟨watched,Or.inl rfl⟩⟩
    | empty alive =>
      rename_i origin
      cases origin with
      | none => cases watched
      | some w => exact ⟨rfl,Or.inr ⟨watched,Or.inl rfl⟩⟩
    | _ => cases watched
  | gaveBack here returned =>
    obtain ⟨_,_,_,rfl⟩ := returnFreeSlot_rest returned
    exact ⟨rfl,Or.inr ⟨watched,Or.inl rfl⟩⟩
  | sent here => exact ⟨rfl,Or.inr ⟨watched,Or.inr rfl⟩⟩
  | lastWoke here => exact ⟨rfl,Or.inr ⟨watched,Or.inr rfl⟩⟩
  | registered here =>
    cases watched
    exact ⟨rfl,Or.inl (WakerRegistration.register_waker _ _)⟩
  | popped here got => exact ⟨rfl,Or.inr ⟨by rw [here]; exact watched,Or.inl rfl⟩⟩
  | foundEmpty here got => exact ⟨rfl,Or.inr ⟨by rw [here]; exact watched,Or.inl rfl⟩⟩
  | received here returned => cases watched
  | closing here => cases watched
  | drained here got => cases watched
  | drainEnded here got => cases watched
  | unqueued here got => cases watched
  | _ => exact ⟨rfl,Or.inr ⟨watched,Or.inl rfl⟩⟩

theorem step_settles (taken : Step (listApi N) s e t) (settled : t.receiver.settles = some waker) :
    t.readyq = [] ∨ (s.receiver.settles = some waker ∧
      (t.readyq = s.readyq ∨ ∃ i val, (t.sender i).point = .notify val)) := by
  cases taken with
  | receives here moves =>
    rw [here]
    cases moves with
    | empty alive =>
      rename_i origin
      cases origin with
      | none => cases settled
      | some w => exact Or.inr ⟨settled,Or.inl rfl⟩
    | _ => cases settled
  | gaveBack here returned =>
    obtain ⟨_,_,_,rfl⟩ := returnFreeSlot_rest returned
    exact Or.inr ⟨settled,Or.inl rfl⟩
  | pushed here =>
    rename_i i slot val c f
    exact Or.inr ⟨settled,Or.inr ⟨i,val,by simp⟩⟩
  | foundEmpty here got => exact Or.inl (popFront_nil got).2
  | registered here => cases settled
  | popped here got => cases settled
  | received here returned => cases settled
  | closing here => cases settled
  | drained here got => cases settled
  | drainEnded here got => cases settled
  | unqueued here got => cases settled
  | _ => exact Or.inr ⟨settled,Or.inl rfl⟩

theorem step_pending (taken : Step (listApi N) s e t) (pending : t.receiver = .pending waker) (none_ : t.numSenders = 0) :
    s.receiver = .pending waker ∧ (s.numSenders = 0 ∨ ∃ i, (t.sender i).point = .lastDropped) := by
  cases taken with
  | receives here moves =>
    cases moves with
    | empty alive => exact absurd none_ alive
    | _ => cases pending
  | gaveBack here returned =>
    obtain ⟨_,_,_,rfl⟩ := returnFreeSlot_rest returned
    exact ⟨pending,Or.inl none_⟩
  | cloned here => cases none_
  | senderDropped here =>
    rename_i i c f
    have none_ : s.numSenders-1 = 0 := none_
    exact ⟨pending,Or.inr ⟨i,by simp [none_]⟩⟩
  | registered here => cases pending
  | popped here got => cases pending
  | foundEmpty here got => cases pending
  | received here returned => cases pending
  | closing here => cases pending
  | drained here got => cases pending
  | drainEnded here got => cases pending
  | unqueued here got => cases pending
  | _ => exact ⟨pending,Or.inl none_⟩

theorem local_not_due {i : Nat} {x y : Sender T} (moves : Local (listApi N) s i x e y) : x.point.wakeDue = false := by
  cases moves with
  | pollClosed future closed => rcases future_cases future with rfl | rfl <;> rfl
  | granted future alive popped => rcases future_cases future with rfl | rfl <;> rfl
  | denied future alive popped => rcases future_cases future with rfl | rfl <;> rfl
  | stillPending future alive queued => rcases future_cases future with rfl | rfl <;> rfl
  | _ => rfl

-- What it does next, and it alone, is to wake the waker that is registered.
theorem own_due {i : Nat} (taken : Step (listApi N) s e t) (own : e.actor = some i)
    (due : (s.sender i).point.wakeDue = true) : e.wakes = s.receiverWaker.waker := by
  cases taken with
  | sends j here moves =>
    obtain rfl := Option.some.inj ((local_actor moves).symm.trans own)
    rw [here,local_not_due moves] at due
    cases due
  | receives here moves => cases moves <;> cases own
  | sent here => rfl
  | lastWoke here => rfl
  | claimed here future alive first some_ =>
    cases own
    rw [here] at due
    rcases future_cases future with rfl | rfl <;> cases due
  | queued here future alive full =>
    cases own
    rw [here] at due
    rcases future_cases future with rfl | rfl <;> cases due
  | tryClaimed here got => cases own; rw [here] at due; cases due
  | tryFull here got => cases own; rw [here] at due; cases due
  | unlinked here queued => cases own; rw [here] at due; cases due
  | gaveBack here returned => cases own; rw [here] at due; cases due
  | wrote here => cases own; rw [here] at due; cases due
  | pushed here => cases own; rw [here] at due; cases due
  | cloned here => cases own; rw [here] at due; cases due
  | senderDropped here => cases own; rw [here] at due; cases due
  | _ => cases own

theorem step_due {i : Nat} (sound : QueueSound s) (taken : Step (listApi N) s e t)
    (due : (s.sender i).point.wakeDue = true) :
    (t.sender i).point = (s.sender i).point ∨ e.wakes = s.receiverWaker.waker := by
  by_cases own : e.actor = some i
  · exact Or.inr (own_due taken own due)
  · rcases step_point taken own with same | ⟨_,rfl⟩
    · exact Or.inl same
    · rw [sound.unused _ (Nat.le_refl _)] at due
      cases due

theorem step_watched (sound : QueueSound s) (watched : Watched evs s) (taken : Step (listApi N) s e t) :
    Watched (evs++[e]) t := by
  -- a step that wakes what is registered wakes what is watched
  have wakes : ∀ waker, t.receiver.watches = some waker → s.receiver.watches = some waker →
      e.wakes = s.receiverWaker.waker → Woken (evs++[e]) waker := by
    intro waker after before woke
    rw [woken_snoc (step_watches taken after).1,woke]
    exact (watched.registered waker before).symm
  have still : ∀ waker, t.receiver.watches = some waker → Woken evs waker → Woken (evs++[e]) waker :=
    fun waker after woken => (woken_snoc (step_watches taken after).1).mpr (Or.inl woken)
  constructor
  · intro waker here
    rcases (step_watches taken here).2 with registered | ⟨before,same | woke⟩
    · exact Or.inl registered
    · rw [same]
      exact (watched.registered waker before).imp_right (still waker here)
    · exact Or.inr (wakes waker here before woke)
  · intro waker here filled
    have watches := settles_watches here
    rcases step_settles taken here with empty | ⟨before,same | notifies⟩
    · exact absurd empty filled
    · rw [same] at filled
      rcases watched.ready waker before filled with woken | ⟨i,val,due⟩
      · exact Or.inl (still waker watches woken)
      · rcases step_due sound taken (i:=i) (by rw [due]; rfl) with stays | woke
        · exact Or.inr ⟨i,val,stays.trans due⟩
        · exact Or.inl (wakes waker watches (settles_watches before) woke)
    · exact Or.inr notifies
  · intro waker here none_
    have watches : t.receiver.watches = some waker := by rw [here]; rfl
    obtain ⟨before,already | last⟩ := step_pending taken here none_
    · rcases watched.closed waker before already with woken | ⟨i,due⟩
      · exact Or.inl (still waker watches woken)
      · rcases step_due sound taken (i:=i) (by rw [due]; rfl) with stays | woke
        · exact Or.inr ⟨i,stays.trans due⟩
        · exact Or.inl (wakes waker watches (by rw [before]; rfl) woke)
    · exact Or.inr last

theorem initial_watched :
    Watched [] (initial (listApi N) N : State (List Nat) T) := ⟨nofun,nofun,nofun⟩

theorem Watched.noLostWake (watched : Watched evs s) : NoLostWake id evs s := by
  intro waker here waiting
  rcases waiting with filled | none_
  · rcases watched.ready waker (by rw [here]; rfl) filled with woken | due
    · exact Or.inl woken
    · exact Or.inr (Or.inl due)
  · rcases watched.closed waker here none_ with woken | due
    · exact Or.inl woken
    · exact Or.inr (Or.inr due)
end

theorem no_lost_wake {api : Deque D} {items : D → List Nat} (doc : Documented api N items) {s : State D T}
    (run : Run api N s) : run.Through (NoLostWake items) := by
  obtain ⟨listed,_,through,_⟩ := contents_run doc run
  refine (through (NoLostWake id)).mp ?_
  exact listed.through_of (fun evs s => Sound N evs s ∧ Watched evs s) ⟨initial_sound,initial_watched⟩
    (fun both taken _ => ⟨step_sound both.1 taken,step_watched both.1.queue both.2 taken⟩)
    (fun both => both.2.noLostWake) listed.every_true

-- A poll of recv finds nothing, then 7 is pushed.
def pushesToPending :=
  ((((((((((((Transition.Run.start : Run (T:=Nat) (listApi 1) 1 _).snoc
    .recvCalled (.receives rfl .recvCalled)).snoc
    (.polled ⟨1,0⟩) (.receives rfl (.polled rfl))).snoc
    (.registered none) (.registered rfl)).snoc
    .foundEmpty (.foundEmpty rfl rfl)).snoc
    .empty (.receives rfl (.empty nofun))).snoc
    (.tryCalled 0 7) (.sends 0 rfl .tryCalled)).snoc
    (.passed 0) (.sends 0 rfl (.queueEmpty rfl))).snoc
    (.passed 0) (.sends 0 rfl (.isOpen rfl))).snoc
    (.claimed 0 0) (.tryClaimed rfl rfl)).snoc
    (.wrote 0 0 7) (.wrote rfl)).snoc
    (.pushed 0 0 7) (.pushed rfl)).snoc
    (.sent 0 7 (some ⟨1,0⟩)) (.sent rfl)

theorem no_lost_wake_pushesToPending : pushesToPending.Through (NoLostWake id) :=
  no_lost_wake (listApi_documented 1) pushesToPending

end Rtic.Sync.Channel
