import Rtic.Sync.ChannelCalls
namespace Rtic.Sync.Channel
open Function Buckets Transition Rtic.Common
open BoundedDeque (Documented listApi listApi_documented)
variable {D T : Type} {N : Nat}

def SenderPoint.returning : SenderPoint T → List Nat
  | .giveBack _ _ slot => [slot]
  | _ => []

-- Slots that a sender could still get: free, handed to a waiting send future, or
-- on their way back from one that was dropped.
def offeredSlots (s : State D T) : List Nat := slotsIn SenderPoint.returning s
def availableSlots (items : D → List Nat) (s : State D T) : List Nat := items s.freeq++offeredSlots s

-- A Sender takes a slot out of the available ones by claiming it or by being
-- granted it, and by nothing else that it does: a call with neither leaves them
-- as they were.
def Conserving (items : D → List Nat) (_ : List (Event T)) (s : State D T) (e : Event T) (t : State D T) : Prop :=
  ∀ i, e.actor = some i → e.claimBy i = none → (availableSlots items t).Perm (availableSlots items s)

-- What the call that a Sender returns from, or that is dropped, has done.
def Delivering (evs : List (Event T)) (_ : State D T) (e : Event T) (_ : State D T) : Prop :=
  match e with
  | .sent i val _ => callValue i evs = some val ∧ pushesOf i (thisCall i evs) = [val]
  | .refused i val _ =>
    callValue i evs = some val ∧ pushesOf i (thisCall i evs) = [] ∧ claimsOf i (thisCall i evs) = []
  | .left i val .noReceiver =>
    callValue i evs = some val ∧ pushesOf i (thisCall i evs) = [] ∧ claimsOf i (thisCall i evs) = []
  | .left i val .dropped =>
    callValue i evs = some val ∧ pushesOf i (thisCall i evs) = [] ∧ claimsOf i (thisCall i evs) = []
  | .forgotten i val =>
    callValue i evs = some val ∧ pushesOf i (thisCall i evs) = [] ∧ claimsOf i (thisCall i evs) = []
  | _ => True

-- The entries of readyq whose values the Receiver has returned, with their Senders.
def receivedEntries (evs : List (Event T)) : List (Nat × T) := (pushes evs).take (receivedValues evs).length
def ofSender (i : Nat) (entries : List (Nat × T)) : List T :=
  entries.filterMap fun p => if p.1 = i then some p.2 else none

-- The sends that have returned Ok.
def sentEntries (evs : List (Event T)) : List (Nat × T) := evs.filterMap Event.ok
def sentValues (evs : List (Event T)) : List T := (sentEntries evs).map Prod.snd

-- Each Sender's values are received in the order of its sends; the last of them
-- may be received before the send that pushed it has returned.
def SenderOrdered (evs : List (Event T)) (s : State D T) : Prop :=
  (receivedEntries evs).map Prod.snd = receivedValues evs ∧
  ∀ i, ofSender i (receivedEntries evs) <+: sentOf i evs++(s.sender i).point.announced

section
variable {evs : List (Event T)} {s t : State (List Nat) T} {e : Event T} {i : Nat} {x y : Sender T}

theorem pushesOf_entries (i : Nat) (evs : List (Event T)) : pushesOf i evs = ofSender i (pushes evs) :=
  (List.filterMap_filterMap).symm

theorem sentOf_entries (i : Nat) (evs : List (Event T)) : sentOf i evs = ofSender i (sentEntries evs) :=
  (List.filterMap_filterMap).symm

theorem perm_of_senders {entries entries' : List (Nat × T)} (same : ∀ i, ofSender i entries = ofSender i entries') :
    entries.Perm entries' := by
  classical
  have counted : ∀ (entries : List (Nat × T)) p, entries.count p = (ofSender p.1 entries).count p.2 := by
    intro entries p
    induction entries with
    | nil => rfl
    | cons q entries ih =>
      unfold ofSender at *
      by_cases from_ : q.1 = p.1
      · simp [List.count_cons,from_,ih,Prod.ext_iff]
      · simp [from_,ih,Prod.ext_iff]
  refine List.perm_iff_count.mpr fun p => ?_
  rw [counted,counted,same]

-- When no send is between its push and its return, what was pushed is what was sent.
theorem Accounted.sent_perm (accounted : Accounted evs s) (returned : ∀ i, (s.sender i).point.announced = []) :
    (pushedValues evs).Perm (sentValues evs) := by
  refine (perm_of_senders fun i => ?_).map Prod.snd
  rw [← pushesOf_entries,← sentOf_entries,accounted.sent i,returned i,List.append_nil]

theorem Accounted.ordered (accounted : Accounted evs s) (begun : receivedValues evs <+: pushedValues evs) :
    SenderOrdered evs s := by
  constructor
  · unfold receivedEntries
    rw [List.map_take]
    exact (List.prefix_iff_eq_take.mp begun).symm
  · intro i
    rw [← accounted.sent i,pushesOf_entries]
    exact (List.take_prefix _ _).filterMap _

theorem Accounted.delivering (accounted : Accounted evs s) (taken : Step (listApi N) s e t) : Delivering evs s e t := by
  cases taken with
  | sends i here moves =>
    have account := accounted.account i
    rw [here] at account
    cases moves with
    | queueBusy busy => exact ⟨(account _ rfl).1,(account _ rfl).2.1,(account _ rfl).2.2 rfl⟩
    | isClosed closed => exact ⟨(account _ rfl).1,(account _ rfl).2.1,(account _ rfl).2.2 rfl⟩
    | forgotten => exact ⟨(account _ rfl).1,(account _ rfl).2.1,(account _ rfl).2.2 rfl⟩
    | left =>
      rename_i val outcome c f
      cases outcome with
      | slot idx => exact True.intro
      | noReceiver => exact ⟨(account _ rfl).1,(account _ rfl).2.1,(account _ rfl).2.2 rfl⟩
      | dropped => exact ⟨(account _ rfl).1,(account _ rfl).2.1,(account _ rfl).2.2 rfl⟩
    | _ => exact True.intro
  | receives here moves => cases moves <;> exact True.intro
  | tryFull here got =>
    rename_i q i val c f
    have account := accounted.account i
    rw [here] at account
    exact ⟨(account _ rfl).1,(account _ rfl).2.1,(account _ rfl).2.2 rfl⟩
  | sent here =>
    rename_i i val c f
    have account := accounted.account i
    rw [here] at account
    exact ⟨(account _ rfl).1,(account _ rfl).2.1⟩
  | _ => exact True.intro

def Sender.offers (x : Sender T) : List Nat := x.freeSlot.toList++x.point.returning

theorem local_offers {api : Deque D} {u : State D T} (moves : Local api u i x e y) (fits : x.Fits)
    (unclaimed : e.claimBy i = none) (k : Nat) : y.offers.count k = x.offers.count k := by
  cases moves with
  | granted future alive popped => simp [Event.claimBy] at unclaimed
  | pollClosed future closed => rcases future_cases future with rfl | rfl <;> rfl
  | denied future alive popped => rcases future_cases future with rfl | rfl <;> rfl
  | stillPending future alive queued => rcases future_cases future with rfl | rfl <;> rfl
  | left =>
    rename_i val outcome c f
    obtain ⟨_,rfl⟩ := fits
    cases outcome <;> rfl
  | reclaimed => rfl
  | _ => rfl

-- A step that replaces one Sender keeps the slots available if that Sender and freeq do.
theorem available_set (sound : QueueSound s) (here : s.sender i = x) (sender : t.sender = update s.sender i y)
    (handles : t.handles = s.handles) (alive : x ≠ gone)
    (moved : ∀ k, t.freeq.count k+y.offers.count k = s.freeq.count k+x.offers.count k) :
    (availableSlots id t).Perm (availableSlots id s) := by
  refine List.perm_iff_count.mpr fun k => ?_
  have offered := held_change Sender.offers here (sound.inside (by rwa [here])) y k
  have moved := moved k
  unfold Sender.offers at offered moved
  unfold availableSlots offeredSlots slotsIn
  rw [List.count_append,List.count_append,sender,handles]
  simp only [id]
  omega

theorem step_conserving (sound : Sound N evs s) (taken : Step (listApi N) s e t) : Conserving id evs s e t := by
  intro i own unclaimed
  cases taken with
  | sends j here moves =>
    obtain rfl := Option.some.inj ((local_actor moves).symm.trans own)
    have offers := local_offers moves (sound.queue.at_ here) unclaimed
    exact available_set sound.queue here rfl rfl (local_alive moves) fun k => by rw [offers k]
  | receives here moves => cases moves <;> cases own
  | tryClaimed here got =>
    cases own
    simp [Event.claimBy] at unclaimed
  | claimed here future alive first some_ =>
    cases own
    simp [Event.claimBy] at unclaimed
  | tryFull here got =>
    obtain ⟨before,after⟩ := popFront_nil got
    refine available_set sound.queue here rfl rfl (by simp [gone]) fun k => ?_
    simp [before,after,Sender.offers,SenderPoint.returning]
  | queued here future alive full =>
    rcases future_cases future with rfl | rfl <;>
      exact available_set sound.queue here rfl rfl (by simp [gone]) fun _ => rfl
  | unlinked here queued => exact available_set sound.queue here rfl rfl (by simp [gone]) fun _ => rfl
  | gaveBack here returned =>
    rename_i slot handed u j val outcome c f
    obtain ⟨after,moved⟩ := returnFreeSlot_sound sound.queue returned
    have shape := returnFreeSlot_at returned here
    refine List.perm_iff_count.mpr fun k => ?_
    have offered := held_change Sender.offers shape (after.inside (by rw [shape]; simp [gone]))
      {u.sender j with point := .leave val outcome} k
    have moved := moved SenderPoint.returning k
    unfold Sender.offers at offered
    unfold availableSlots offeredSlots
    unfold slotsIn at *
    simp only [id,SenderPoint.returning,List.count_append,List.count_nil] at *
    omega
  | wrote here => exact available_set sound.queue here rfl rfl (by simp [gone]) fun _ => rfl
  | pushed here => exact available_set sound.queue here rfl rfl (by simp [gone]) fun _ => rfl
  | sent here => exact available_set sound.queue here rfl rfl (by simp [gone]) fun _ => rfl
  | cloned here =>
    have same := held_idle Sender.offers rfl s.sender s.handles
    exact List.Perm.of_eq (congrArg (s.freeq++·) same)
  | senderDropped here =>
    refine available_set sound.queue here rfl rfl (by simp [gone]) fun _ => ?_
    split <;> rfl
  | lastWoke here => exact available_set sound.queue here rfl rfl (by simp [gone]) fun _ => rfl
  | _ => cases own
end

structure Tracked (N : Nat) (evs : List (Event T)) (s : State (List Nat) T) : Prop where
  valid : Valid N evs s
  accounted : Accounted evs s

theorem initial_tracked :
    Tracked N [] (initial (listApi N) N : State (List Nat) T) :=
  ⟨initial_valid,initial_accounted⟩

theorem step_tracked {evs : List (Event T)} {s t : State (List Nat) T} {e : Event T} (tracked : Tracked N evs s)
    (taken : Step (listApi N) s e t) : Tracked N (evs++[e]) t :=
  ⟨step_valid tracked.valid taken,step_accounted tracked.valid.sound tracked.accounted taken⟩

theorem delivered {api : Deque D} {items : D → List Nat} (doc : Documented api N items) {s : State D T}
    (run : Run api N s) :
    run.Through (fun evs _ => receivedValues evs <+: pushedValues evs) ∧
    run.Every Delivering ∧
    run.Every (Conserving items) ∧
    run.Through SenderOrdered := by
  obtain ⟨listed,_,through,every⟩ := contents_run doc run
  refine ⟨(through fun evs _ => receivedValues evs <+: pushedValues evs).mp ?_,(every Delivering).mp ?_,
    (every (Conserving id)).mp ?_,(through SenderOrdered).mp ?_⟩
  · exact listed.through_of (Tracked N) initial_tracked (fun tracked taken _ => step_tracked tracked taken)
      (fun tracked => tracked.valid.stored.begun) listed.every_true
  · exact listed.every (Tracked N) initial_tracked step_tracked fun tracked taken => tracked.accounted.delivering taken
  · exact listed.every (Tracked N) initial_tracked step_tracked
      fun tracked taken => step_conserving tracked.valid.sound taken
  · exact listed.through_of (Tracked N) initial_tracked (fun tracked taken _ => step_tracked tracked taken)
      (fun tracked => tracked.accounted.ordered tracked.valid.stored.begun) listed.every_true

theorem delivered_exchange : receivedValues exchange.events = [7] ∧ exchange.Every Delivering :=
  ⟨rfl,(delivered (listApi_documented 1) exchange).2.1⟩

end Rtic.Sync.Channel
