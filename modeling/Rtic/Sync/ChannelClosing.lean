import Rtic.Sync.ChannelDelivery
namespace Rtic.Sync.Channel
open Function Buckets Transition Rtic.Common
open BoundedDeque (Documented listApi listApi_documented)
variable {D T : Type} {N : Nat}

-- A Sender that `drop` has not counted out.
def SenderPoint.counted : SenderPoint T → Bool
  | .gone => false
  | .lastDropped => false
  | _ => true

def Sender.census (x : Sender T) : List Nat := if x.point.counted then [0] else []
def census (s : State D T) : List Nat := gather s.handles fun i => (s.sender i).census

-- The Receiver has found readyq empty, in try_recv or in the loop of its drop,
-- and goes on from that.
def Event.foundNone : Event T → Bool
  | .foundEmpty => true
  | .drainEnded => true
  | _ => false

def ReceiverPoint.foundNone : ReceiverPoint T → Bool
  | .checkClosed _ => true
  | .unqueue => true
  | .wakeWaiter _ => true
  | .dropped => true
  | _ => false

def pushesSince (evs : List (Event T)) : List (Nat × T) := pushes (since Event.foundNone evs)

structure Counted (evs : List (Event T)) (s : State (List Nat) T) : Prop where
  senders : s.numSenders = (census s).count 0
  ready : s.receiver.foundNone = true → s.readyq.length = (pushesSince evs).length

section
variable {evs : List (Event T)} {s t : State (List Nat) T} {e : Event T} {i : Nat} {x y : Sender T}

theorem census_set (sound : QueueSound s) (here : s.sender i = x) (sender : t.sender = update s.sender i y)
    (handles : t.handles = s.handles) (alive : x ≠ gone) :
    (census t).count 0+x.census.count 0 = (census s).count 0+y.census.count 0 := by
  unfold census
  rw [sender,handles]
  exact held_change Sender.census here (sound.inside (by rwa [here])) y 0

theorem senders_keep (sound : QueueSound s) (senders : s.numSenders = (census s).count 0) (here : s.sender i = x)
    (sender : t.sender = update s.sender i y) (handles : t.handles = s.handles) (number : t.numSenders = s.numSenders)
    (alive : x ≠ gone) (same : y.point.counted = x.point.counted) : t.numSenders = (census t).count 0 := by
  have moved := census_set sound here sender handles alive
  unfold Sender.census at moved
  rw [same] at moved
  rw [number,senders]
  exact (Nat.add_right_cancel moved).symm

theorem census_points (handles : t.handles = s.handles) (points : ∀ i, (t.sender i).point = (s.sender i).point) :
    census t = census s := by
  unfold census Sender.census
  rw [handles]
  exact gather_congr fun i _ => by rw [points i]

theorem local_counted {api : Deque D} {u : State D T} (moves : Local api u i x e y) :
    y.point.counted = x.point.counted := by
  cases moves with
  | pollClosed future closed => rcases future_cases future with rfl | rfl <;> rfl
  | granted future alive popped => rcases future_cases future with rfl | rfl <;> rfl
  | denied future alive popped => rcases future_cases future with rfl | rfl <;> rfl
  | stillPending future alive queued => rcases future_cases future with rfl | rfl <;> rfl
  | left =>
    rename_i val outcome c f
    cases outcome <;> rfl
  | _ => rfl

theorem step_senders (sound : QueueSound s) (senders : s.numSenders = (census s).count 0)
    (taken : Step (listApi N) s e t) : t.numSenders = (census t).count 0 := by
  cases taken with
  | sends i here moves =>
    exact senders_keep sound senders here rfl rfl rfl (local_alive moves) (local_counted moves)
  | tryClaimed here got => exact senders_keep sound senders here rfl rfl rfl (by simp [gone]) rfl
  | tryFull here got => exact senders_keep sound senders here rfl rfl rfl (by simp [gone]) rfl
  | claimed here future alive first some_ =>
    rcases future_cases future with rfl | rfl <;>
      exact senders_keep sound senders here rfl rfl rfl (by simp [gone]) rfl
  | queued here future alive full =>
    rcases future_cases future with rfl | rfl <;>
      exact senders_keep sound senders here rfl rfl rfl (by simp [gone]) rfl
  | unlinked here queued => exact senders_keep sound senders here rfl rfl rfl (by simp [gone]) rfl
  | gaveBack here returned =>
    rename_i slot handed u j val outcome c f
    have after := (returnFreeSlot_sound sound returned).1
    obtain ⟨_,_,_,rest⟩ := returnFreeSlot_rest returned
    have shape := returnFreeSlot_at returned here
    have number : u.numSenders = s.numSenders := by rw [rest]
    have same : census u = census s := census_points (by rw [rest]) (returnFreeSlot_points returned)
    refine senders_keep after ?_ shape rfl rfl rfl (by simp [gone]) rfl
    rw [number,senders,same]
  | wrote here => exact senders_keep sound senders here rfl rfl rfl (by simp [gone]) rfl
  | pushed here => exact senders_keep sound senders here rfl rfl rfl (by simp [gone]) rfl
  | sent here => exact senders_keep sound senders here rfl rfl rfl (by simp [gone]) rfl
  | cloned here =>
    have older : (gather s.handles fun i => (update s.sender s.handles idle i).census) = census s :=
      gather_congr fun i small => by rw [update_of_ne (Nat.ne_of_lt small)]
    simp only [census,gather_succ,older,update_self,List.count_append,senders]
    rfl
  | senderDropped here =>
    rename_i i c f
    have moved := held_change Sender.census here (sound.inside (by rw [here]; simp [gone]))
      ⟨if s.numSenders-1 = 0 then .lastDropped else .gone,c,f⟩ 0
    have out : (⟨if s.numSenders-1 = 0 then .lastDropped else .gone,c,f⟩ : Sender T).census = [] := by
      split <;> rfl
    have counted : (⟨.idle,c,f⟩ : Sender T).census = [0] := rfl
    rw [out,counted] at moved
    exact Nat.sub_eq_of_eq_add (senders.trans moved.symm)
  | lastWoke here => exact senders_keep sound senders here rfl rfl rfl (by simp [gone]) rfl
  | received here returned =>
    rename_i slot handed u val origin
    obtain ⟨_,_,_,rest⟩ := returnFreeSlot_rest returned
    have number : u.numSenders = s.numSenders := by rw [rest]
    have same : census u = census s := census_points (by rw [rest]) (returnFreeSlot_points returned)
    exact (number.trans senders).trans (congrArg (List.count 0) same.symm)
  | unqueued here got =>
    obtain ⟨rest,link,queue,linked,rfl,rfl⟩ := popWaiter_some got
    exact senders_keep sound senders rfl rfl rfl rfl (linked_alive linked) rfl
  | _ => exact senders

theorem pushesSince_snoc : pushesSince (evs++[e]) = if e.foundNone then [] else pushesSince evs++e.push.toList := by
  unfold pushesSince
  rw [since_snoc]
  split
  · rfl
  · exact filterMap_snoc _ _ _

-- From where the Receiver has found readyq empty, only pushes change readyq.
theorem step_foundNone (taken : Step (listApi N) s e t) (here : t.receiver.foundNone = true) :
    (e.foundNone = true ∧ t.readyq = []) ∨ (e.foundNone = false ∧ s.receiver.foundNone = true ∧
      t.readyq.length = s.readyq.length+e.push.toList.length) := by
  cases taken with
  | sends i from_ moves => cases moves <;> exact Or.inr ⟨rfl,here,rfl⟩
  | receives from_ moves =>
    cases moves with
    | wokeWaiter => exact Or.inr ⟨rfl,by rw [from_]; rfl,rfl⟩
    | dropped empty => exact Or.inr ⟨rfl,by rw [from_]; rfl,rfl⟩
    | empty alive =>
      rename_i origin
      cases origin <;> cases here
    | _ => cases here
  | gaveBack from_ returned =>
    rename_i slot handed u i val outcome c f
    obtain ⟨_,_,_,rfl⟩ := returnFreeSlot_rest returned
    exact Or.inr ⟨rfl,here,rfl⟩
  | pushed from_ => exact Or.inr ⟨rfl,here,by simp [listApi,Event.push]⟩
  | foundEmpty from_ got => exact Or.inl ⟨rfl,(popFront_nil got).2⟩
  | drainEnded from_ got => exact Or.inl ⟨rfl,(popBack_nil got).2⟩
  | unqueued from_ got =>
    obtain ⟨_,_,_,_,rfl,rfl⟩ := popWaiter_some got
    exact Or.inr ⟨rfl,by rw [from_]; rfl,rfl⟩
  | registered from_ => cases here
  | popped from_ got => cases here
  | received from_ returned => cases here
  | closing from_ => cases here
  | drained from_ got => cases here
  | _ => exact Or.inr ⟨rfl,here,rfl⟩

theorem step_counted (sound : Sound N evs s) (counted : Counted evs s) (taken : Step (listApi N) s e t) :
    Counted (evs++[e]) t := by
  refine ⟨step_senders sound.queue counted.senders taken,fun here => ?_⟩
  rcases step_foundNone taken here with ⟨found,empty⟩ | ⟨other,before,length⟩
  · rw [pushesSince_snoc,found,empty]
    rfl
  · rw [pushesSince_snoc,other,length,counted.ready before]
    simp

theorem Counted.none_left (counted : Counted evs s) (sound : QueueSound s) (none_ : s.numSenders = 0) (i : Nat) :
    (s.sender i).point.counted = false := by
  by_cases inside : i < s.handles
  · have bound := count_le_gather inside (fun i => (s.sender i).census) 0
    have total : (census s).count 0 = 0 := counted.senders.symm.trans none_
    unfold census at total
    rw [total] at bound
    cases still : (s.sender i).point.counted with
    | false => rfl
    | true => simp [Sender.census,still] at bound
  · rw [sound.unused i (Nat.le_of_not_lt inside)]
    rfl
end

section
variable {api : Deque D} {s t : State D T} {e : Event T}

theorem step_receiverDropped (taken : Step api s e t) (dropped : s.receiverDropped = true) :
    t.receiverDropped = true := by
  cases taken with
  | gaveBack here returned =>
    obtain ⟨_,_,_,rfl⟩ := returnFreeSlot_rest returned
    exact dropped
  | received here returned =>
    obtain ⟨_,_,_,rfl⟩ := returnFreeSlot_rest returned
    exact dropped
  | unqueued here got =>
    obtain ⟨_,_,_,_,_,rfl⟩ := popWaiter_some got
    exact dropped
  | closing here => rfl
  | _ => exact dropped

-- The Receiver's drop begins with the step that sets receiver_dropped.
theorem step_shutting (taken : Step api s e t) (shut : t.receiver.alive = false) :
    s.receiver.alive = false ∨
    (s.receiver = .idle ∧ e = .closing ∧ t = {s with receiverDropped := true,receiver := .drain}) := by
  cases taken with
  | sends i here moves => exact Or.inl shut
  | receives here moves =>
    left
    rw [here]
    cases moves with
    | discarded written => rfl
    | wokeWaiter => rfl
    | dropped empty => rfl
    | empty alive =>
      rename_i origin
      cases origin <;> cases shut
    | _ => cases shut
  | gaveBack here returned =>
    obtain ⟨_,_,_,rfl⟩ := returnFreeSlot_rest returned
    exact Or.inl shut
  | registered here => cases shut
  | popped here got => cases shut
  | foundEmpty here got => cases shut
  | received here returned => cases shut
  | closing here => exact Or.inr ⟨here,rfl,rfl⟩
  | drained here got => exact Or.inl (by rw [here]; rfl)
  | drainEnded here got => exact Or.inl (by rw [here]; rfl)
  | unqueued here got => exact Or.inl (by rw [here]; rfl)
  | _ => exact Or.inl shut
end

-- try_recv returns NoSender only if no Sender is left and no value waits: then
-- every value whose send returned Ok has been received.
def Drained (items : D → List Nat) (evs : List (Event T)) (s : State D T) (e : Event T) (_ : State D T) : Prop :=
  match e with
  | .noSender => (∀ i, (s.sender i).point.counted = false) ∧ items s.readyq = [] ∧
      (sentValues evs).Perm (receivedValues evs)
  | _ => True

def NotOvertaken (evs : List (Event T)) (_ : State D T) (e : Event T) (_ : State D T) : Prop :=
  match e with
  | .noSender => pushesSince evs = []
  | _ => True

structure Closing (N : Nat) (evs : List (Event T)) (s : State (List Nat) T) : Prop where
  tracked : Tracked N evs s
  counted : Counted evs s

section
variable {evs : List (Event T)} {s t : State (List Nat) T} {e : Event T}

theorem initial_closing :
    Closing N [] (initial (listApi N) N : State (List Nat) T) :=
  ⟨initial_tracked,rfl,nofun⟩

theorem step_closing (closing : Closing N evs s) (taken : Step (listApi N) s e t) : Closing N (evs++[e]) t :=
  ⟨step_tracked closing.tracked taken,step_counted closing.tracked.valid.sound closing.counted taken⟩

theorem uncounted_announced {p : SenderPoint T} (out : p.counted = false) : p.announced = [] := by
  cases p with
  | notify val => cases out
  | _ => rfl

theorem Counted.ready_nil (counted : Counted evs s) (here : s.receiver.foundNone = true) :
    s.readyq = [] ↔ pushesSince evs = [] := by
  rw [← List.length_eq_zero_iff,counted.ready here,List.length_eq_zero_iff]

theorem Closing.drained_iff (closing : Closing N evs s) (taken : Step (listApi N) s e t) :
    Drained id evs s e t ↔ NotOvertaken evs s e t := by
  cases e with
  | noSender =>
    cases taken with
    | sends i here moves => cases moves
    | receives here moves =>
      cases moves with
      | noSender closed =>
        have sound := closing.tracked.valid.sound.queue
        have out := closing.counted.none_left sound closed
        have ready := closing.counted.ready_nil (by rw [here]; rfl)
        refine ⟨fun drained => ready.mp drained.2.1,fun none_ => ?_⟩
        have empty := ready.mpr none_
        have order := closing.tracked.valid.stored.order (by rw [here]; rfl)
        rw [here,empty] at order
        have received : pushedValues evs = receivedValues evs :=
          List.map_injective_iff.mpr (fun _ _ => Option.some.inj) (by simpa [ReceiverPoint.inFlight] using order)
        have sent := closing.tracked.accounted.sent_perm fun i => uncounted_announced (out i)
        rw [received] at sent
        exact ⟨out,empty,sent.symm⟩
  | _ => exact Iff.rfl
end

theorem noSender_drained_iff {api : Deque D} {items : D → List Nat} (doc : Documented api N items) {s : State D T}
    (run : Run api N s) : run.Every (Drained items) ↔ run.Every NotOvertaken := by
  obtain ⟨listed,_,_,every⟩ := contents_run doc run
  refine Iff.trans (every (Drained id)).symm (Iff.trans ?_ (every NotOvertaken))
  exact listed.every_iff (Closing N) initial_closing (fun closing taken _ => step_closing closing taken)
    (fun closing taken => closing.drained_iff taken)

-- The last Sender is dropped and then the Receiver looks.
def hungUp :=
  (((((Transition.Run.start : Run (T:=Nat) (listApi 2) 2 _).snoc
    (.senderDropped 0) (.senderDropped rfl)).snoc
    (.lastWoke 0 none) (.lastWoke rfl)).snoc
    .tryRecvCalled (.receives rfl .tryRecvCalled)).snoc
    .foundEmpty (.foundEmpty rfl rfl)).snoc
    .noSender (.receives rfl (.noSender rfl))

theorem noSender_drained_hungUp : hungUp.Every (Drained id) :=
  (noSender_drained_iff (listApi_documented 2) hungUp).mpr
    ⟨⟨⟨⟨⟨True.intro,True.intro⟩,True.intro⟩,True.intro⟩,True.intro⟩,rfl⟩

-- The Receiver finds readyq empty, then the last Sender sends 7 and is dropped,
-- then the Receiver finds no Sender.
def overtaken :=
  ((((((((((((Transition.Run.start : Run (T:=Nat) (listApi 2) 2 _).snoc
    .tryRecvCalled (.receives rfl .tryRecvCalled)).snoc
    .foundEmpty (.foundEmpty rfl rfl)).snoc
    (.tryCalled 0 7) (.sends 0 rfl .tryCalled)).snoc
    (.passed 0) (.sends 0 rfl (.queueEmpty rfl))).snoc
    (.passed 0) (.sends 0 rfl (.isOpen rfl))).snoc
    (.claimed 0 0) (.tryClaimed rfl rfl)).snoc
    (.wrote 0 0 7) (.wrote rfl)).snoc
    (.pushed 0 0 7) (.pushed rfl)).snoc
    (.sent 0 7 none) (.sent rfl)).snoc
    (.senderDropped 0) (.senderDropped rfl)).snoc
    (.lastWoke 0 none) (.lastWoke rfl)).snoc
    .noSender (.receives rfl (.noSender rfl))

theorem noSender_overtaken : ¬ overtaken.Every (Drained id) := by
  intro drained
  cases drained.2.2.1

-- The Receiver has been dropped and no Sender is in an operation.
structure Finished (s : State D T) : Prop where
  receiver : s.receiver = .dropped
  senders : ∀ i, (s.sender i).point = .gone ∨ (s.sender i).point = .idle

-- readyq is empty, as `split` asserts, and each value sent was received or dropped once.
def NothingBehind (api : Deque D) (evs : List (Event T)) (s : State D T) : Prop :=
  s.cleared api = true ∧ (sentValues evs).Perm (receivedValues evs++discardedValues evs)

theorem Closing.behind_iff {evs : List (Event T)} {s : State (List Nat) T} (closing : Closing N evs s)
    (finished : Finished s) : NothingBehind (listApi N) evs s ↔ pushesSince evs = [] := by
  have ready := closing.counted.ready_nil (by rw [finished.receiver]; rfl)
  refine ⟨fun nothing => ready.mp (List.isEmpty_iff.mp nothing.1),fun none_ => ?_⟩
  have empty := ready.mpr none_
  have announced : ∀ i, (s.sender i).point.announced = [] := by
    intro i
    rcases finished.senders i with point | point <;> rw [point] <;> rfl
  have conserved := closing.tracked.valid.stored.conserved
  rw [finished.receiver,empty] at conserved
  have values : ((pushedValues evs).map some).Perm ((receivedValues evs++discardedValues evs).map some) := by
    simpa [ReceiverPoint.inFlight] using conserved
  have pushed := (List.map_perm_map_iff fun _ _ => Option.some.inj).mp values
  exact ⟨List.isEmpty_iff.mpr empty,(closing.tracked.accounted.sent_perm announced).symm.trans pushed⟩

theorem nothing_behind_iff {api : Deque D} {items : D → List Nat} (doc : Documented api N items) {s : State D T}
    (run : Run api N s) (finished : Finished s) : NothingBehind api run.events s ↔ pushesSince run.events = [] := by
  obtain ⟨listed,events,_,_⟩ := contents_run doc run
  have closing := listed.invariant (Closing N) initial_closing step_closing
  have settled : Finished (contents items s) := ⟨finished.receiver,finished.senders⟩
  have cleared : (contents items s).cleared (listApi N) = s.cleared api := (doc.isEmpty s.readyq).symm
  rw [← events,← closing.behind_iff settled]
  unfold NothingBehind
  rw [cleared]

theorem finished_single {s : State D T} {y : Sender T} (receiver : s.receiver = .dropped)
    (point : y.point = .gone ∨ y.point = .idle) (sender : ∀ i, s.sender i = if i = 0 then y else gone) : Finished s := by
  refine ⟨receiver,fun i => ?_⟩
  rw [sender i]
  split
  · exact point
  · exact Or.inl rfl

-- 7 is sent, then the Receiver is dropped.
def dropsWaiting :=
  ((((((((((((Transition.Run.start : Run (T:=Nat) (listApi 2) 2 _).snoc
    (.tryCalled 0 7) (.sends 0 rfl .tryCalled)).snoc
    (.passed 0) (.sends 0 rfl (.queueEmpty rfl))).snoc
    (.passed 0) (.sends 0 rfl (.isOpen rfl))).snoc
    (.claimed 0 0) (.tryClaimed rfl rfl)).snoc
    (.wrote 0 0 7) (.wrote rfl)).snoc
    (.pushed 0 0 7) (.pushed rfl)).snoc
    (.sent 0 7 none) (.sent rfl)).snoc
    .closing (.closing rfl)).snoc
    (.drained 0) (.drained rfl rfl)).snoc
    (.discarded 0 7) (.receives rfl (.discarded rfl))).snoc
    .drainEnded (.drainEnded rfl rfl)).snoc
    .receiverDropped (.receives rfl (.dropped rfl))

theorem dropsWaiting_nothing_behind : ∃ s, ∃ run : Run (T:=Nat) (listApi 2) 2 s, discardedValues run.events = [7] ∧
    NothingBehind (listApi 2) run.events s := by
  refine ⟨_,dropsWaiting,rfl,(nothing_behind_iff (listApi_documented 2) dropsWaiting ?_).mpr rfl⟩
  refine finished_single (y:=idle) rfl (Or.inr rfl) fun i => ?_
  by_cases here : i = 0 <;> simp [here,opened,idle]

-- 7 is written before the Receiver is dropped and pushed after that.
def pushesLate :=
  ((((((((((((Transition.Run.start : Run (T:=Nat) (listApi 2) 2 _).snoc
    (.tryCalled 0 7) (.sends 0 rfl .tryCalled)).snoc
    (.passed 0) (.sends 0 rfl (.queueEmpty rfl))).snoc
    (.passed 0) (.sends 0 rfl (.isOpen rfl))).snoc
    (.claimed 0 0) (.tryClaimed rfl rfl)).snoc
    (.wrote 0 0 7) (.wrote rfl)).snoc
    .closing (.closing rfl)).snoc
    .drainEnded (.drainEnded rfl rfl)).snoc
    .receiverDropped (.receives rfl (.dropped rfl))).snoc
    (.pushed 0 0 7) (.pushed rfl)).snoc
    (.sent 0 7 none) (.sent rfl)).snoc
    (.senderDropped 0) (.senderDropped rfl)).snoc
    (.lastWoke 0 none) (.lastWoke rfl)

theorem pushesLate_leaves : ¬ ∀ (s : State (List Nat) Nat) (run : Run (listApi 2) 2 s), Finished s →
    NothingBehind (listApi 2) run.events s := by
  intro nothing
  have finished := nothing _ pushesLate <| finished_single (y:=gone) rfl (Or.inl rfl) fun i => by
    by_cases here : i = 0 <;> simp [here,opened,idle,gone]
  cases finished.1

end Rtic.Sync.Channel
