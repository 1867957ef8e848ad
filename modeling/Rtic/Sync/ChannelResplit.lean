import Rtic.Sync.ChannelClosing
namespace Rtic.Sync.Channel
open Function Buckets Transition Rtic.Common
open BoundedDeque (Documented listApi listApi_documented)
variable {D T : Type} {N : Nat}

-- Between two critical sections of one operation.
def SenderPoint.busy : SenderPoint T → Bool
  | .gone => false
  | .idle => false
  | .fresh _ => false
  | .waiting _ => false
  | _ => true

def ReceiverPoint.busy : ReceiverPoint T → Bool
  | .idle => false
  | .fresh => false
  | .pending _ => false
  | .dropped => false
  | _ => true

-- No operation begins before the one under way has ended.
def Sequential (_ : List (Event T)) (s : State D T) (e : Event T) (_ : State D T) : Prop :=
  (∀ i, (s.sender i).point.busy = true → e.actor = some i) ∧ (s.receiver.busy = true → e.actor = none)

-- All handles and all futures are gone.
structure Ended (s : State D T) : Prop where
  receiver : s.receiver = .dropped
  senders : ∀ i, (s.sender i).point = .gone

-- What the users of the handles see: their own calls, polls and drops, and what
-- these return.
inductive Observation (T : Type) where
  | tryCalled (i : Nat) (val : T)
  | sendCalled (i : Nat) (val : T)
  | refused (i : Nat) (val : T) (error : TrySendError)
  | pending (i : Nat)
  | ok (i : Nat) (val : T)
  | noReceiver (i : Nat) (val : T)
  | sendDropped (i : Nat) (val : T)
  | cloned (i j : Nat)
  | senderDropped (i : Nat)
  | senderAsked (i : Nat) (query : Query) (answer : Bool)
  | tryRecvCalled
  | recvCalled
  | polled (waker : Waker)
  | recvDropped
  | received (val : T)
  | noSender
  | empty
  | closing
  | receiverAsked (query : Query) (answer : Bool)
  deriving DecidableEq, Repr

def Event.observed : Event T → Option (Observation T)
  | .tryCalled i val => some (.tryCalled i val)
  | .sendCalled i val => some (.sendCalled i val)
  | .refused i val error => some (.refused i val error)
  | .queued i _ => some (.pending i)
  | .stillPending i => some (.pending i)
  | .sent i val _ => some (.ok i val)
  | .left i val .noReceiver => some (.noReceiver i val)
  | .left i val .dropped => some (.sendDropped i val)
  | .forgotten i val => some (.sendDropped i val)
  | .cloned i j => some (.cloned i j)
  | .senderDropped i => some (.senderDropped i)
  | .senderAsked i query answer => some (.senderAsked i query answer)
  | .tryRecvCalled => some .tryRecvCalled
  | .recvCalled => some .recvCalled
  | .polled waker => some (.polled waker)
  | .recvDropped => some .recvDropped
  | .received _ val _ => some (.received val)
  | .noSender => some .noSender
  | .empty => some .empty
  | .closing => some .closing
  | .receiverAsked query answer => some (.receiverAsked query answer)
  | _ => none

-- What some sequence of operations on the handles of a split channel lets them see.
def Observed (api : Deque D) (N : Nat) (channel : Channel D T) (trace : List (Observation T)) : Prop :=
  ∃ t, ∃ run : Transition.Run (Step api) (opened (channel.split api N)) t,
    run.Every Sequential ∧ run.events.filterMap Event.observed = trace

def SameBehaviour (api : Deque D) (N : Nat) (channel channel' : Channel D T) : Prop :=
  ∀ trace, Observed api N channel trace ↔ Observed api N channel' trace

section
variable {api : Deque D} {s t : State D T} {e : Event T}

theorem dropped_answers (taken : Step api s e t) (dropped : s.receiverDropped = true) {i : Nat} {answer : Bool}
    (asked : e = .senderAsked i .isClosed answer) : answer = true := by
  cases asked
  cases taken with
  | sends j here moves =>
    cases moves with
    | asked => exact dropped
  | receives here moves => cases moves

-- `split` leaves receiver_dropped alone, and nothing else sets it back.
theorem reopened_closed {channel : Channel D T} (dropped : channel.receiverDropped = true) {i : Nat} :
    ¬ Observed api N channel [.senderAsked i .isClosed false] := by
  rintro ⟨t,run,_,seen⟩
  have answers : run.Every fun _ _ e _ => ∀ i answer, e = .senderAsked i .isClosed answer → answer = true :=
    run.every (fun _ s => s.receiverDropped = true) dropped (fun dropped taken => step_receiverDropped taken dropped)
      fun dropped taken i answer asked => dropped_answers taken dropped asked
  have member : Observation.senderAsked i .isClosed false ∈ run.events.filterMap Event.observed := by
    rw [seen]
    exact List.mem_cons_self
  obtain ⟨e,present,same⟩ := List.mem_filterMap.mp member
  have asked : e = .senderAsked i .isClosed false := by
    unfold Event.observed at same
    split at same <;> simp_all
  cases answers.mem present _ _ asked

theorem new_open : Observed api N (Channel.new api : Channel D T) [.senderAsked 0 .isClosed false] := by
  refine ⟨_,.snoc .start (.senderAsked 0 .isClosed false) (.sends 0 rfl .asked),⟨True.intro,fun i busy => ?_,nofun⟩,rfl⟩
  have point : ∀ i, (if i = 0 then idle else gone : Sender T).point.busy = false := fun i => by split <;> rfl
  cases (point i).symm.trans busy

theorem shut_differs {channel : Channel D T} (dropped : channel.receiverDropped = true) :
    ¬ SameBehaviour api N channel (Channel.new api) := by
  intro same
  exact reopened_closed dropped ((same _).mpr new_open)
end

def Outcome.isSlot : Outcome → Bool
  | .slot _ => true
  | .noReceiver => false
  | .dropped => false

-- The operation will push a value, or try_send may still get a slot for it.
def SenderPoint.ahead : SenderPoint T → Bool
  | .tryClaim _ => true
  | .unlink _ outcome => outcome.isSlot
  | .takeSlot _ outcome => outcome.isSlot
  | .giveBack _ outcome _ => outcome.isSlot
  | .leave _ outcome => outcome.isSlot
  | .write _ _ => true
  | .publish _ _ => true
  | _ => false

-- Once the Receiver's drop has begun no Sender is on its way to a push.
structure Shut (evs : List (Event T)) (s : State (List Nat) T) : Prop where
  closed : s.receiver.alive = false → s.receiverDropped = true
  ahead : s.receiver.alive = false → ∀ i, (s.sender i).point.ahead = false
  quiet : s.receiver.alive = false → s.receiver.foundNone = true → pushesSince evs = []

section
variable {evs : List (Event T)} {s t : State (List Nat) T} {e : Event T} {i : Nat}

theorem ahead_busy {p : SenderPoint T} (idle : p.busy = false) : p.ahead = false := by
  cases p <;> first | rfl | cases idle

theorem local_ahead {x y : Sender T} (moves : Local (listApi N) s i x e y) (dropped : s.receiverDropped = true)
    (before : x.point.ahead = false) : y.point.ahead = false := by
  cases moves with
  | isOpen alive => rw [dropped] at alive; cases alive
  | granted future alive popped => rw [dropped] at alive; cases alive
  | left =>
    rename_i val outcome c f
    cases outcome with
    | slot idx => cases before
    | noReceiver => rfl
    | dropped => rfl
  | nothingLinked out => exact before
  | reclaimed => exact before
  | nothingLeft => exact before
  | _ => rfl

-- With the Receiver dropped, a Sender's own step brings it no closer to a push.
theorem own_ahead (taken : Step (listApi N) s e t) (own : e.actor = some i) (dropped : s.receiverDropped = true)
    (before : (s.sender i).point.ahead = false) : (t.sender i).point.ahead = false ∧ e.push = none := by
  cases taken with
  | sends j here moves =>
    obtain rfl := Option.some.inj ((local_actor moves).symm.trans own)
    rw [here] at before
    simp only [update_self]
    exact ⟨local_ahead moves dropped before,by cases moves <;> rfl⟩
  | receives here moves => cases moves <;> cases own
  | tryClaimed here got =>
    cases own
    rw [here] at before
    cases before
  | claimed here future alive first some_ =>
    rw [dropped] at alive
    cases alive
  | queued here future alive full =>
    rw [dropped] at alive
    cases alive
  | unlinked here queued =>
    cases own
    rw [here] at before
    simp only [update_self]
    exact ⟨before,rfl⟩
  | gaveBack here returned =>
    cases own
    rw [here] at before
    simp only [update_self]
    exact ⟨before,rfl⟩
  | wrote here =>
    cases own
    rw [here] at before
    cases before
  | pushed here =>
    cases own
    rw [here] at before
    cases before
  | cloned here =>
    cases own
    refine ⟨?_,rfl⟩
    by_cases new : i = s.handles
    · simp [new,idle,SenderPoint.ahead]
    · simpa [update_of_ne new] using before
  | senderDropped here =>
    cases own
    simp only [update_self]
    split <;> exact ⟨rfl,rfl⟩
  | tryFull here got =>
    cases own
    simp only [update_self]
    exact ⟨rfl,rfl⟩
  | sent here =>
    cases own
    simp only [update_self]
    exact ⟨rfl,rfl⟩
  | lastWoke here =>
    cases own
    simp only [update_self]
    exact ⟨rfl,rfl⟩
  | _ => cases own

theorem step_shut (shut : Shut evs s) (taken : Step (listApi N) s e t) (sequential : Sequential evs s e t) :
    Shut (evs++[e]) t := by
  have both : t.receiver.alive = false → t.receiverDropped = true ∧ (∀ i, (t.sender i).point.ahead = false) ∧
      (t.receiver.foundNone = true → pushesSince (evs++[e]) = []) := by
    intro here
    rcases step_shutting taken here with before | ⟨_,rfl,rfl⟩
    · have dropped := shut.closed before
      have ahead := shut.ahead before
      have quiet : e.push = none := by
        cases who : e.actor with
        | none => cases e <;> first | rfl | cases who
        | some i => exact (own_ahead taken who dropped (ahead i)).2
      refine ⟨step_receiverDropped taken dropped,fun i => ?_,fun found => ?_⟩
      · by_cases own : e.actor = some i
        · exact (own_ahead taken own dropped (ahead i)).1
        · rcases step_point taken own with same | ⟨new,_⟩
          · rw [same]
            exact ahead i
          · rw [new]
            rfl
      · rw [pushesSince_snoc,quiet]
        rcases step_foundNone taken found with ⟨now,_⟩ | ⟨other,earlier,_⟩
        · rw [now]
          rfl
        · rw [other,shut.quiet before earlier]
          rfl
    · refine ⟨rfl,fun i => ahead_busy ?_,nofun⟩
      cases working : (s.sender i).point.busy with
      | false => rfl
      | true => cases sequential.1 i working
  exact ⟨fun here => (both here).1,fun here => (both here).2.1,fun here => (both here).2.2⟩

theorem initial_shut :
    Shut [] (initial (listApi N) N : State (List Nat) T) := ⟨nofun,nofun,nofun⟩
end

-- After every history that lets each operation end before the next begins, the
-- assertion of a further `split` holds, and the Sender it returns is closed.
theorem resplit_differs {api : Deque D} {items : D → List Nat} (doc : Documented api N items) {s : State D T}
    (run : Run api N s) (sequential : run.Every Sequential) (ended : Ended s) :
    s.cleared api = true ∧ ¬ SameBehaviour api N s.toChannel (Channel.new api) := by
  obtain ⟨listed,_,_,every⟩ := contents_run doc run
  have invariant := listed.guarded (fun evs s => Closing N evs s ∧ Shut evs s) ⟨initial_closing,initial_shut⟩
    (fun both taken sequential => ⟨step_closing both.1 taken,step_shut both.2 taken sequential⟩)
    ((every Sequential).mpr sequential)
  have receiver : (contents items s).receiver = .dropped := ended.receiver
  obtain ⟨closing,shut⟩ := invariant
  have alive : (contents items s).receiver.alive = false := by rw [receiver]; rfl
  have found : (contents items s).receiver.foundNone = true := by rw [receiver]; rfl
  have empty := (closing.counted.ready_nil found).mpr (shut.quiet alive found)
  refine ⟨?_,shut_differs (shut.closed alive)⟩
  unfold Channel.cleared
  rw [doc.isEmpty]
  exact List.isEmpty_iff.mpr empty

-- The Sender is dropped, then the Receiver.
def dropsBoth :=
  (((((Transition.Run.start : Run (T:=Nat) (listApi 3) 3 _).snoc
    (.senderDropped 0) (.senderDropped rfl)).snoc
    (.lastWoke 0 none) (.lastWoke rfl)).snoc
    .closing (.closing rfl)).snoc
    .drainEnded (.drainEnded rfl rfl)).snoc
    .receiverDropped (.receives rfl (.dropped rfl))

theorem sequential_single {s t : State D T} {e : Event T} {y : Sender T} {evs : List (Event T)}
    (sender : ∀ i, s.sender i = if i = 0 then y else gone) (mine : y.point.busy = false ∨ e.actor = some 0)
    (receiver : s.receiver.busy = false ∨ e.actor = none) : Sequential evs s e t := by
  constructor
  · intro i working
    rw [sender i] at working
    split at working
    · rename_i here
      subst here
      rcases mine with rest | own
      · rw [rest] at working
        cases working
      · exact own
    · cases working
  · intro working
    rcases receiver with rest | own
    · rw [rest] at working
      cases working
    · exact own

theorem dropsBoth_sequential : dropsBoth.Every Sequential := by
  refine ⟨⟨⟨⟨⟨True.intro,?_⟩,?_⟩,?_⟩,?_⟩,?_⟩
  · exact sequential_single (y:=idle) (fun i => rfl) (Or.inl rfl) (Or.inl rfl)
  · refine sequential_single (y:=⟨.lastDropped,none,none⟩) (fun i => ?_) (Or.inr rfl) (Or.inl rfl)
    by_cases here : i = 0 <;> simp [here,opened,idle,Channel.split]
  all_goals
    refine sequential_single (y:=gone) (fun i => ?_) (Or.inl rfl) (Or.inr rfl)
    by_cases here : i = 0 <;> simp [here,opened,idle,gone]

theorem resplit_differs_dropsBoth : ∃ s : State (List Nat) Nat, s.cleared (listApi 3) = true ∧
    ¬ SameBehaviour (listApi 3) 3 s.toChannel (Channel.new (listApi 3)) := by
  refine ⟨_,resplit_differs (listApi_documented 3) dropsBoth dropsBoth_sequential ⟨rfl,fun i => ?_⟩⟩
  by_cases here : i = 0 <;> simp [here,opened,idle,gone]

theorem resplit_not_fresh : ¬ ∀ (s : State (List Nat) Nat) (run : Run (listApi 3) 3 s), run.Every Sequential → Ended s →
    SameBehaviour (listApi 3) 3 s.toChannel (Channel.new (listApi 3)) := by
  intro same
  refine shut_differs rfl (same _ dropsBoth dropsBoth_sequential ⟨rfl,fun i => ?_⟩)
  by_cases here : i = 0 <;> simp [here,opened,idle,gone]

end Rtic.Sync.Channel
