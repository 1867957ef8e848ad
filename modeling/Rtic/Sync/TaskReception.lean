import Rtic.Executor.Progress
import Rtic.Sync.ChannelReception
namespace Rtic.Sync.Channel
open Function Transition Behaviors Rtic.Common
open BoundedDeque (Documented listApi listApi_documented)
variable {D T : Type} {N dispatcher : Nat}

-- The future of a software task has the Receiver: what its executor does and what happens on the channel, moment by
-- moment. The waker of the executor is `task`.
structure Runs {api : Deque D} {init : State D T} (task : Waker) (x : Executor.Behavior dispatcher)
    (b : Behavior (Step api) init) : Prop where
  wakes : ∀ n e, b.event n = some e → e.wakes = some task → x.event n = some .wake
  polled : ∀ n waker, b.event n = some (.polled waker) → waker = task
  -- the Receiver takes its steps within polls of the task
  inside : ∀ n e, b.event n = some e → e.actor = none → (∃ found latest, x.event n = some (.polled found latest)) ∨
    (x.state n).phase = .polling ∧ (x.event n = none ∨ x.event n = some .wake)
  -- a poll of the task goes on where it waits, and returns when it waits again or is complete
  resumes : ∀ n found latest waker, x.event n = some (.polled found latest) → (b.state n).receiver = .pending waker →
    ∃ e, b.event n = some e ∧ Resumes e
  suspends : ∀ n, x.event n = some .futurePending → (b.state n).receiver.busy = false
  completes : ∀ n, x.event n = some .futureReady →
    (b.state n).receiver.busy = false ∧ (b.state n).receiver.awaiting = false

-- The waker of the poll of recv that is under way or was the last.
def ReceiverPoint.waker : ReceiverPoint T → Option Waker
  | .register waker => some waker
  | p => p.watches

-- What the executor knows of the recv that its task waits for.
structure Attended (task : Waker) (evs : List (Event T)) (s : State (List Nat) T) (x : Executor.State) : Prop where
  busy : s.receiver.busy = true → x.phase = .polling
  started : ∀ waker, s.receiver.waker = some waker → waker = task ∧ x.exec.running = true ∧ x.phase ≠ .ready
  woken : ∀ waker, s.receiver.waker = some waker → Woken evs waker → x.exec.pending = true

section
variable {s t : State (List Nat) T} {e : Event T} {waker : Waker}

theorem waker_pending {p : ReceiverPoint T} (here : p.waker = some waker) : p = .pending waker ∨ p.busy = true := by
  cases p <;> first | exact .inr rfl | exact .inl (congrArg _ (Option.some.inj here)) | cases here

-- Only a poll brings a waker.
theorem step_waker (taken : Step (listApi N) s e t) (unpolled : e.polls = false) (here : t.receiver.waker = some waker) :
    s.receiver.waker = some waker := by
  cases own : e.actor with
  | some i => rwa [step_receiver taken own] at here
  | none =>
    have moves := receiver_moves taken own
    generalize s.receiver = p,t.receiver = q at moves here ⊢
    cases moves with
    | alone moves =>
      cases moves with
      | polled future => cases unpolled
      | empty alive =>
        rename_i origin
        cases origin with
        | none => cases here
        | some w => exact here
      | read written => exact here
      | _ => cases here
    | registered w woken => exact here
    | popped origin first => exact here
    | foundEmpty origin empty => exact here
    | _ => cases here

theorem step_registers (taken : Step (listApi N) s (.polled waker) t) : t.receiver = .register waker := by
  have moves := receiver_moves taken rfl
  generalize s.receiver = p,t.receiver = q at moves
  cases moves with
  | alone moves =>
    cases moves with
    | polled future => rfl

theorem step_gone (taken : Step (listApi N) s .recvDropped t) : t.receiver = .idle := by
  have moves := receiver_moves taken rfl
  generalize s.receiver = p,t.receiver = q at moves
  cases moves with
  | alone moves =>
    cases moves with
    | recvDropped future => rfl

end

section
variable {init : State (List Nat) T} {task : Waker} {x : Executor.Behavior dispatcher}
  {b : Behavior (Step (listApi N)) init} {n : Nat} {e : Event T} {waker : Waker}
  (runs : Runs task x b) (valid : ∀ n, Executor.Valid dispatcher (x.state n))
include runs

-- A poll of recv that has not ended, or that waits, keeps its future from being complete.
theorem Runs.unready (attended : Attended task (b.events n) (b.state n) (x.state n))
    (here : (b.state n).receiver.waker = some waker) :
    (x.state (n+1)).phase ≠ .ready ∧ (x.state (n+1)).exec.running = true := by
  obtain ⟨_,started,unready⟩ := attended.started waker here
  cases what : x.event n with
  | none =>
    rw [x.rests n what]
    exact ⟨unready,started⟩
  | some act =>
    rcases Executor.step_unready (x.taken n act what) unready started with rfl | still
    · obtain ⟨unbusy,settled⟩ := runs.completes n what
      rcases waker_pending here with pending | busy
      · rw [pending] at settled
        cases settled
      · cases unbusy.symm.trans busy
    · exact still

include valid

-- A step of the Receiver leaves the task in its poll.
theorem Runs.stays (here : b.event n = some e) (own : e.actor = none) : (x.state (n+1)).phase = .polling ∧
    (x.state (n+1)).exec.running = true := by
  have polling : (x.state (n+1)).phase = .polling := by
    rcases runs.inside n e here own with ⟨found,latest,enters⟩ | ⟨polling,still | wakes⟩
    · exact (Executor.step_enters (valid n) (x.taken n _ enters)).2.1
    · exact (congrArg Executor.State.phase (x.rests n still)).trans polling
    · exact Executor.step_wake_polling (valid n) (x.taken n _ wakes) polling
  exact ⟨polling,(valid (n+1)).started (.inr (.inl polling))⟩

theorem Runs.busy (attended : Attended task (b.events n) (b.state n) (x.state n))
    (busy : (b.state (n+1)).receiver.busy = true) : (x.state (n+1)).phase = .polling := by
  -- it was busy before, unless it has just begun
  have before : (∃ e, b.event n = some e ∧ e.actor = none) ∨ (b.state n).receiver.busy = true := by
    cases here : b.event n with
    | none =>
      rw [b.rests n here] at busy
      exact .inr busy
    | some e =>
      cases own : e.actor with
      | none => exact .inl ⟨e,rfl,own⟩
      | some i =>
        rw [step_receiver (b.taken n e here) own] at busy
        exact .inr busy
  rcases before with ⟨e,here,own⟩ | before
  · exact (runs.stays valid here own).1
  · have polling := attended.busy before
    cases what : x.event n with
    | none => exact (congrArg Executor.State.phase (x.rests n what)).trans polling
    | some act =>
      rcases Executor.step_polling (valid n) (x.taken n act what) polling with rfl | rfl | still
      · cases (runs.suspends n what).symm.trans before
      · cases (runs.completes n what).1.symm.trans before
      · exact still

theorem Runs.started (attended : Attended task (b.events n) (b.state n) (x.state n))
    (there : (b.state (n+1)).receiver.waker = some waker) :
    waker = task ∧ (x.state (n+1)).exec.running = true ∧ (x.state (n+1)).phase ≠ .ready := by
  have kept (here : (b.state n).receiver.waker = some waker) :
      waker = task ∧ (x.state (n+1)).exec.running = true ∧ (x.state (n+1)).phase ≠ .ready :=
    ⟨(attended.started waker here).1,(runs.unready attended here).symm⟩
  cases here : b.event n with
  | none =>
    rw [b.rests n here] at there
    exact kept there
  | some e =>
    cases polls : e.polls with
    | false => exact kept (step_waker (b.taken n e here) polls there)
    | true =>
      cases e with
      | polled w =>
        obtain ⟨polling,started⟩ := runs.stays valid here rfl
        rw [step_registers (b.taken n _ here)] at there
        refine ⟨(Option.some.inj there).symm.trans (runs.polled n w here),started,?_⟩
        rw [polling]
        exact nofun
      | _ => cases polls

-- The executor keeps the wake-up until it polls the task, and that poll goes on with the recv.
theorem Runs.woken (attended : Attended task (b.events n) (b.state n) (x.state n))
    (there : (b.state (n+1)).receiver.waker = some waker) (woken : Woken (b.events (n+1)) waker) :
    (x.state (n+1)).exec.pending = true := by
  have kept (here : (b.state n).receiver.waker = some waker) (woken : Woken (b.events n) waker)
      (unanswered : ∀ e, b.event n = some e → ¬Resumes e) : (x.state (n+1)).exec.pending = true := by
    obtain ⟨_,started,unready⟩ := attended.started waker here
    have pended := attended.woken waker here woken
    cases what : x.event n with
    | none => exact (congrArg (·.exec.pending) (x.rests n what)).trans pended
    | some act =>
      have step := x.taken n act what
      rcases Executor.step_woken ⟨started,pended⟩ step with answers | still
      · cases act with
        | polled found latest =>
          have checked := (Executor.step_enters (valid n) step).1
          rcases waker_pending here with pending | busy
          · obtain ⟨e,comes,resumes⟩ := runs.resumes n found latest waker what pending
            exact absurd resumes (unanswered e comes)
          · cases checked.symm.trans (attended.busy busy)
        | stopped => exact absurd (Executor.step_stopped step) unready
        | _ => cases answers
      · exact still.2
  cases here : b.event n with
  | none =>
    rw [b.rests n here] at there
    rw [b.events_none here] at woken
    refine kept there woken fun e comes => ?_
    cases here.symm.trans comes
  | some e =>
    rw [b.events_some here] at woken
    cases polls : e.polls with
    | true =>
      unfold Woken at woken
      rw [since_snoc,polls] at woken
      simp at woken
    | false =>
      have before := step_waker (b.taken n e here) polls there
      rcases (woken_snoc polls).mp woken with woken | wakes
      · refine kept before woken fun e' comes resumes => ?_
        cases here.symm.trans comes
        rcases resumes with polled | rfl
        · cases polls.symm.trans polled
        · rw [step_gone (b.taken n _ here)] at there
          cases there
      · rw [(attended.started waker before).1] at wakes
        exact Executor.step_wake (x.taken n _ (runs.wakes n e here wakes))

-- By induction on the moment.
theorem Runs.attended (base : init.receiver = .idle) (n : Nat) : Attended task (b.events n) (b.state n) (x.state n) := by
  induction n with
  | zero =>
    have none_ : (b.state 0).receiver = .idle := (congrArg State.receiver b.start).trans base
    constructor <;> rw [none_] <;> exact nofun
  | succ n attended =>
    exact ⟨runs.busy valid attended,fun _ => runs.started valid attended,fun _ => runs.woken valid attended⟩

-- So the executor polls a recv that has been woken.
theorem Runs.resumed (live : x.Every Executor.PollsLive) (fair : Executor.Fair x) (base : init.receiver = .idle)
    (pending : (b.state n).receiver = .pending waker) (woken : Woken (b.events n) waker) : b.Comes n Resumes := by
  have attended := runs.attended valid base
  have watched {m : Nat} (pending : (b.state m).receiver = .pending waker) : (b.state m).receiver.waker = some waker := by
    rw [pending]
    rfl
  have keeps : ∀ m, n ≤ m → (b.state m).receiver = .pending waker →
      (∃ e, b.event m = some e ∧ Resumes e) ∨ (b.state (m+1)).receiver = .pending waker := by
    intro m _ pending
    refine b.moment (fun _ s => s.receiver = .pending waker) pending fun e here => ?_
    exact (step_pending_or (b.taken m e here) pending).imp (fun resumes => ⟨e,here,resumes⟩) (·.1)
  have started := ((attended n).started waker (watched pending)).2.1
  have answered := fair.answers live ⟨started,(attended n).woken waker (watched pending) woken⟩
  obtain ⟨m,later,pending,resumes | ⟨act,what,answers⟩⟩ := meets (fun m => (b.state m).receiver = .pending waker)
    pending keeps answered
  · exact ⟨m,later,resumes⟩
  · cases act with
    | polled found latest => exact ⟨m,later,runs.resumes m found latest waker what pending⟩
    | stopped => exact absurd (Executor.step_stopped (x.taken m _ what)) ((attended m).started waker (watched pending)).2.2
    | _ => cases answers

end

-- A software task that waits in recv while there is a value, or no Sender left, is polled by its executor, and that recv
-- returns or is dropped.
theorem task_receives {api : Deque D} {items : D → List Nat} (doc : Documented api N items) {task : Waker}
    {x : Executor.Behavior dispatcher} {b : Behavior (Step api) (initial api N : State D T)}
    (live : x.Every Executor.PollsLive) (fair : Executor.Fair x) (runs : Runs task x b) (acts : Acts b) (n : Nat)
    (waker : Waker) (pending : (b.state n).receiver = .pending waker)
    (due : api.isEmpty (b.state n).readyq = false ∨ (b.state n).numSenders = 0) :
    b.Comes n fun e => Answered e ∨ e = .recvDropped := by
  have runs' : Runs task x (listed doc b) :=
    ⟨runs.wakes,runs.polled,runs.inside,runs.resumes,runs.suspends,runs.completes⟩
  have answers : Answers (listed doc b) := by
    refine ⟨⟨acts.receives,acts.wakes⟩,fun m w pending woken => ?_⟩
    exact runs'.resumed (fun k => (Executor.every_sound live k).1) live fair rfl pending woken
  refine answers.due_answered (every_watched doc b) pending (due.imp_left fun filled => ?_)
  rw [doc.isEmpty,List.isEmpty_eq_false_iff] at filled
  exact filled

-- A task is spawned, waits in recv, is woken by a try_send and receives. First its executor, then the channel.
def receivingTask : Executor.Behavior 3 :=
  .after _ (.allocated rfl (Or.inl rfl) rfl) <|
  .after _ (.wrote rfl) <|
  .after _ (.setPending rfl) <|
  .after _ (.pend rfl) <|
  .after _ (.dispatch rfl (by decide) rfl) <|
  .after _ (.running rfl rfl rfl) <|
  .after _ (.polled rfl rfl rfl) <| .pause <| .pause <| .pause <| .pause <|
  .after _ (.futurePending rfl rfl) <|
  .after _ (.leave rfl rfl (by decide)) <|
  .after _ (.wake rfl (Or.inl rfl)) <|
  .after _ (.pend rfl) <|
  .after _ (.dispatch rfl (by decide) rfl) <|
  .after _ (.running rfl rfl rfl) <|
  .after _ (.polled rfl rfl rfl) <| .pause <| .pause <| .pause <| .pause <|
  .after _ (.futurePending rfl rfl) <|
  .after _ (.leave rfl rfl (by decide)) (.rest _)

def receivedByTask : Behavior (Step (listApi 2)) (initial (listApi 2) 2 : State (List Nat) Nat) :=
  .after (.tryCalled 0 61) (.sends 0 rfl .tryCalled) <|
  .after (.passed 0) (.sends 0 rfl (.queueEmpty rfl)) <|
  .after (.passed 0) (.sends 0 rfl (.isOpen rfl)) <|
  .after (.claimed 0 0) (.tryClaimed rfl rfl) <|
  .after (.wrote 0 0 61) (.wrote rfl) <| .pause <|
  .after .recvCalled (.receives rfl .recvCalled) <|
  .after (.polled ⟨6,0⟩) (.receives rfl (.polled rfl)) <|
  .after (.registered none) (.registered rfl) <|
  .after .foundEmpty (.foundEmpty rfl rfl) <|
  .after .empty (.receives rfl (.empty (by decide))) <|
  .after (.pushed 0 0 61) (.pushed rfl) <| .pause <|
  .after (.sent 0 61 (some ⟨6,0⟩)) (.sent rfl) <| .pause <| .pause <| .pause <|
  .after (.polled ⟨6,0⟩) (.receives rfl (.polled rfl)) <|
  .after (.registered none) (.registered rfl) <|
  .after (.popped 0) (.popped rfl rfl) <|
  .after (.slotRead 0 61) (.receives rfl (.read rfl)) <|
  .after (.received 0 61 none) (.received rfl rfl) (.rest _)

theorem receivingTask_live : receivingTask.Every Executor.PollsLive := by
  rintro n e here found latest rfl
  match n with
  | 6 | 17 => cases here; rfl
  | 0 | 1 | 2 | 3 | 4 | 5 | 7 | 8 | 9 | 10 | 11 | 12 | 13 | 14 | 15 | 16 | 18 | 19 | 20 | 21 | 22 | 23 => cases here
  | n+24 => cases here

theorem receivingTask_fair : Executor.Fair receivingTask := by
  refine ⟨fun n => ⟨n+24,by omega,rfl⟩,fun n alone latched _ => ?_,nofun⟩
  match n with
  | 0 | 1 | 2 | 3 | 4 => exact ⟨4,by decide,_,rfl,rfl⟩
  | 12 | 13 | 14 | 15 => exact ⟨15,by decide,_,rfl,rfl⟩
  | 5 | 6 | 7 | 8 | 9 | 10 | 11 | 16 | 17 | 18 | 19 | 20 | 21 | 22 | 23 => cases alone
  | n+24 => cases latched

theorem receivedByTask_runs : Runs ⟨6,0⟩ receivingTask receivedByTask where
  wakes n e here wakes := by
    match n with
    | 13 => rfl
    | 0 | 1 | 2 | 3 | 4 | 6 | 7 | 8 | 9 | 10 | 11 | 17 | 18 | 19 | 20 | 21 => cases here; cases wakes
    | 5 | 12 | 14 | 15 | 16 => cases here
    | n+22 => cases here
  polled n waker here := by
    match n with
    | 7 | 17 => cases here; rfl
    | 0 | 1 | 2 | 3 | 4 | 5 | 6 | 8 | 9 | 10 | 11 | 12 | 13 | 14 | 15 | 16 | 18 | 19 | 20 | 21 => cases here
    | n+22 => cases here
  inside n e here own := by
    match n with
    | 6 | 17 => exact .inl ⟨_,_,rfl⟩
    | 7 | 8 | 9 | 10 | 18 | 19 | 20 | 21 => exact .inr ⟨rfl,.inl rfl⟩
    | 0 | 1 | 2 | 3 | 4 | 11 | 13 => cases here; cases own
    | 5 | 12 | 14 | 15 | 16 => cases here
    | n+22 => cases here
  resumes n found latest waker polls pending := by
    match n with
    | 17 => exact ⟨_,rfl,.inl rfl⟩
    | 6 => cases pending
    | 0 | 1 | 2 | 3 | 4 | 5 | 7 | 8 | 9 | 10 | 11 | 12 | 13 | 14 | 15 | 16 | 18 | 19 | 20 | 21 | 22 | 23 => cases polls
    | n+24 => cases polls
  suspends n suspends := by
    match n with
    | 11 | 22 => rfl
    | 0 | 1 | 2 | 3 | 4 | 5 | 6 | 7 | 8 | 9 | 10 | 12 | 13 | 14 | 15 | 16 | 17 | 18 | 19 | 20 | 21 | 23 => cases suspends
    | n+24 => cases suspends
  completes n completes := by
    match n with
    | 0 | 1 | 2 | 3 | 4 | 5 | 6 | 7 | 8 | 9 | 10 | 11 | 12 => cases completes
    | 13 | 14 | 15 | 16 | 17 | 18 | 19 | 20 | 21 | 22 | 23 => cases completes
    | n+24 => cases completes

theorem receivedByTask_late (n : Nat) (late : 14 ≤ n) : (receivedByTask.state n).sender 0 = idle ∧
    (22 ≤ n → (receivedByTask.state n).receiver = .idle) := by
  obtain ⟨k,rfl⟩ := Nat.exists_eq_add_of_le' late
  match k with
  | 0 | 1 | 2 | 3 | 4 | 5 | 6 | 7 => exact ⟨rfl,by omega⟩
  | k+8 => exact ⟨rfl,fun _ => rfl⟩

theorem receivedByTask_handles (n : Nat) : (receivedByTask.state n).handles = 1 := by
  match n with
  | 0 | 1 | 2 | 3 | 4 | 5 | 6 | 7 | 8 | 9 | 10 | 11 | 12 | 13 | 14 | 15 | 16 | 17 | 18 | 19 | 20 | 21 => rfl
  | n+22 => rfl

theorem receivedByTask_acts : Acts receivedByTask := by
  refine ⟨fun n busy => ⟨21,?_,_,rfl,rfl⟩,fun n i due => ?_⟩
  · by_contra late
    rw [(receivedByTask_late n (by omega)).2 (by omega)] at busy
    cases busy
  · by_cases first : i = 0
    · subst first
      refine ⟨13,?_,_,rfl,rfl⟩
      by_contra late
      rw [(receivedByTask_late n (by omega)).1] at due
      cases due
    · have beyond : (receivedByTask.state n).handles ≤ i := by
        rw [receivedByTask_handles]
        exact Nat.pos_of_ne_zero first
      rw [(every_served initial_served n).tracked.valid.sound.queue.unused i beyond] at due
      cases due

-- At moment 12 the value is there, and neither the Receiver nor the task has been woken.
theorem receivedByTask_answered : receivedByTask.Comes 12 fun e => Answered e ∨ e = .recvDropped :=
  task_receives (listApi_documented 2) receivingTask_live receivingTask_fair receivedByTask_runs receivedByTask_acts 12
    ⟨6,0⟩ rfl (.inl rfl)

end Rtic.Sync.Channel
