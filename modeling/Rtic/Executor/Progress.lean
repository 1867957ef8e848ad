import Rtic.Executor.Wakeups
import Rtic.Library.Behaviors
namespace Rtic.Executor
open Transition Behaviors AsyncTaskExecutor

abbrev Behavior (dispatcher : Nat) := Behaviors.Behavior (Step dispatcher) (initial dispatcher)

-- The processor comes back to main again and again, so each context above it ends. A handler that is latched as main runs
-- is entered, and where main is the dispatcher its loop goes round.
structure Fair {dispatcher : Nat} (b : Behavior dispatcher) : Prop where
  returns : ∀ n, ∃ m, n ≤ m ∧ (b.state m).stack.length = 1
  enters : ∀ n, (b.state n).stack.length = 1 → (b.state n).latched = true → 0 < dispatcher → b.Comes n (· = .dispatch)
  loops : dispatcher = 0 → ∀ n, b.Comes n (· = .loop)

-- The future is polled, or it has returned `Poll::Ready` and the executor is released.
def Answers : Event → Prop
  | .polled _ _ => True
  | .stopped => True
  | _ => False

-- A wake-up that has not been answered.
def Woken (s : State) : Prop := s.exec.running = true ∧ s.exec.pending = true

-- The dispatcher has entered its round and not yet passed this task.
def Underway (s : State) : Prop := s.phase = .before ∨ s.phase = .checked

def mainFrame (dispatcher : Nat) : Frame := ⟨0,if dispatcher = 0 then .dispatcher else .user⟩

def Grounded (dispatcher : Nat) (s : State) : Prop := s.stack.getLast? = some (mainFrame dispatcher)

section
variable {dispatcher : Nat} {s t : State} {e : Event}

theorem initial_grounded (dispatcher : Nat) : Grounded dispatcher (initial dispatcher) := by
  unfold Grounded initial mainFrame
  split <;> rfl

theorem Grounded.under {f : Frame} {below : List Frame} (grounded : Grounded dispatcher s) (running : s.stack = f::below)
    (other : f ≠ mainFrame dispatcher ∨ below ≠ []) : below.getLast? = some (mainFrame dispatcher) := by
  unfold Grounded at grounded
  rw [running] at grounded
  cases below with
  | nil => exact absurd (Option.some.inj grounded) (other.resolve_right (· rfl))
  | cons next rest => rwa [List.getLast?_cons_cons] at grounded

theorem grounded_over {below : List Frame} (f : Frame) (grounded : below.getLast? = some (mainFrame dispatcher)) :
    (f::below).getLast? = some (mainFrame dispatcher) := by
  rw [List.getLast?_cons,grounded]
  rfl

-- Main is never left.
theorem step_grounded (grounded : Grounded dispatcher s) (step : Step dispatcher s e t) : Grounded dispatcher t := by
  have inner : ∀ {priority point}, point ≠ .user → point ≠ .dispatcher → (⟨priority,point⟩ : Frame) ≠ mainFrame dispatcher := by
    intro priority point user handler same
    have same := congrArg Frame.point same
    unfold mainFrame at same
    dsimp only at same
    split at same
    · exact handler same
    · exact user same
  cases step with
  | interrupt running above => exact grounded_over _ grounded
  | dispatch running above latched => exact grounded_over _ grounded
  | allocated running user free => exact grounded_over _ grounded
  | wake running user => exact grounded_over _ grounded
  | finish running nested => exact grounded.under running (.inr nested)
  | pend running => exact grounded.under running (.inl (inner (by simp) (by simp)))
  | leave running phase handler =>
    refine grounded.under running (.inl fun same => ?_)
    have same := congrArg Frame.point same
    simp [mainFrame,Nat.pos_iff_ne_zero.mp handler] at same
  | wrote running => exact grounded_over _ (grounded.under running (.inl (inner (by simp) (by simp))))
  | setPending running => exact grounded_over _ (grounded.under running (.inl (inner (by simp) (by simp))))
  | _ => exact grounded

-- A wake-up stays until it is answered.
theorem step_woken (woken : Woken s) (step : Step dispatcher s e t) : Answers e ∨ Woken t := by
  obtain ⟨started,pended⟩ := woken
  cases step with
  | polled running phase set => exact .inl True.intro
  | stopped running phase => exact .inl True.intro
  | notPending running phase clear =>
    have unset := (checkAndClearPending_false clear).1
    rw [pended] at unset
    cases unset
  | allocated running user free =>
    have halted := (tryAllocate_true free).1
    rw [started] at halted
    cases halted
  | refused running user taken =>
    obtain ⟨_,rfl⟩ := tryAllocate_false taken
    exact .inr ⟨started,pended⟩
  | futureReady running phase => exact .inr ⟨by simpa using started,by simpa using pended⟩
  | setPending running => exact .inr ⟨started,rfl⟩
  | wake running user => exact .inr ⟨started,rfl⟩
  | _ => exact .inr ⟨started,pended⟩

-- The dispatcher does not pass a task that is woken.
theorem step_underway (woken : Woken s) (underway : Underway s) (step : Step dispatcher s e t) : Answers e ∨ Underway t := by
  obtain ⟨started,pended⟩ := woken
  cases step with
  | polled running phase set => exact .inl True.intro
  | stopped running phase => exact .inl True.intro
  | dispatch running above latched => exact .inr (.inl rfl)
  | notRunning running phase stopped =>
    rw [AsyncTaskExecutor.isRunning,started] at stopped
    cases stopped
  | running running phase started => exact .inr (.inr rfl)
  | notPending running phase clear =>
    have unset := (checkAndClearPending_false clear).1
    rw [pended] at unset
    cases unset
  | futurePending running phase => simp [Underway,phase] at underway
  | futureReady running phase => simp [Underway,phase] at underway
  | leave running phase handler => simp [Underway,phase] at underway
  | loop running phase main => exact .inr (.inl rfl)
  | _ => exact .inr underway

-- While only main runs, the dispatcher is not underway, unless it is main.
theorem Valid.underway_main (valid : Valid dispatcher s) (grounded : Grounded dispatcher s) (alone : s.stack.length = 1)
    (handler : 0 < dispatcher) : s.phase = .idle := by
  by_contra busy
  have member := valid.active busy
  obtain ⟨main,only⟩ := List.length_eq_one_iff.mp alone
  unfold Grounded at grounded
  rw [only] at grounded member
  have same := (List.mem_singleton.mp member).trans (Option.some.inj grounded)
  have same := congrArg Frame.priority same
  exact Nat.pos_iff_ne_zero.mp handler same

-- A wake-up that is not answered as main runs has latched the handler.
theorem Waking.latched_main (waking : Waking dispatcher s) (valid : Valid dispatcher s) (grounded : Grounded dispatcher s)
    (alone : s.stack.length = 1) (handler : 0 < dispatcher) (woken : Woken s) : s.latched = true := by
  rcases waking.kept woken.1 woken.2 with latched | ⟨_,early | early | main⟩ | ⟨f,member,owed⟩
  · exact latched
  · rw [valid.underway_main grounded alone handler] at early
    cases early
  · rw [valid.underway_main grounded alone handler] at early
    cases early
  · exact absurd main (Nat.pos_iff_ne_zero.mp handler)
  · obtain ⟨main,only⟩ := List.length_eq_one_iff.mp alone
    unfold Grounded at grounded
    rw [only] at grounded member
    have same : f = mainFrame dispatcher := (List.mem_singleton.mp member).trans (Option.some.inj grounded)
    rw [same] at owed
    simp [Frame.owesPend,mainFrame,Nat.pos_iff_ne_zero.mp handler] at owed

theorem step_loop (step : Step dispatcher s .loop t) : s.phase = .after ∧ t.phase = .before := by
  cases step with
  | loop running phase main => exact ⟨phase,rfl⟩

theorem step_dispatch (step : Step dispatcher s .dispatch t) : t.phase = .before := by
  cases step with
  | dispatch running above latched => rfl

-- A poll of the future goes on until that has returned.
theorem step_polling (valid : Valid dispatcher s) (step : Step dispatcher s e t) (polling : s.phase = .polling) :
    e = .futurePending ∨ e = .futureReady ∨ t.phase = .polling := by
  cases step with
  | dispatch running above latched => cases (valid.entered running above).symm.trans polling
  | notRunning running phase stopped => cases phase.symm.trans polling
  | running running phase started => cases phase.symm.trans polling
  | notPending running phase clear => cases phase.symm.trans polling
  | polled running phase set => exact .inr (.inr rfl)
  | futurePending running phase => exact .inl rfl
  | futureReady running phase => exact .inr (.inl rfl)
  | stopped running phase => cases phase.symm.trans polling
  | leave running phase handler => cases phase.symm.trans polling
  | loop running phase main => cases phase.symm.trans polling
  | _ => exact .inr (.inr polling)

theorem step_unready (step : Step dispatcher s e t) (unready : s.phase ≠ .ready) (started : s.exec.running = true) :
    e = .futureReady ∨ t.phase ≠ .ready ∧ t.exec.running = true := by
  cases step with
  | notPending running phase clear =>
    obtain ⟨_,rfl⟩ := checkAndClearPending_false clear
    exact .inr ⟨by simp,started⟩
  | polled running phase set =>
    obtain ⟨_,rfl⟩ := checkAndClearPending_true set
    exact .inr ⟨by simp,started⟩
  | futureReady running phase => exact .inl rfl
  | stopped running phase => exact absurd phase unready
  | allocated running user free =>
    obtain ⟨_,rfl⟩ := tryAllocate_true free
    exact .inr ⟨unready,rfl⟩
  | refused running user taken =>
    obtain ⟨_,rfl⟩ := tryAllocate_false taken
    exact .inr ⟨unready,started⟩
  | dispatch running above latched => exact .inr ⟨by simp,started⟩
  | notRunning running phase stopped => exact .inr ⟨by simp,started⟩
  | running running phase go => exact .inr ⟨by simp,started⟩
  | futurePending running phase => exact .inr ⟨by simp,started⟩
  | leave running phase handler => exact .inr ⟨by simp,started⟩
  | loop running phase main => exact .inr ⟨by simp,started⟩
  | _ => exact .inr ⟨unready,started⟩

theorem step_wake (step : Step dispatcher s .wake t) : t.exec.pending = true := by
  cases step with
  | wake running user => rfl

theorem step_stopped (step : Step dispatcher s .stopped t) : s.phase = .ready := by
  cases step with
  | stopped running phase => exact phase

theorem step_enters {found : Storage} {latest : Nat} (valid : Valid dispatcher s)
    (step : Step dispatcher s (.polled found latest) t) :
    s.phase = .checked ∧ t.phase = .polling ∧ t.exec.running = true := by
  cases step with
  | polled running phase set =>
    obtain ⟨_,rfl⟩ := checkAndClearPending_true set
    exact ⟨phase,rfl,valid.started (.inl phase)⟩

theorem step_wake_polling (valid : Valid dispatcher s) (step : Step dispatcher s .wake t) (polling : s.phase = .polling) :
    t.phase = .polling :=
  ((step_polling valid step polling).resolve_left nofun).resolve_left nofun

end

section
variable {dispatcher n m : Nat} {b : Behavior dispatcher}

theorem every_sound (live : b.Every PollsLive) (n : Nat) :
    Valid dispatcher (b.state n) ∧ Waking dispatcher (b.state n) ∧ Grounded dispatcher (b.state n) := by
  refine b.guarded (fun _ s => Valid dispatcher s ∧ Waking dispatcher s ∧ Grounded dispatcher s)
    ⟨initial_valid _,initial_waking _,initial_grounded _⟩ ?_ live n
  intro evs s e t ⟨valid,waking,grounded⟩ step live
  exact ⟨step_valid valid step ((polled_live_iff valid step).mpr live),step_waking valid waking step,
    step_grounded grounded step⟩

-- A wake-up waits for its answer.
theorem woken_until {comes : Nat → Prop} (woken : Woken (b.state n)) (coming : ∃ k, n ≤ k ∧ comes k) :
    ∃ k, n ≤ k ∧ Woken (b.state k) ∧ ((∃ e, b.event k = some e ∧ Answers e) ∨ comes k) := by
  refine meets (fun m => Woken (b.state m)) woken (fun m _ woken => ?_) coming
  refine b.moment (fun _ s => Woken s) woken fun e here => ?_
  exact (step_woken woken (b.taken m e here)).imp_left fun answers => ⟨e,here,answers⟩

-- Once the dispatcher has set out, it is answered before what cannot happen underway.
theorem underway_answered {comes : Nat → Prop} (woken : Woken (b.state n)) (underway : Underway (b.state n))
    (out : ∀ k, comes k → ¬Underway (b.state k)) (coming : ∃ k, n ≤ k ∧ comes k) : b.Comes n Answers := by
  have keeps : ∀ m, n ≤ m → Woken (b.state m) ∧ Underway (b.state m) →
      (∃ e, b.event m = some e ∧ Answers e) ∨ Woken (b.state (m+1)) ∧ Underway (b.state (m+1)) := by
    intro m _ ⟨woken,underway⟩
    refine b.moment (fun _ s => Woken s ∧ Underway s) ⟨woken,underway⟩ fun e here => ?_
    rcases step_woken woken (b.taken m e here) with answers | still
    · exact .inl ⟨e,here,answers⟩
    · exact (step_underway woken underway (b.taken m e here)).imp (fun answers => ⟨e,here,answers⟩)
        fun underway => ⟨still,underway⟩
  obtain ⟨k,later,⟨_,underway⟩,answers | come⟩ := meets (fun m => Woken (b.state m) ∧ Underway (b.state m))
    ⟨woken,underway⟩ keeps coming
  · exact ⟨k,later,answers⟩
  · exact absurd underway (out k come)

theorem setsOut {e : Event} (woken : Woken (b.state m)) (here : b.event m = some e) (open_ : ¬Answers e)
    (phase : (b.state (m+1)).phase = .before) : Woken (b.state (m+1)) ∧ Underway (b.state (m+1)) :=
  ⟨(step_woken woken (b.taken m e here)).resolve_left open_,.inl phase⟩

theorem Fair.main_answers (fair : Fair b) (main : dispatcher = 0) (woken : Woken (b.state n)) : b.Comes n Answers := by
  obtain ⟨m,later,woken,answers | ⟨e,here,rfl⟩⟩ := woken_until woken (fair.loops main n)
  · exact ⟨m,later,answers⟩
  · obtain ⟨woken,underway⟩ := setsOut woken here id (step_loop (b.taken m _ here)).2
    refine (underway_answered woken underway (fun k ⟨e,round,same⟩ underway => ?_) (fair.loops main (m+1))).later
      (Nat.le_succ_of_le later)
    rw [same] at round
    simp [Underway,(step_loop (b.taken k _ round)).1] at underway

theorem Fair.handler_answers (fair : Fair b) (live : b.Every PollsLive) (handler : 0 < dispatcher)
    (woken : Woken (b.state n)) : b.Comes n Answers := by
  obtain ⟨m,later,woken,answers | alone⟩ := woken_until woken (fair.returns n)
  · exact ⟨m,later,answers⟩
  · obtain ⟨valid,waking,grounded⟩ := every_sound live m
    have latched := waking.latched_main valid grounded alone handler woken
    obtain ⟨k,after,woken,answers | ⟨e,here,rfl⟩⟩ := woken_until woken (fair.enters m alone latched handler)
    · exact ⟨k,Nat.le_trans later after,answers⟩
    · obtain ⟨woken,underway⟩ := setsOut woken here id (step_dispatch (b.taken k _ here))
      refine (underway_answered woken underway (fun j alone underway => ?_) (fair.returns (k+1))).later (by omega)
      obtain ⟨valid,_,grounded⟩ := every_sound live j
      simp [Underway,valid.underway_main grounded alone handler] at underway

theorem Fair.answers (fair : Fair b) (live : b.Every PollsLive) (woken : Woken (b.state n)) : b.Comes n Answers := by
  rcases Nat.eq_zero_or_pos dispatcher with main | handler
  · exact fair.main_answers main woken
  · exact fair.handler_answers live handler woken

end

-- Every wake-up of a future that is not complete is answered by a poll.
theorem woken_polled {dispatcher : Nat} (b : Behavior dispatcher) (live : b.Every PollsLive) (fair : Fair b) (n : Nat)
    (woken : Woken (b.state n)) : b.Comes n Answers :=
  fair.answers live woken

-- A future is spawned and polled, and then nothing happens any more.
def spawnedThenRests : Behavior 2 :=
  .after _ (.allocated rfl (Or.inl rfl) rfl) <|
  .after _ (.wrote rfl) <|
  .after _ (.setPending rfl) <|
  .after _ (.pend rfl) <|
  .after _ (.dispatch rfl (by decide) rfl) <|
  .after _ (.running rfl rfl rfl) <|
  .after _ (.polled rfl rfl rfl) <|
  .after _ (.futurePending rfl rfl) <|
  .after _ (.leave rfl rfl (by decide)) (.rest _)

theorem spawnedThenRests_polled : spawnedThenRests.Comes 3 Answers := by
  refine woken_polled spawnedThenRests (fun n e here found latest polled => ?_)
    ⟨fun n => ⟨n+9,by omega,rfl⟩,fun n alone latched _ => ?_,nofun⟩ 3 ⟨rfl,rfl⟩
  · subst polled
    match n with
    | 0 | 1 | 2 | 3 | 4 | 5 | 7 | 8 => cases here
    | 6 =>
      cases here
      rfl
    | n+9 => cases here
  · match n with
    | 0 | 1 | 2 | 3 | 4 => exact ⟨4,by decide,_,rfl,rfl⟩
    | 5 | 6 | 7 | 8 => cases alone
    | n+9 => cases latched

end Rtic.Executor
