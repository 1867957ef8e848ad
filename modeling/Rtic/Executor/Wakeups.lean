import Rtic.Executor.Liveness
namespace Rtic.Executor
open Transition AsyncTaskExecutor
universe u

-- `input_tupled` of `regroup_inputs`: one input stands for itself, any other number as a tuple.
inductive Tupled (V : Type u) where
  | single (input : V)
  | tuple (inputs : List V)
  deriving DecidableEq, Repr

def regroupInputs {V : Type u} : List V → Tupled V
  | [input] => .single input
  | inputs => .tuple inputs

def Tupled.inputs {V : Type u} : Tupled V → List V
  | .single input => [input]
  | .tuple inputs => inputs

@[simp] theorem regroupInputs_inputs {V : Type u} (inputs : List V) : (regroupInputs inputs).inputs = inputs := by
  unfold regroupInputs
  split <;> rfl

-- The branch of the generated spawn function on `try_allocate`: `Ok(())`, after the future has been
-- written and the dispatcher pended, or `Err` at once.
def spawnReply {V : Type u} (exec : AsyncTaskExecutor) (inputs : List V) :
    Except (Tupled V) Unit × AsyncTaskExecutor :=
  match exec.tryAllocate with
  | (true,exec) => (.ok (),exec)
  | (false,exec) => (.error (regroupInputs inputs),exec)

-- Futures are numbered by their spawns.
def spawns : List Event → List Nat
  | [] => []
  | .allocated spawn _::evs => spawn::spawns evs
  | _::evs => spawns evs

-- The future that the latest poll entered, and those that have returned `Poll::Ready`.
structure Polls where
  entered : Storage
  ready : List Nat
  deriving DecidableEq, Repr

def Polls.record (polls : Polls) : Event → Polls
  | .polled found _ => {polls with entered := found}
  | .futureReady =>
    match polls.entered with
    | .future spawn => {polls with ready := spawn::polls.ready}
    | _ => polls
  | _ => polls

def polls (evs : List Event) : Polls := evs.foldl Polls.record ⟨.uninit,[]⟩

def completions (evs : List Event) : List Nat := (polls evs).ready

theorem spawns_snoc (evs : List Event) (e : Event) : spawns (evs++[e]) = spawns evs++spawns [e] := by
  induction evs with
  | nil => rfl
  | cons head evs ih =>
    cases head <;> simp [spawns,ih]

theorem polls_snoc (evs : List Event) (e : Event) : polls (evs++[e]) = (polls evs).record e := by
  simp [polls]

-- A call of spawn or of a waker that still has its `pend` to execute, after the `try_allocate` or
-- the `set_pending` that brought it here.
def Frame.owesPend (f : Frame) : Prop := (∃ spawn, f.point = .allocated spawn) ∨ f.point = .written ∨ f.point = .pend

-- The dispatcher has this task's poll ahead of it; the one of priority 0 comes round again.
def PollAhead (dispatcher : Nat) (s : State) : Prop :=
  ⟨dispatcher,.dispatcher⟩ ∈ s.stack ∧ (s.phase = .before ∨ s.phase = .checked ∨ dispatcher = 0)

def WakeupKept (dispatcher : Nat) (s : State) : Prop :=
  s.exec.running = true → s.exec.pending = true →
    s.latched = true ∨ PollAhead dispatcher s ∨ ∃ f ∈ s.stack, f.owesPend

structure Waking (dispatcher : Nat) (s : State) : Prop where
  endless : dispatcher = 0 → s.phase ≠ .idle
  kept : WakeupKept dispatcher s

theorem initial_waking (dispatcher : Nat) : Waking dispatcher (initial dispatcher) := by
  unfold initial
  split
  · exact ⟨by simp,by simp [WakeupKept,AsyncTaskExecutor.new]⟩
  · rename_i handler
    exact ⟨fun main => absurd main handler,by simp [WakeupKept,AsyncTaskExecutor.new]⟩

-- What keeps a wake-up survives a step that leaves the executor and the dispatcher where they are
-- and drops no frame that it may rest on.
theorem WakeupKept.carry {dispatcher : Nat} {s t : State} (kept : WakeupKept dispatcher s)
    (running : t.exec.running = true → s.exec.running = true)
    (pending : t.exec.pending = true → s.exec.pending = true)
    (latched : s.latched = true → t.latched = true)
    (ahead : PollAhead dispatcher s → PollAhead dispatcher t)
    (owes : ∀ f ∈ s.stack, f.owesPend → ∃ g ∈ t.stack, g.owesPend) : WakeupKept dispatcher t := by
  intro started pended
  rcases kept (running started) (pending pended) with latch | poll | ⟨f,member,owed⟩
  · exact Or.inl (latched latch)
  · exact Or.inr (Or.inl (ahead poll))
  · exact Or.inr (Or.inr (owes f member owed))

theorem WakeupKept.owed {dispatcher : Nat} {s : State} {f : Frame} (member : f ∈ s.stack) (owed : f.owesPend) :
    WakeupKept dispatcher s :=
  fun _ _ => Or.inr (Or.inr ⟨f,member,owed⟩)

theorem PollAhead.pushed {dispatcher : Nat} {s : State} {f : Frame} (ahead : PollAhead dispatcher s) :
    PollAhead dispatcher {s with stack := f::s.stack} :=
  ⟨List.mem_cons_of_mem _ ahead.1,ahead.2⟩

theorem PollAhead.popped {dispatcher : Nat} {s : State} {f : Frame} {below : List Frame}
    (ahead : PollAhead dispatcher s) (running : s.stack = f::below) (other : f.point ≠ .dispatcher) :
    PollAhead dispatcher {s with stack := below} := by
  refine ⟨?_,ahead.2⟩
  have member := ahead.1
  rw [running] at member
  rcases List.mem_cons.mp member with equal | member
  · exact absurd (congrArg Frame.point equal).symm other
  · exact member

theorem PollAhead.passed {dispatcher : Nat} {s : State} (ahead : PollAhead dispatcher s)
    (began : s.phase ≠ .before) (polled : s.phase ≠ .checked) {phase : Phase} {exec : AsyncTaskExecutor} :
    PollAhead dispatcher {s with phase := phase,exec := exec} :=
  ⟨ahead.1,Or.inr (Or.inr ((ahead.2.resolve_left began).resolve_left polled))⟩

theorem owed_pushed {s : State} {f : Frame} :
    ∀ g ∈ s.stack, g.owesPend → ∃ h ∈ f::s.stack, h.owesPend :=
  fun g member owed => ⟨g,List.mem_cons_of_mem _ member,owed⟩

theorem owed_popped {s : State} {f : Frame} {below : List Frame} (running : s.stack = f::below)
    (quiet : ¬ f.owesPend) : ∀ g ∈ s.stack, g.owesPend → ∃ h ∈ below, h.owesPend := by
  intro g member owed
  rw [running] at member
  rcases List.mem_cons.mp member with rfl | member
  · exact absurd owed quiet
  · exact ⟨g,member,owed⟩

theorem not_owed_user (priority : Nat) : ¬ Frame.owesPend ⟨priority,.user⟩ := by
  simp [Frame.owesPend]

theorem not_owed_dispatcher (priority : Nat) : ¬ Frame.owesPend ⟨priority,.dispatcher⟩ := by
  simp [Frame.owesPend]

theorem step_waking {dispatcher : Nat} {s t : State} {e : Event} (valid : Valid dispatcher s)
    (waking : Waking dispatcher s) (step : Step dispatcher s e t) : Waking dispatcher t := by
  have endless := waking.endless
  have kept := waking.kept
  cases step with
  | interrupt running above => exact ⟨endless,kept.carry id id id PollAhead.pushed owed_pushed⟩
  | finish running nested =>
    exact ⟨endless,kept.carry id id id (·.popped running (by simp)) (owed_popped running (not_owed_user _))⟩
  | latch running user handler => exact ⟨endless,fun _ _ => Or.inl rfl⟩
  | dispatch running above latched =>
    exact ⟨by simp,fun _ _ => Or.inr (Or.inl ⟨List.mem_cons_self,Or.inl rfl⟩)⟩
  | notRunning running phase stopped =>
    refine ⟨by simp,fun started => ?_⟩
    rw [isRunning] at stopped
    simp [stopped] at started
  | running running phase started =>
    exact ⟨by simp,kept.carry id id id (fun ahead => ⟨ahead.1,Or.inr (Or.inl rfl)⟩) (fun f member owed => ⟨f,member,owed⟩)⟩
  | notPending running phase clear =>
    obtain ⟨unset,rfl⟩ := checkAndClearPending_false clear
    refine ⟨by simp,fun _ pended => ?_⟩
    simp [unset] at pended
  | polled running phase set =>
    obtain ⟨_,rfl⟩ := checkAndClearPending_true set
    exact ⟨by simp,fun _ pended => by simp at pended⟩
  | futurePending running phase =>
    exact ⟨by simp,kept.carry id id id (·.passed (by simp [phase]) (by simp [phase])) (fun f member owed => ⟨f,member,owed⟩)⟩
  | futureReady running phase =>
    refine ⟨by simp,kept.carry ?_ ?_ id (·.passed (by simp [phase]) (by simp [phase])) (fun f member owed => ⟨f,member,owed⟩)⟩
    · exact fun started => by simpa using started
    · exact fun pended => by simpa using pended
  | stopped running phase => exact ⟨by simp,fun started => by simp at started⟩
  | leave running phase handler =>
    refine ⟨fun main => absurd main (Nat.pos_iff_ne_zero.mp handler),kept.carry id id id ?_ ?_⟩
    · intro ahead
      rcases ahead.2 with early | early | main
      · rw [phase] at early; cases early
      · rw [phase] at early; cases early
      · exact absurd main (Nat.pos_iff_ne_zero.mp handler)
    · exact owed_popped running (not_owed_dispatcher _)
  | loop running phase main =>
    exact ⟨by simp,kept.carry id id id (fun ahead => ⟨ahead.1,Or.inl rfl⟩) (fun f member owed => ⟨f,member,owed⟩)⟩
  | allocated running user free =>
    obtain ⟨_,rfl⟩ := tryAllocate_true free
    exact ⟨endless,.owed List.mem_cons_self (Or.inl ⟨_,rfl⟩)⟩
  | refused running user taken =>
    obtain ⟨_,rfl⟩ := tryAllocate_false taken
    exact ⟨endless,kept⟩
  | wrote running => exact ⟨endless,.owed List.mem_cons_self (Or.inr (Or.inl rfl))⟩
  | setPending running => exact ⟨endless,.owed List.mem_cons_self (Or.inr (Or.inr rfl))⟩
  | wake running user => exact ⟨endless,.owed List.mem_cons_self (Or.inr (Or.inr rfl))⟩
  | pend running =>
    refine ⟨endless,?_⟩
    rcases Nat.eq_zero_or_pos dispatcher with main | handler
    · have present := valid.active (endless main)
      exact fun _ _ => Or.inr (Or.inl (PollAhead.popped ⟨present,Or.inr (Or.inr main)⟩ running (by simp)))
    · exact fun _ _ => Or.inl (by simp [handler])

-- Every number from 1 to the latest spawn stands for a future; all but the latest are complete, and
-- the latest is once the executor has been released or is about to be.
structure Recorded (evs : List Event) (s : State) : Prop where
  started : s.exec.running = true → 0 < s.spawned
  stored : ∀ spawn, s.exec.task = .future spawn → s.exec.running = true ∧ windows s = 0 ∧ s.phase ≠ .ready
  entered : s.phase = .polling → (polls evs).entered = .future s.spawned
  spawned : ∀ spawn, spawn ∈ spawns evs ↔ 0 < spawn ∧ spawn ≤ s.spawned
  done : ∀ spawn, spawn ∈ completions evs ↔
    0 < spawn ∧ (spawn < s.spawned ∨ (spawn = s.spawned ∧ (s.exec.running = false ∨ s.phase = .ready)))
  distinct : (spawns evs).Nodup
  once : (completions evs).Nodup

theorem initial_recorded (dispatcher : Nat) : Recorded [] (initial dispatcher) := by
  unfold initial
  split <;> constructor <;> simp [AsyncTaskExecutor.new,spawns,completions,polls] <;> omega

-- Steps that neither allocate nor complete.
theorem Recorded.transfer {evs : List Event} {s t : State} {e : Event} (recorded : Recorded evs s)
    (unspawned : spawns [e] = []) (incomplete : completions (evs++[e]) = completions evs) (spawned : t.spawned = s.spawned)
    (started : t.exec.running = true → s.exec.running = true)
    (stored : ∀ spawn, t.exec.task = .future spawn → t.exec.running = true ∧ windows t = 0 ∧ t.phase ≠ .ready)
    (entered : t.phase = .polling → (polls (evs++[e])).entered = .future t.spawned)
    (idle_ : t.exec.running = false ∨ t.phase = .ready ↔ s.exec.running = false ∨ s.phase = .ready) :
    Recorded (evs++[e]) t := by
  refine ⟨fun running => ?_,stored,entered,?_,?_,?_,?_⟩
  · rw [spawned]
    exact recorded.started (started running)
  · rw [spawns_snoc,unspawned,List.append_nil,spawned]
    exact recorded.spawned
  · rw [incomplete,spawned,idle_]
    exact recorded.done
  · rw [spawns_snoc,unspawned,List.append_nil]
    exact recorded.distinct
  · rw [incomplete]
    exact recorded.once

-- Nor do they poll or release.
theorem Recorded.keep {evs : List Event} {s t : State} {e : Event} (recorded : Recorded evs s)
    (unspawned : spawns [e] = []) (unpolled : ∀ polls, Polls.record polls e = polls)
    (running : t.exec.running = s.exec.running) (task : t.exec.task = s.exec.task) (spawned : t.spawned = s.spawned)
    (open_ : windows t = windows s) (polling : t.phase = .polling → s.phase = .polling)
    (ready : t.phase = .ready ↔ s.phase = .ready) : Recorded (evs++[e]) t := by
  refine recorded.transfer unspawned ?_ spawned ?_ ?_ ?_ ?_
  · simp [completions,polls_snoc,unpolled]
  · exact fun started => running ▸ started
  · rw [running,task,open_,Ne,ready]
    exact recorded.stored
  · rw [polls_snoc,unpolled,spawned]
    exact fun phase => recorded.entered (polling phase)
  · rw [running,ready]

theorem step_recorded {dispatcher : Nat} {evs : List Event} {s t : State} {e : Event} (valid : Valid dispatcher s)
    (recorded : Recorded evs s) (step : Step dispatcher s e t) (live : PollsLive evs s e t) :
    Recorded (evs++[e]) t := by
  cases step with
  | interrupt running above => exact recorded.keep rfl (fun _ => rfl) rfl rfl rfl (windows_push rfl) id Iff.rfl
  | finish running nested =>
    exact recorded.keep rfl (fun _ => rfl) rfl rfl rfl (windows_pop running rfl) id Iff.rfl
  | latch running user handler => exact recorded.keep rfl (fun _ => rfl) rfl rfl rfl rfl id Iff.rfl
  | dispatch running above latched =>
    have idle := valid.entered running above
    exact recorded.keep rfl (fun _ => rfl) rfl rfl rfl (windows_push rfl) (by simp) (by simp [idle])
  | notRunning running phase stopped =>
    exact recorded.keep rfl (fun _ => rfl) rfl rfl rfl rfl (by simp) (by simp [phase])
  | running running phase started =>
    exact recorded.keep rfl (fun _ => rfl) rfl rfl rfl rfl (by simp) (by simp [phase])
  | notPending running phase clear =>
    obtain ⟨_,rfl⟩ := checkAndClearPending_false clear
    exact recorded.keep rfl (fun _ => rfl) rfl rfl rfl rfl (by simp) (by simp [phase])
  | polled running phase set =>
    obtain ⟨_,rfl⟩ := checkAndClearPending_true set
    have found : s.exec.task = .future s.spawned := live _ _ rfl
    refine recorded.transfer rfl (by simp [completions,polls_snoc,Polls.record]) rfl id ?_ ?_ (by simp [phase])
    · exact fun spawn task => ⟨(recorded.stored spawn task).1,(recorded.stored spawn task).2.1,by simp⟩
    · intro _
      rw [polls_snoc]
      exact found
  | futurePending running phase =>
    exact recorded.keep rfl (fun _ => rfl) rfl rfl rfl rfl (by simp) (by simp [phase])
  | futureReady running phase =>
    have busy := valid.started (Or.inr (Or.inl phase))
    have entered := recorded.entered phase
    have ready : completions (evs++[.futureReady]) = s.spawned::completions evs := by
      simp [completions,polls_snoc,Polls.record,entered]
    refine ⟨fun _ => recorded.started busy,fun spawn task => absurd task (complete_not_future _ _),by simp,?_,?_,?_,?_⟩
    · simpa [spawns_snoc,spawns] using recorded.spawned
    · intro spawn
      have started := recorded.started busy
      rw [ready,List.mem_cons,recorded.done]
      simp only [phase,busy,complete_running]
      grind
    · simpa [spawns_snoc,spawns] using recorded.distinct
    · rw [ready]
      refine List.nodup_cons.mpr ⟨fun present => ?_,recorded.once⟩
      have earlier := (recorded.done _).mp present
      simp [phase,busy] at earlier
  | stopped running phase =>
    refine recorded.transfer rfl (by simp [completions,polls_snoc,Polls.record]) rfl ?_ ?_ (by simp) (by simp [phase])
    · exact fun started => by simp at started
    · exact fun spawn task => absurd phase (recorded.stored spawn task).2.2
  | leave running phase handler =>
    exact recorded.keep rfl (fun _ => rfl) rfl rfl rfl (windows_pop running rfl) (by simp) (by simp [phase])
  | loop running phase main =>
    exact recorded.keep rfl (fun _ => rfl) rfl rfl rfl rfl (by simp) (by simp [phase])
  | allocated running user free =>
    rename_i top below exec
    obtain ⟨halted,rfl⟩ := tryAllocate_true free
    have closed := valid.stopped halted
    refine ⟨fun _ => Nat.succ_pos _,?_,fun phase => absurd phase closed.2.2.1,?_,?_,?_,?_⟩
    · intro spawn task
      have live := (recorded.stored spawn task).1
      rw [halted] at live
      cases live
    · intro spawn
      rw [spawns_snoc,List.mem_append,recorded.spawned]
      simp only [spawns,List.mem_singleton]
      omega
    · intro spawn
      have same : completions (evs++[.allocated (s.spawned+1) top.priority]) = completions evs := by
        simp [completions,polls_snoc,Polls.record]
      rw [same,recorded.done]
      simp only [halted,closed.2.2.2]
      grind
    · rw [spawns_snoc]
      refine List.nodup_append.mpr ⟨recorded.distinct,by simp [spawns],?_⟩
      intro spawn earlier later present
      have bound := ((recorded.spawned spawn).mp earlier).2
      simp only [spawns,List.mem_singleton] at present
      omega
    · simpa [completions,polls_snoc,Polls.record] using recorded.once
  | refused running user taken =>
    obtain ⟨_,rfl⟩ := tryAllocate_false taken
    exact recorded.keep rfl (fun _ => rfl) rfl rfl rfl rfl id Iff.rfl
  | wrote running =>
    rename_i below spawn priority
    have named : spawn = s.spawned := valid.named ⟨priority,.allocated spawn⟩ (by simp [running]) spawn rfl
    obtain ⟨one,none⟩ := valid.windows_wrote running
    have busy : s.exec.running = true := by
      by_contra halted
      have closed := (valid.stopped (by simpa using halted)).1
      omega
    have unpolled := valid.window (by omega)
    refine recorded.transfer rfl (by simp [completions,polls_snoc,Polls.record]) rfl id ?_ ?_ Iff.rfl
    · exact fun _ _ => ⟨busy,none,unpolled.2.2⟩
    · exact fun phase => absurd phase unpolled.2.1
  | setPending running =>
    refine recorded.keep rfl (fun _ => rfl) rfl rfl rfl ?_ id Iff.rfl
    simp [windows,running,Frame.inWindow]
  | wake running user => exact recorded.keep rfl (fun _ => rfl) rfl rfl rfl (windows_push rfl) id Iff.rfl
  | pend running => exact recorded.keep rfl (fun _ => rfl) rfl rfl rfl (windows_pop running rfl) id Iff.rfl

structure Executing (dispatcher : Nat) (evs : List Event) (s : State) : Prop where
  valid : Valid dispatcher s
  waking : Waking dispatcher s
  recorded : Recorded evs s

theorem initial_executing (dispatcher : Nat) : Executing dispatcher [] (initial dispatcher) :=
  ⟨initial_valid dispatcher,initial_waking dispatcher,initial_recorded dispatcher⟩

theorem step_executing {dispatcher : Nat} {evs : List Event} {s t : State} {e : Event}
    (executing : Executing dispatcher evs s) (step : Step dispatcher s e t) (live : PollsLive evs s e t) :
    Executing dispatcher (evs++[e]) t :=
  ⟨step_valid executing.valid step ((polled_live_iff executing.valid step).mpr live),
    step_waking executing.valid executing.waking step,step_recorded executing.valid executing.recorded step live⟩

-- Every future spawned so far has returned `Poll::Ready`.
def AllComplete (evs : List Event) : Prop := ∀ spawn ∈ spawns evs, spawn ∈ completions evs

-- A spawn made now would return `Ok` only if nothing spawned before is still incomplete.
def OkMeansComplete (V : Type u) (evs : List Event) (s : State) : Prop :=
  ∀ inputs : List V, (spawnReply s.exec inputs).1 = .ok () → AllComplete evs

-- What the two branches of the spawn function do, and what its write replaces.
structure Spawning (V : Type u) (evs : List Event) (s : State) (e : Event) (t : State) : Prop where
  accepted : ∀ spawn priority, e = .allocated spawn priority → spawn ∉ spawns evs ∧ AllComplete evs ∧
    ∀ inputs : List V, spawnReply s.exec inputs = (.ok (),t.exec)
  written : ∀ spawn, e = .wrote spawn → ∀ incomplete, s.exec.task ≠ .future incomplete
  refused : e = .refused → t = s ∧
    ∀ inputs : List V, ∃ back, spawnReply s.exec inputs = (.error back,s.exec) ∧ back.inputs = inputs

-- `pending` is taken back only by entering the future that it was set for.
def PendingTaken (_ : List Event) (s : State) (e : Event) (t : State) : Prop :=
  s.exec.pending = true → t.exec.pending = false → e = .polled (.future s.spawned) s.spawned

theorem Recorded.complete {evs : List Event} {s : State} (recorded : Recorded evs s) (halted : s.exec.running = false) :
    AllComplete evs := by
  intro spawn spawned
  obtain ⟨first,last⟩ := (recorded.spawned spawn).mp spawned
  refine (recorded.done spawn).mpr ⟨first,?_⟩
  rcases Nat.lt_or_eq_of_le last with earlier | latest
  · exact Or.inl earlier
  · exact Or.inr ⟨latest,Or.inl halted⟩

theorem Recorded.okMeansComplete {V : Type u} {evs : List Event} {s : State} (recorded : Recorded evs s) :
    OkMeansComplete V evs s := by
  intro inputs accepted
  refine recorded.complete ?_
  unfold spawnReply at accepted
  split at accepted
  · rename_i exec free
    exact (tryAllocate_true free).1
  · cases accepted

theorem step_spawning {V : Type u} {dispatcher : Nat} {evs : List Event} {s t : State} {e : Event}
    (executing : Executing dispatcher evs s) (step : Step dispatcher s e t) : Spawning V evs s e t := by
  have recorded := executing.recorded
  constructor
  · intro spawn priority accepted
    subst accepted
    cases step with
    | allocated running user free =>
      refine ⟨fun present => ?_,recorded.complete (tryAllocate_true free).1,fun inputs => by simp [spawnReply,free]⟩
      have bound := ((recorded.spawned _).mp present).2
      omega
  · intro spawn writing incomplete stored
    subst writing
    cases step with
    | wrote running =>
      rename_i below priority
      have shut := (windows_zero s).mp (recorded.stored incomplete stored).2.1
      exact shut ⟨priority,.allocated spawn⟩ (by simp [running]) spawn rfl
  · intro refused
    subst refused
    cases step with
    | refused running user taken =>
      have same := (tryAllocate_false taken).2
      subst same
      exact ⟨rfl,fun inputs => ⟨_,by simp [spawnReply,taken],regroupInputs_inputs inputs⟩⟩

theorem step_pendingTaken {dispatcher : Nat} {evs : List Event} {s t : State} {e : Event}
    (step : Step dispatcher s e t) (live : PollsLive evs s e t) : PendingTaken evs s e t := by
  intro set cleared
  cases step with
  | polled running phase taken =>
    rw [live _ _ rfl]
  | notPending running phase clear =>
    have unset := (checkAndClearPending_false clear).1
    rw [set] at unset
    cases unset
  | allocated running user free =>
    obtain ⟨_,rfl⟩ := tryAllocate_true free
    simp [set] at cleared
  | refused running user taken =>
    obtain ⟨_,rfl⟩ := tryAllocate_false taken
    simp [set] at cleared
  | futureReady running phase => simp [set] at cleared
  | _ => simp [set,AsyncTaskExecutor.setPending,AsyncTaskExecutor.write,AsyncTaskExecutor.stop] at cleared

theorem wakeups_kept {V : Type u} (dispatcher : Nat) (s : State) (run : Run dispatcher s) (live : run.Every PollsLive) :
    run.Through (fun _ s => WakeupKept dispatcher s) ∧
    run.Every PendingTaken ∧
    run.Through (OkMeansComplete V) ∧
    run.Every (Spawning V) ∧
    run.Through (fun evs _ => (completions evs).Nodup) := by
  have base := initial_executing dispatcher
  refine ⟨?_,?_,?_,?_,?_⟩
  · exact run.through_of (Executing dispatcher) base step_executing (fun executing => executing.waking.kept) live
  · exact run.every_of (Executing dispatcher) base step_executing (fun _ step live => step_pendingTaken step live) live
  · exact run.through_of (Executing dispatcher) base step_executing (fun executing => executing.recorded.okMeansComplete) live
  · exact run.every_of (Executing dispatcher) base step_executing
      (fun executing step _ => step_spawning executing step) live
  · exact run.through_of (Executing dispatcher) base step_executing (fun executing => executing.recorded.once) live

-- A waker fires while the future is polled and the future returns `Pending`, so the dispatcher is
-- entered again; a second spawn is refused until the future is complete.
def wokenWhilePolled :=
  (.start : Run 1 (initial 1))
    |>.snoc _ (.allocated rfl (Or.inl rfl) rfl)
    |>.snoc _ (.wrote rfl)
    |>.snoc _ (.setPending rfl)
    |>.snoc _ (.pend rfl)
    |>.snoc _ (.refused rfl (Or.inl rfl) rfl)
    |>.snoc _ (.dispatch rfl (by decide) rfl)
    |>.snoc _ (.running rfl rfl rfl)
    |>.snoc _ (.polled rfl rfl rfl)
    |>.snoc _ (.wake rfl (Or.inr ⟨rfl,Or.inr (Or.inl rfl)⟩))
    |>.snoc _ (.pend rfl)
    |>.snoc _ (.futurePending rfl rfl)
    |>.snoc _ (.leave rfl rfl (by decide))
    |>.snoc _ (.dispatch rfl (by decide) rfl)
    |>.snoc _ (.running rfl rfl rfl)
    |>.snoc _ (.polled rfl rfl rfl)
    |>.snoc _ (.futureReady rfl rfl)
    |>.snoc _ (.stopped rfl rfl)
    |>.snoc _ (.leave rfl rfl (by decide))
    |>.snoc _ (.allocated rfl (Or.inl rfl) rfl)

theorem wokenWhilePolled_kept : completions wokenWhilePolled.events = [1] ∧
    wokenWhilePolled.Every (Spawning Nat) := by
  refine ⟨rfl,(wakeups_kept 1 _ wokenWhilePolled (wokenWhilePolled.every_events ?_)).2.2.2.1⟩
  intro e present found latest entered
  subst entered
  simp only [wokenWhilePolled,Run.events_snoc,Run.events_start] at present
  simp [initial,AsyncTaskExecutor.new,AsyncTaskExecutor.write,AsyncTaskExecutor.setPending] at present
  rw [present.1,present.2]

end Rtic.Executor
