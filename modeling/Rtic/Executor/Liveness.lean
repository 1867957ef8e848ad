import Rtic.Executor.AsyncTaskExecutor
namespace Rtic.Executor
open Transition AsyncTaskExecutor

def Frame.inWindow (f : Frame) : Bool :=
  match f.point with
  | .allocated _ => true
  | _ => false

-- Contexts between a successful `try_allocate` and the write of the future.
def windows (s : State) : Nat := s.stack.countP Frame.inWindow

-- poll enters `Future::poll` only on the future of the most recent successful
-- spawn, fully written and not yet completed.
def PollsLive (_ : List Event) (_ : State) (e : Event) (_ : State) : Prop :=
  ∀ found latest, e = .polled found latest → found = .future latest

-- No context stands between its `try_allocate` and its write when
-- `check_and_clear_pending` succeeds.
def WindowShut (_ : List Event) (s : State) (e : Event) (_ : State) : Prop :=
  ∀ found latest, e = .polled found latest → ∀ f ∈ s.stack, ∀ spawn, f.point ≠ .allocated spawn

theorem inWindow_iff (f : Frame) : f.inWindow = true ↔ ∃ spawn, f.point = .allocated spawn := by
  unfold Frame.inWindow
  split
  · rename_i spawn point
    simp [point]
  · rename_i other
    simpa using fun spawn => other spawn

theorem windows_zero (s : State) :
    windows s = 0 ↔ ∀ f ∈ s.stack, ∀ spawn, f.point ≠ .allocated spawn := by
  simp only [windows,List.countP_eq_zero,inWindow_iff,not_exists]

structure Valid (dispatcher : Nat) (s : State) : Prop where
  ordered : s.stack.Pairwise (fun above below => below.priority ≤ above.priority)
  active : s.phase ≠ .idle → ⟨dispatcher,.dispatcher⟩ ∈ s.stack
  single : windows s ≤ 1
  stopped : s.exec.running = false →
    windows s = 0 ∧ s.phase ≠ .checked ∧ s.phase ≠ .polling ∧ s.phase ≠ .ready
  window : 0 < windows s →
    s.exec.task ≠ .future s.spawned ∧ s.phase ≠ .polling ∧ s.phase ≠ .ready
  live : s.exec.running = true → windows s = 0 → s.phase = .ready ∨ s.exec.task = .future s.spawned
  numbered : ∀ spawn, s.exec.task = .future spawn → spawn ≤ s.spawned
  named : ∀ f ∈ s.stack, ∀ spawn, f.point = .allocated spawn → spawn = s.spawned

theorem initial_valid (dispatcher : Nat) : Valid dispatcher (initial dispatcher) := by
  unfold initial
  split
  · subst dispatcher
    constructor <;> simp [windows,Frame.inWindow,AsyncTaskExecutor.new]
  · constructor <;> simp [windows,Frame.inWindow,AsyncTaskExecutor.new]

-- The dispatcher cannot be entered over itself.
theorem Valid.entered {dispatcher : Nat} {s : State} {top : Frame} {below : List Frame}
    (valid : Valid dispatcher s) (running : s.stack = top::below) (above : top.priority < dispatcher) :
    s.phase = .idle := by
  by_contra busy
  have member := valid.active busy
  have ordered := valid.ordered
  rw [running] at member ordered
  rcases List.mem_cons.mp member with equal | deeper
  · rw [← equal] at above
    exact Nat.lt_irrefl _ above
  · have bound := (List.pairwise_cons.mp ordered).1 _ deeper
    exact Nat.lt_irrefl _ (Nat.lt_of_le_of_lt bound above)

theorem windows_push {s : State} {f : Frame} (quiet : f.inWindow = false) :
    windows {s with stack := f::s.stack} = windows s := by
  simp [windows,quiet]

theorem windows_pop {s : State} {f : Frame} {below : List Frame} (running : s.stack = f::below)
    (quiet : f.inWindow = false) : windows {s with stack := below} = windows s := by
  simp [windows,running,quiet]

-- A context entered or called over the running one leaves everything below as it was.
theorem Valid.pushed {dispatcher : Nat} {s : State} {top : Frame} {below : List Frame} {f : Frame}
    (valid : Valid dispatcher s) (running : s.stack = top::below) (above : top.priority ≤ f.priority)
    (quiet : f.inWindow = false) : Valid dispatcher {s with stack := f::s.stack} := by
  have same : windows {s with stack := f::s.stack} = windows s := windows_push quiet
  refine ⟨?_,fun busy => List.mem_cons_of_mem _ (valid.active busy),same ▸ valid.single,
    same ▸ valid.stopped,same ▸ valid.window,same ▸ valid.live,valid.numbered,?_⟩
  · refine List.pairwise_cons.mpr ⟨?_,valid.ordered⟩
    intro deeper member
    have ordered := valid.ordered
    rw [running] at member ordered
    rcases List.mem_cons.mp member with rfl | member
    · exact above
    · exact Nat.le_trans ((List.pairwise_cons.mp ordered).1 _ member) above
  · intro g member spawn point
    rcases List.mem_cons.mp member with rfl | member
    · rw [(inWindow_iff _).mpr ⟨spawn,point⟩] at quiet
      cases quiet
    · exact valid.named g member spawn point

theorem Valid.popped {dispatcher : Nat} {s : State} {f : Frame} {below : List Frame}
    (valid : Valid dispatcher s) (running : s.stack = f::below) (quiet : f.inWindow = false)
    (other : f.point ≠ .dispatcher) : Valid dispatcher {s with stack := below} := by
  have same : windows {s with stack := below} = windows s := windows_pop running quiet
  have ordered := valid.ordered
  rw [running] at ordered
  refine ⟨(List.pairwise_cons.mp ordered).2,?_,same ▸ valid.single,same ▸ valid.stopped,
    same ▸ valid.window,same ▸ valid.live,valid.numbered,?_⟩
  · intro busy
    have member := valid.active busy
    rw [running] at member
    rcases List.mem_cons.mp member with equal | member
    · exact absurd (congrArg Frame.point equal).symm other
    · exact member
  · intro g member
    exact valid.named g (by rw [running]; exact List.mem_cons_of_mem _ member)

theorem Valid.latches {dispatcher : Nat} {s : State} (valid : Valid dispatcher s) (latched : Bool) :
    Valid dispatcher {s with latched := latched} :=
  ⟨valid.ordered,valid.active,valid.single,valid.stopped,valid.window,valid.live,valid.numbered,valid.named⟩

theorem Valid.pends {dispatcher : Nat} {s : State} (valid : Valid dispatcher s) :
    Valid dispatcher {s with exec := s.exec.setPending} :=
  ⟨valid.ordered,valid.active,valid.single,valid.stopped,valid.window,valid.live,valid.numbered,valid.named⟩

-- The dispatcher moves on without having entered the future.
theorem Valid.moves {dispatcher : Nat} {s : State} {phase : Phase} (valid : Valid dispatcher s)
    (busy : s.phase ≠ .idle) (unready : s.phase ≠ .ready)
    (next : phase = .before ∨ phase = .after ∨ (phase = .checked ∧ s.exec.running = true)) :
    Valid dispatcher {s with phase := phase} := by
  have entered : phase ≠ .polling ∧ phase ≠ .ready := by
    rcases next with rfl | rfl | ⟨rfl,_⟩ <;> simp
  refine ⟨valid.ordered,fun _ => valid.active busy,valid.single,?_,?_,?_,valid.numbered,valid.named⟩
  · intro halted
    refine ⟨(valid.stopped halted).1,?_,entered⟩
    rcases next with rfl | rfl | ⟨rfl,started⟩
    · simp
    · simp
    · rw [halted] at started
      cases started
  · exact fun open_ => ⟨(valid.window open_).1,entered⟩
  · exact fun started shut => Or.inr ((valid.live started shut).resolve_left unready)

-- Between its check and its release the executor is running, and from the poll on nothing is allocated and unwritten.
theorem Valid.started {dispatcher : Nat} {s : State} (valid : Valid dispatcher s)
    (inside : s.phase = .checked ∨ s.phase = .polling ∨ s.phase = .ready) : s.exec.running = true := by
  by_contra halted
  obtain ⟨_,unchecked,unpolled,unready⟩ := valid.stopped (by simpa using halted)
  rcases inside with checked | polling | ready
  · exact unchecked checked
  · exact unpolled polling
  · exact unready ready

theorem Valid.closed {dispatcher : Nat} {s : State} (valid : Valid dispatcher s)
    (inside : s.phase = .polling ∨ s.phase = .ready) : windows s = 0 := by
  by_contra open_
  obtain ⟨_,unpolled,unready⟩ := valid.window (Nat.pos_iff_ne_zero.mpr open_)
  rcases inside with polling | ready
  · exact unpolled polling
  · exact unready ready

-- The write of the future closes the window.
theorem Valid.windows_wrote {dispatcher spawn priority : Nat} {s : State} {below : List Frame}
    (valid : Valid dispatcher s) (running : s.stack = ⟨priority,.allocated spawn⟩::below) :
    windows s = 1 ∧ windows {s with stack := ⟨priority,.written⟩::below} = 0 := by
  have filled : windows s = 1+below.countP Frame.inWindow := by
    simp [windows,running,List.countP_cons,Frame.inWindow,Nat.add_comm]
  have single := valid.single
  have closed : below.countP Frame.inWindow = 0 := by omega
  exact ⟨by omega,by simp [windows,Frame.inWindow,closed]⟩

theorem step_valid {dispatcher : Nat} {s t : State} {e : Event} (valid : Valid dispatcher s)
    (step : Step dispatcher s e t) (shut : WindowShut evs s e t) : Valid dispatcher t := by
  cases step with
  | interrupt running above => exact valid.pushed running (Nat.le_of_lt above) rfl
  | finish running nested => exact valid.popped running rfl (by simp)
  | latch running user handler => exact valid.latches true
  | dispatch running above latched =>
    have idle := valid.entered running above
    have pushed := (valid.latches false).pushed (f:=⟨dispatcher,.dispatcher⟩) running (Nat.le_of_lt above) rfl
    refine ⟨pushed.ordered,fun _ => List.mem_cons_self,pushed.single,?_,?_,?_,pushed.numbered,pushed.named⟩
    · exact fun halted => ⟨(pushed.stopped halted).1,by simp⟩
    · exact fun open_ => ⟨(pushed.window open_).1,by simp⟩
    · exact fun started none => Or.inr ((pushed.live started none).resolve_left (by simp [idle]))
  | notRunning running phase stopped => exact valid.moves (by simp [phase]) (by simp [phase]) (by simp)
  | running running phase started =>
    exact valid.moves (by simp [phase]) (by simp [phase]) (Or.inr (Or.inr ⟨rfl,started⟩))
  | notPending running phase clear =>
    obtain ⟨_,rfl⟩ := checkAndClearPending_false clear
    exact valid.moves (by simp [phase]) (by simp [phase]) (by simp)
  | polled running phase set =>
    obtain ⟨_,rfl⟩ := checkAndClearPending_true set
    have started := valid.started (Or.inl phase)
    have closed := (windows_zero s).mpr (shut _ _ rfl)
    refine ⟨valid.ordered,fun _ => valid.active (by simp [phase]),valid.single,?_,?_,?_,valid.numbered,valid.named⟩
    · exact fun halted => by simp [started] at halted
    · exact fun open_ => absurd closed (Nat.pos_iff_ne_zero.mp open_)
    · exact fun _ _ => Or.inr ((valid.live started closed).resolve_left (by simp [phase]))
  | futurePending running phase => exact valid.moves (by simp [phase]) (by simp [phase]) (by simp)
  | futureReady running phase =>
    have closed := valid.closed (Or.inl phase)
    refine ⟨valid.ordered,fun _ => valid.active (by simp [phase]),valid.single,?_,?_,?_,?_,valid.named⟩
    · intro halted
      exact absurd phase (valid.stopped (by simpa using halted)).2.2.1
    · exact fun open_ => absurd closed (Nat.pos_iff_ne_zero.mp open_)
    · exact fun _ _ => Or.inl rfl
    · exact fun spawn task => absurd task (complete_not_future _ _)
  | stopped running phase =>
    have closed := valid.closed (Or.inr phase)
    refine ⟨valid.ordered,fun _ => valid.active (by simp [phase]),valid.single,?_,?_,?_,valid.numbered,valid.named⟩
    · exact fun _ => ⟨closed,by simp⟩
    · exact fun open_ => absurd closed (Nat.pos_iff_ne_zero.mp open_)
    · exact fun started => by simp at started
  | leave running phase handler =>
    have same : windows {s with phase := .idle,stack := s.stack.tail} = windows s := by
      simp [windows,running,Frame.inWindow]
    simp only [running,List.tail_cons] at same
    have ordered := valid.ordered
    rw [running] at ordered
    refine ⟨(List.pairwise_cons.mp ordered).2,by simp,same ▸ valid.single,?_,?_,?_,valid.numbered,?_⟩
    · exact fun halted => ⟨same ▸ (valid.stopped halted).1,by simp⟩
    · exact fun open_ => ⟨(valid.window (same ▸ open_)).1,by simp⟩
    · exact fun started none => Or.inr ((valid.live started (same ▸ none)).resolve_left (by simp [phase]))
    · intro g member
      exact valid.named g (by rw [running]; exact List.mem_cons_of_mem _ member)
  | loop running phase main => exact valid.moves (by simp [phase]) (by simp [phase]) (by simp)
  | allocated running user free =>
    rename_i top below exec
    obtain ⟨halted,rfl⟩ := tryAllocate_true free
    have closed := valid.stopped halted
    have one : windows {s with stack := ⟨top.priority,.allocated (s.spawned+1)⟩::s.stack} = 1 := by
      have none := closed.1
      simp only [windows] at none
      simp [windows,List.countP_cons,Frame.inWindow,none]
    have pushed := valid.pushed (f:=⟨top.priority,.written⟩) running (Nat.le_refl _) rfl
    refine ⟨?_,fun busy => List.mem_cons_of_mem _ (valid.active busy),Nat.le_of_eq one,?_,?_,?_,?_,?_⟩
    · simpa using pushed.ordered
    · exact fun started => by simp at started
    · refine fun _ => ⟨fun task => ?_,closed.2.2⟩
      have bound := valid.numbered _ task
      simp only at bound
      omega
    · intro _ none
      have none : windows {s with stack := ⟨top.priority,.allocated (s.spawned+1)⟩::s.stack} = 0 := none
      omega
    · exact fun spawn task => Nat.le_succ_of_le (valid.numbered spawn task)
    · intro g member spawn point
      rcases List.mem_cons.mp member with rfl | member
      · cases point; rfl
      · exact absurd point ((windows_zero s).mp closed.1 g member spawn)
  | refused running user taken =>
    obtain ⟨_,rfl⟩ := tryAllocate_false taken
    exact valid
  | wrote running =>
    rename_i below spawn priority
    have named : spawn = s.spawned := valid.named ⟨priority,.allocated spawn⟩ (by simp [running]) spawn rfl
    subst named
    obtain ⟨one,none⟩ := valid.windows_wrote running
    have ordered := valid.ordered
    rw [running] at ordered
    refine ⟨?_,?_,?_,?_,?_,?_,?_,?_⟩
    · simpa using ordered
    · intro busy
      have member := valid.active busy
      rw [running] at member
      simpa using member
    · exact Nat.le_trans (Nat.le_of_eq none) (Nat.zero_le _)
    · intro halted
      have shut := (valid.stopped halted).1
      omega
    · intro still
      have still : 0 < windows {s with stack := ⟨priority,.written⟩::below} := still
      omega
    · exact fun _ _ => Or.inr rfl
    · intro spawn task
      cases task
      exact Nat.le_refl _
    · intro g member spawn point
      rcases List.mem_cons.mp member with rfl | member
      · cases point
      · exact valid.named g (by rw [running]; exact List.mem_cons_of_mem _ member) spawn point
  | setPending running =>
    rename_i below priority
    have popped := valid.popped running rfl (by simp)
    have ordered := valid.ordered
    have same : windows {s with stack := ⟨priority,.pend⟩::below} = windows s := by
      simp [windows,running,Frame.inWindow]
    rw [running] at ordered
    refine ⟨by simpa using ordered,?_,same ▸ valid.single,same ▸ valid.stopped,same ▸ valid.window,
      same ▸ valid.live,valid.numbered,?_⟩
    · exact fun busy => List.mem_cons_of_mem _ (popped.active busy)
    · intro g member spawn point
      rcases List.mem_cons.mp member with rfl | member
      · cases point
      · exact popped.named g member spawn point
  | wake running user => exact valid.pends.pushed running (Nat.le_refl _) rfl
  | pend running =>
    exact (valid.latches (s.latched || decide (0 < dispatcher))).popped running rfl (by simp)

-- In a state of a law-abiding run, entering the future is right exactly if no window is open.
theorem polled_live_iff {dispatcher : Nat} {s t : State} {e : Event} (valid : Valid dispatcher s)
    (step : Step dispatcher s e t) : WindowShut evs s e t ↔ PollsLive evs s e t := by
  constructor
  · intro shut found latest entered
    subst entered
    cases step with
    | polled running phase set =>
      have started := valid.started (Or.inl phase)
      have closed := (windows_zero s).mpr (shut _ _ rfl)
      exact (valid.live started closed).resolve_left (by simp [phase])
  · intro live found latest entered
    have task := live found latest entered
    subst entered
    cases step with
    | polled running phase set =>
      refine (windows_zero s).mp ?_
      by_contra open_
      exact (valid.window (Nat.pos_iff_ne_zero.mpr open_)).1 task

theorem polls_live_iff (dispatcher : Nat) (s : State) (run : Run dispatcher s) :
    run.Every PollsLive ↔ run.Every WindowShut :=
  (run.every_iff (fun _ s => Valid dispatcher s) (initial_valid dispatcher)
    (fun valid step shut => step_valid valid step shut)
    (fun valid step => polled_live_iff valid step)).symm

-- A waker fires before the first spawn, so `pending` is already set when main
-- has allocated the executor but not yet written the future.
theorem polls_uninit :
    ¬ ∀ (dispatcher : Nat) (s : State) (run : Run dispatcher s), run.Every PollsLive := by
  intro all
  have allocated := (.start : Run 1 (initial 1))
    |>.snoc _ (.wake rfl (Or.inl rfl))
    |>.snoc _ (.pend rfl)
    |>.snoc _ (.dispatch rfl (by decide) rfl)
    |>.snoc _ (.notRunning rfl rfl rfl)
    |>.snoc _ (.leave rfl rfl (by decide))
    |>.snoc _ (.allocated rfl (Or.inl rfl) rfl)
  have preempted := allocated
    |>.snoc (.interrupt 2) (.interrupt rfl (by decide))
    |>.snoc _ (.wake rfl (Or.inl rfl))
    |>.snoc _ (.pend rfl)
    |>.snoc _ (.finish rfl (by decide))
    |>.snoc _ (.dispatch rfl (by decide) rfl)
    |>.snoc _ (.running rfl rfl rfl)
  have live := (all 1 _ (preempted.snoc _ (.polled rfl rfl rfl))).2 _ _ rfl
  cases live

end Rtic.Executor
