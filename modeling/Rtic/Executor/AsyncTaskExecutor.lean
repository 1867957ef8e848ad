import Mathlib.Data.List.Basic
import Rtic.Library.Transition
namespace Rtic.Executor

-- `task: UnsafeCell<MaybeUninit<F>>`. A future is named by the number of the
-- successful `try_allocate` that it was spawned with.
inductive Storage where
  | uninit
  | future (spawn : Nat)
  | completed (spawn : Nat)
  deriving DecidableEq, Repr

structure AsyncTaskExecutor where
  task : Storage
  running : Bool
  pending : Bool
  deriving DecidableEq, Repr

namespace AsyncTaskExecutor

def new : AsyncTaskExecutor := ⟨.uninit,false,false⟩

def isRunning (self : AsyncTaskExecutor) : Bool := self.running

-- compare_exchange(true, false)
def checkAndClearPending (self : AsyncTaskExecutor) : Bool × AsyncTaskExecutor :=
  if self.pending then (true,{self with pending := false}) else (false,self)

def setPending (self : AsyncTaskExecutor) : AsyncTaskExecutor := {self with pending := true}

-- compare_exchange(false, true)
def tryAllocate (self : AsyncTaskExecutor) : Bool × AsyncTaskExecutor :=
  if self.running then (false,self) else (true,{self with running := true})

-- `spawn` is this write followed by `set_pending`; a preemption may fall between.
def write (self : AsyncTaskExecutor) (spawn : Nat) : AsyncTaskExecutor :=
  {self with task := .future spawn}

-- What `Future::poll` leaves behind when it returns `Poll::Ready`.
def complete (self : AsyncTaskExecutor) : AsyncTaskExecutor :=
  match self.task with
  | .future spawn => {self with task := .completed spawn}
  | _ => self

def stop (self : AsyncTaskExecutor) : AsyncTaskExecutor := {self with running := false}

theorem checkAndClearPending_true {self next : AsyncTaskExecutor}
    (checked : self.checkAndClearPending = (true,next)) :
    self.pending = true ∧ next = {self with pending := false} := by
  unfold checkAndClearPending at checked
  split at checked
  · rename_i pending
    cases checked
    exact ⟨pending,rfl⟩
  · cases checked

theorem checkAndClearPending_false {self next : AsyncTaskExecutor}
    (checked : self.checkAndClearPending = (false,next)) : self.pending = false ∧ next = self := by
  unfold checkAndClearPending at checked
  split at checked
  · cases checked
  · rename_i pending
    cases checked
    exact ⟨by simpa using pending,rfl⟩

theorem tryAllocate_true {self next : AsyncTaskExecutor} (allocated : self.tryAllocate = (true,next)) :
    self.running = false ∧ next = {self with running := true} := by
  unfold tryAllocate at allocated
  split at allocated
  · cases allocated
  · rename_i running
    cases allocated
    exact ⟨by simpa using running,rfl⟩

theorem tryAllocate_false {self next : AsyncTaskExecutor} (allocated : self.tryAllocate = (false,next)) :
    self.running = true ∧ next = self := by
  unfold tryAllocate at allocated
  split at allocated
  · rename_i running
    cases allocated
    exact ⟨running,rfl⟩
  · cases allocated

@[simp] theorem setPending_running (self : AsyncTaskExecutor) : self.setPending.running = self.running := rfl
@[simp] theorem setPending_task (self : AsyncTaskExecutor) : self.setPending.task = self.task := rfl
@[simp] theorem write_running (self : AsyncTaskExecutor) (spawn : Nat) :
    (self.write spawn).running = self.running := rfl
@[simp] theorem write_task (self : AsyncTaskExecutor) (spawn : Nat) :
    (self.write spawn).task = .future spawn := rfl
@[simp] theorem stop_running (self : AsyncTaskExecutor) : self.stop.running = false := rfl
@[simp] theorem stop_task (self : AsyncTaskExecutor) : self.stop.task = self.task := rfl

@[simp] theorem complete_running (self : AsyncTaskExecutor) : self.complete.running = self.running := by
  unfold complete
  split <;> rfl

@[simp] theorem complete_pending (self : AsyncTaskExecutor) : self.complete.pending = self.pending := by
  unfold complete
  split <;> rfl

theorem complete_not_future (self : AsyncTaskExecutor) (spawn : Nat) : self.complete.task ≠ .future spawn := by
  unfold complete
  split
  · simp
  · rename_i other
    exact other spawn

end AsyncTaskExecutor

-- Where a context stands in the code generated for this one task. A call of
-- spawn or of a waker is a frame of its own on top of its caller.
inductive Point where
  | user
  | dispatcher
  | allocated (spawn : Nat)
  | written
  | pend
  deriving DecidableEq, Repr

structure Frame where
  priority : Nat
  point : Point
  deriving DecidableEq, Repr

-- How far the dispatcher is with this task: the tasks before and after it in
-- its channel are polled in `before` and `after`.
inductive Phase where
  | idle
  | before
  | checked
  | polling
  | ready
  | after
  deriving DecidableEq, Repr

structure State where
  exec : AsyncTaskExecutor
  phase : Phase
  latched : Bool
  spawned : Nat
  stack : List Frame
  deriving DecidableEq, Repr

inductive Event where
  | interrupt (priority : Nat)
  | finish
  | latch
  | dispatch
  | notRunning
  | running
  | notPending
  | polled (found : Storage) (latest : Nat)
  | futurePending
  | futureReady
  | stopped
  | leave
  | loop
  | allocated (spawn : Nat) (priority : Nat)
  | refused
  | wrote (spawn : Nat)
  | setPending
  | wake
  | pend
  deriving DecidableEq, Repr

-- A dispatcher at priority 0 is the endless loop of main, any other one is an
-- interrupt handler above whatever main runs.
def initial (dispatcher : Nat) : State :=
  if dispatcher = 0 then ⟨.new,.before,false,0,[⟨0,.dispatcher⟩]⟩ else ⟨.new,.idle,false,0,[⟨0,.user⟩]⟩

-- User code runs in a context, in the other tasks of the dispatcher and in the
-- polled future itself; only there can spawn or a waker be called.
def runsUser (s : State) (top : Frame) : Prop :=
  top.point = .user ∨
    (top.point = .dispatcher ∧ (s.phase = .before ∨ s.phase = .polling ∨ s.phase = .after))

-- One atomic step of the running context (the top frame), or the entry of a
-- context of higher priority.
inductive Step (dispatcher : Nat) : State → Event → State → Prop where
  | interrupt (running : s.stack = top::below) (above : top.priority < priority) :
      Step dispatcher s (.interrupt priority) {s with stack := ⟨priority,.user⟩::s.stack}
  | finish (running : s.stack = ⟨priority,.user⟩::below) (nested : below ≠ []) :
      Step dispatcher s .finish {s with stack := below}
  -- another task of the same dispatcher is spawned or woken
  | latch (running : s.stack = top::below) (user : runsUser s top) (handler : 0 < dispatcher) :
      Step dispatcher s .latch {s with latched := true}
  | dispatch (running : s.stack = top::below) (above : top.priority < dispatcher)
      (latched : s.latched = true) :
      Step dispatcher s .dispatch
        {s with latched := false,phase := .before,stack := ⟨dispatcher,.dispatcher⟩::s.stack}
  -- poll: is_running() && check_and_clear_pending()
  | notRunning (running : s.stack = ⟨priority,.dispatcher⟩::below) (phase : s.phase = .before)
      (stopped : s.exec.isRunning = false) :
      Step dispatcher s .notRunning {s with phase := .after}
  | running (running : s.stack = ⟨priority,.dispatcher⟩::below) (phase : s.phase = .before)
      (started : s.exec.isRunning = true) :
      Step dispatcher s .running {s with phase := .checked}
  | notPending (running : s.stack = ⟨priority,.dispatcher⟩::below) (phase : s.phase = .checked)
      (clear : s.exec.checkAndClearPending = (false,exec)) :
      Step dispatcher s .notPending {s with exec := exec,phase := .after}
  | polled (running : s.stack = ⟨priority,.dispatcher⟩::below) (phase : s.phase = .checked)
      (set : s.exec.checkAndClearPending = (true,exec)) :
      Step dispatcher s (.polled s.exec.task s.spawned) {s with exec := exec,phase := .polling}
  | futurePending (running : s.stack = ⟨priority,.dispatcher⟩::below) (phase : s.phase = .polling) :
      Step dispatcher s .futurePending {s with phase := .after}
  | futureReady (running : s.stack = ⟨priority,.dispatcher⟩::below) (phase : s.phase = .polling) :
      Step dispatcher s .futureReady {s with exec := s.exec.complete,phase := .ready}
  | stopped (running : s.stack = ⟨priority,.dispatcher⟩::below) (phase : s.phase = .ready) :
      Step dispatcher s .stopped {s with exec := s.exec.stop,phase := .after}
  | leave (running : s.stack = ⟨priority,.dispatcher⟩::below) (phase : s.phase = .after)
      (handler : 0 < dispatcher) :
      Step dispatcher s .leave {s with phase := .idle,stack := below}
  | loop (running : s.stack = ⟨priority,.dispatcher⟩::below) (phase : s.phase = .after)
      (main : dispatcher = 0) :
      Step dispatcher s .loop {s with phase := .before}
  -- the generated spawn function
  | allocated (running : s.stack = top::below) (user : runsUser s top)
      (free : s.exec.tryAllocate = (true,exec)) :
      Step dispatcher s (.allocated (s.spawned+1) top.priority)
        {s with
          exec := exec,spawned := s.spawned+1
          stack := ⟨top.priority,.allocated (s.spawned+1)⟩::s.stack}
  | refused (running : s.stack = top::below) (user : runsUser s top)
      (taken : s.exec.tryAllocate = (false,exec)) :
      Step dispatcher s .refused {s with exec := exec}
  | wrote (running : s.stack = ⟨priority,.allocated spawn⟩::below) :
      Step dispatcher s (.wrote spawn)
        {s with exec := s.exec.write spawn,stack := ⟨priority,.written⟩::below}
  | setPending (running : s.stack = ⟨priority,.written⟩::below) :
      Step dispatcher s .setPending {s with exec := s.exec.setPending,stack := ⟨priority,.pend⟩::below}
  -- a waker, from an earlier poll or from the generated waker getter
  | wake (running : s.stack = top::below) (user : runsUser s top) :
      Step dispatcher s .wake
        {s with exec := s.exec.setPending,stack := ⟨top.priority,.pend⟩::s.stack}
  -- rtic::export::pend, which both spawn and wakers end with; priority 0 pends nothing
  | pend (running : s.stack = ⟨priority,.pend⟩::below) :
      Step dispatcher s .pend {s with latched := s.latched || decide (0 < dispatcher),stack := below}

abbrev Run (dispatcher : Nat) (s : State) := Transition.Run (Step dispatcher) (initial dispatcher) s

end Rtic.Executor
