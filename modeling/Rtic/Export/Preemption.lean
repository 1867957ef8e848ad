import Rtic.Library.PriorityCeiling
import Rtic.Library.Transition
namespace Rtic.Export
variable {Handler Task Res Reg : Type}

structure Backend (Reg : Type) where
  reset : Reg
  -- what `run` writes back at priority 1, where it does not read the register first
  unmasked : Reg
  sectionCeiling : Nat
  -- none where the arithmetic of the written value panics
  raise : Nat → Reg → Option Reg
  delivers : Reg → Nat → Bool

structure Program (Handler Task Res : Type) where
  main : Handler
  interrupt : Handler → Nat → Prop
  executes : Handler → Task → Prop
  locks : Task → Res → Prop
  ceiling : Res → Nat

def Program.entry (program : Program Handler Task Res) (handler : Handler) (priority : Nat) : Prop :=
  program.interrupt handler priority ∨ (handler = program.main ∧ priority = 0)

-- A task never runs above the ceiling of a resource that it may lock.
def Program.Covered (program : Program Handler Task Res) : Prop :=
  ∀ handler priority task r, program.entry handler priority → program.executes handler task →
    program.locks task r → priority ≤ program.ceiling r

-- `saved` and `enabled` are the register and the global enable on entry of the lock.
structure Held (Res Reg : Type) where
  resource : Res
  section_ : Bool
  saved : Reg
  enabled : Bool
  deriving DecidableEq, Repr

inductive Point (Res Reg : Type) where
  | entered
  | body
  -- `lock` has read the register as its `current` and not yet written it
  | raising (r : Res) (current : Reg)
  | leaving
  deriving DecidableEq, Repr

-- `entry` is the register when the handler is entered, `initial` what `run` has read of it.
structure Frame (Handler Task Res Reg : Type) where
  handler : Handler
  priority : Nat
  task : Option Task
  entry : Reg
  initial : Option Reg
  point : Point Res Reg
  held : List (Held Res Reg)
  deriving DecidableEq, Repr

structure State (Handler Task Res Reg : Type) where
  reg : Reg
  enabled : Bool
  stack : List (Frame Handler Task Res Reg)
  deriving DecidableEq, Repr

inductive Event (Handler Task Res : Type) where
  | preempted (handler : Handler) (priority : Nat)
  | began
  | called (task : Task)
  | reading (r : Res)
  | raised (r : Res)
  | disabled (r : Res)
  | unlocked (r : Res)
  | finished
  | returned
  deriving DecidableEq, Repr

section
variable (backend : Backend Reg) (program : Program Handler Task Res)

def initial : State Handler Task Res Reg :=
  ⟨backend.reset,true,[⟨program.main,0,none,backend.reset,none,.body,[]⟩]⟩

-- One register access or one control transfer of the running (topmost) handler,
-- or the entry of an interrupt.
inductive Step : State Handler Task Res Reg → Event Handler Task Res → State Handler Task Res Reg → Prop where
  | preempted (running : s.stack = top::below) (interrupt : program.interrupt handler priority)
      (above : top.priority < priority) (enabled : s.enabled = true)
      (delivered : backend.delivers s.reg priority = true) :
      Step s (.preempted handler priority)
        {s with stack := ⟨handler,priority,none,s.reg,none,.entered,[]⟩::s.stack}
  -- run: priority 1 does not read the register
  | began (running : s.stack = top::below) (point : top.point = .entered) :
      Step s .began
        {s with stack := {top with
          initial := if top.priority = 1 then none else some s.reg,point := .body}::below}
  -- the handler, or the dispatcher of a priority, goes on with one of its tasks
  | called (running : s.stack = top::below) (point : top.point = .body) (free : top.held = [])
      (mine : program.executes top.handler task) :
      Step s (.called task) {s with stack := {top with task := some task}::below}
  | disabled (running : s.stack = top::below) (point : top.point = .body) (task : top.task = some t)
      (mine : program.locks t r) (highest : program.ceiling r = backend.sectionCeiling) :
      Step s (.disabled r)
        {s with enabled := false,stack := {top with held := ⟨r,true,s.reg,s.enabled⟩::top.held}::below}
  | reading (running : s.stack = top::below) (point : top.point = .body) (task : top.task = some t)
      (mine : program.locks t r) (lower : program.ceiling r ≠ backend.sectionCeiling) :
      Step s (.reading r) {s with stack := {top with point := .raising r s.reg}::below}
  | raised (running : s.stack = top::below) (point : top.point = .raising r current)
      (written : backend.raise (program.ceiling r) s.reg = some reg) :
      Step s (.raised r)
        {s with
          reg := reg
          stack := {top with point := .body,held := ⟨r,false,current,s.enabled⟩::top.held}::below}
  | unlocked (running : s.stack = top::below) (point : top.point = .body)
      (inner : top.held = lock::outer) :
      Step s (.unlocked lock.resource)
        {s with
          reg := if lock.section_ then s.reg else lock.saved
          enabled := if lock.section_ then lock.enabled else s.enabled
          stack := {top with held := outer}::below}
  | finished (running : s.stack = top::below) (handler : below ≠ []) (point : top.point = .body)
      (free : top.held = []) :
      Step s .finished
        {s with reg := top.initial.getD backend.unmasked,stack := {top with point := .leaving}::below}
  | returned (running : s.stack = top::below) (point : top.point = .leaving) :
      Step s .returned {s with stack := below}

abbrev Run (s : State Handler Task Res Reg) :=
  Transition.Run (Step backend program) (initial backend program) s
end

end Rtic.Export
