import Rtic.Export.CortexBasepri
import Rtic.Export.SourceMask
import Rtic.Library.NestedMask
namespace Rtic.Export.CortexSourceMask
open Transition Syntax Codegen SourceMask
open Syntax.Analyze (Analysis)
open CortexBasepri (isException enabledVectors)

-- The numbers in `device::Interrupt` and the exceptions in `SystemHandler`.
structure Device where
  interrupt : Ident → Option Nat
  systemHandlers : List Ident
  distinct : ∀ {left right number}, interrupt left = some number → interrupt right = some number → left = right

def maskedVectors (app : App) : List Codegen.Vector :=
  dispatcherVectors app++(hardwareVectors app).filter fun vector => !isException vector.name

-- none where `device::Interrupt::name` does not resolve.
def numbers (device : Device) (app : App) : Option (List (Nat × Nat)) :=
  (maskedVectors app).mapM fun vector => (device.interrupt vector.name).map fun number => (vector.priority,number)

def generatedMasks (device : Device) (app : App) : Option Masks := (numbers device app).bind generateMasks

-- The checks and the start-up code are shared with the BASEPRI backend.
structure Accepted (nvicPrioBits : Nat) (device : Device) (app : App) (analysis : Analysis) (masks : Masks) : Prop
    extends CortexBasepri.Accepted nvicPrioBits app analysis where
  declared : ∀ name ∈ app.dispatchers, (device.interrupt name).isSome
  handled : ∀ vector ∈ enabledVectors app, isException vector.name → vector.name ∈ device.systemHandlers
  masked : generatedMasks device app = some masks

variable {m : Nat}

inductive Entry (m : Nat) where
  | section_ (enabled : Bool)
  | masks (mask oldMask : Mask m)
  deriving DecidableEq, Repr

structure Held (m : Nat) where
  resource : Ident
  entry : Entry m
  deriving DecidableEq, Repr

-- `i` is the loop variable of read_mask, clear_enable_mask or set_enable_mask.
inductive Point (m : Nat) where
  | body
  | reading (r : Ident) (mask out : Mask m) (i : Nat)
  | clearing (r : Ident) (mask oldMask : Mask m) (i : Nat)
  | restoring (mask oldMask : Mask m) (i : Nat)
  deriving DecidableEq, Repr

structure Frame (m : Nat) where
  handler : Handler
  priority : Nat
  task : Option Task
  point : Point m
  held : List (Held m)
  deriving DecidableEq, Repr

-- `iser` are the interrupt enables of the NVIC, `enabled` is the global enable (PRIMASK).
structure State (m : Nat) where
  iser : BitBank.Bank 32
  enabled : Bool
  stack : List (Frame m)

inductive Event where
  | preempted (handler : Handler)
  | called (task : Task)
  | disabled (r : Ident)
  | computed (r : Ident)
  | read
  | kept
  | cleared
  | entered (r : Ident)
  | enabled (r : Ident)
  | left (r : Ident)
  | restored
  | unlocked
  | returned
  deriving DecidableEq, Repr

def isEnabled (iser : BitBank.Bank 32) (number : Nat) : Bool := (iser (number/32)).getLsbD (number%32)

def delivers (device : Device) (s : State m) (vector : Codegen.Vector) : Bool :=
  s.enabled && (isException vector.name || (device.interrupt vector.name).any (isEnabled s.iser))

def unmask (device : Device) (iser : BitBank.Bank 32) (vector : Codegen.Vector) : BitBank.Bank 32 :=
  match device.interrupt vector.name with
  | some number =>
    if isException vector.name then iser else BitBank.setBits iser (number/32) (1#32 <<< (number-number/32*32))
  | none => iser

section
variable (device : Device) (app : App) (analysis : Analysis) (masks : Masks)

def initial : State masks.chunks :=
  ⟨(enabledVectors app).foldl (unmask device) (fun _ => 0#32),true,[⟨.main,0,none,.body,[]⟩]⟩

inductive Step : State masks.chunks → Event → State masks.chunks → Prop where
  | preempted (running : s.stack = top::below) (member : vector ∈ enabledVectors app)
      (above : top.priority < vector.priority) (delivered : delivers device s vector = true) :
      Step s (.preempted vector.handler)
        {s with stack := ⟨vector.handler,vector.priority,none,.body,[]⟩::s.stack}
  -- run calls the handler as it is
  | called (running : s.stack = top::below) (point : top.point = .body) (free : top.held = [])
      (mine : Executes app top.handler task) :
      Step s (.called task) {s with stack := {top with task := some task}::below}
  | disabled (running : s.stack = top::below) (point : top.point = .body) (task : top.task = some t)
      (mine : Locks app t r) (highest : 4 ≤ ceiling analysis r) :
      Step s (.disabled r)
        {s with enabled := false,stack := {top with held := ⟨r,.section_ s.enabled⟩::top.held}::below}
  | computed (running : s.stack = top::below) (point : top.point = .body) (task : top.task = some t)
      (mine : Locks app t r) (lower : ceiling analysis r < 4)
      (computed : computeMask 0 (ceiling analysis r) masks.levels = some mask) :
      Step s (.computed r) {s with stack := {top with point := .reading r mask (Mask.zero _) 0}::below}
  | read (running : s.stack = top::below) (point : top.point = .reading r mask out i) (more : i < masks.chunks) :
      Step s .read {s with stack := {top with point := .reading r mask (readMask s.iser mask out i) (i+1)}::below}
  | kept (running : s.stack = top::below) (point : top.point = .reading r mask out masks.chunks) :
      Step s .kept {s with stack := {top with point := .clearing r mask out 0}::below}
  | cleared (running : s.stack = top::below) (point : top.point = .clearing r mask oldMask i)
      (more : i < masks.chunks) :
      Step s .cleared
        {s with
          iser := clearEnableMask s.iser mask i
          stack := {top with point := .clearing r mask oldMask (i+1)}::below}
  | entered (running : s.stack = top::below) (point : top.point = .clearing r mask oldMask masks.chunks) :
      Step s (.entered r)
        {s with stack := {top with point := .body,held := ⟨r,.masks mask oldMask⟩::top.held}::below}
  -- the critical section ends: it enables interrupts if they were enabled before it
  | enabled (running : s.stack = top::below) (point : top.point = .body)
      (inner : top.held = ⟨r,.section_ before⟩::outer) :
      Step s (.enabled r) {s with enabled := s.enabled || before,stack := {top with held := outer}::below}
  | left (running : s.stack = top::below) (point : top.point = .body)
      (inner : top.held = ⟨r,.masks mask oldMask⟩::outer) :
      Step s (.left r) {s with stack := {top with point := .restoring mask oldMask 0,held := outer}::below}
  | restored (running : s.stack = top::below) (point : top.point = .restoring mask oldMask i)
      (more : i < masks.chunks) :
      Step s .restored
        {s with
          iser := setEnableMask s.iser mask oldMask i
          stack := {top with point := .restoring mask oldMask (i+1)}::below}
  | unlocked (running : s.stack = top::below) (point : top.point = .restoring mask oldMask masks.chunks) :
      Step s .unlocked {s with stack := {top with point := .body}::below}
  | returned (running : s.stack = top::below) (handler : below ≠ []) (point : top.point = .body)
      (free : top.held = []) :
      Step s .returned {s with stack := below}

abbrev Run (s : State masks.chunks) := Transition.Run (Step device app analysis masks) (initial device app masks) s
end

def Frame.resources (f : Frame m) : List Ident := f.held.map Held.resource

def Exclusive (_ : List Event) (s : State m) : Prop :=
  s.stack.Pairwise fun f below => ∀ r ∈ f.resources, r ∉ below.resources

end Rtic.Export.CortexSourceMask
