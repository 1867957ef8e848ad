import Mathlib.Logic.Function.Basic
import Rtic.Codegen.Generator
import Rtic.Executor.AsyncTaskExecutor
import Rtic.Library.Borrows
namespace Rtic.Codegen
open Ordered Syntax Borrows
open Export (Backend Program Held)
open Executor (AsyncTaskExecutor Storage)
open Syntax.Analyze (Context Static)

-- A proxy points nowhere before it is locked.
def ResourceField.borrow (self : ResourceField) : Option (Borrow Static) :=
  match self.field with
  | .reference mutable => some ⟨self.points,mutable⟩
  | .proxy => none

def ResourcesStruct.borrows (self : ResourcesStruct) : List (Borrow Static) :=
  self.fields.filterMap ResourceField.borrow

def ContextItems.borrows (self : ContextItems) : List (Borrow Static) :=
  (self.locals.toList++self.shared.toList).flatMap ResourcesStruct.borrows

def Generated.items (generated : Generated) : Context → Option ContextItems
  | .init => some generated.init
  | .idle => generated.idle
  | .hardwareTask name => (generated.hardwareTasks.find? fun task => task.items.module_.name = name).map HardwareItems.items
  | .softwareTask name => generated.softwareTasks.find? fun items => items.module_.name = name

def Generated.borrows (generated : Generated) (ctxt : Context) : List (Borrow Static) :=
  ((generated.items ctxt).map ContextItems.borrows).getD []

inductive Phase where
  | executors (left : List Ident)
  | init
  | postInit (left : List Static)
  | running
  deriving DecidableEq, Repr

inductive Poll where
  | idle
  | entered
  | ready
  deriving DecidableEq, Repr

-- `allocated`: a call of spawn is between `try_allocate` and the write of the future.
structure Slot where
  exec : AsyncTaskExecutor
  allocated : Bool
  poll : Poll
  spawns : Nat
  deriving DecidableEq, Repr

def Slot.live (self : Slot) : Bool :=
  match self.exec.task with
  | .future _ => true
  | _ => false

structure World (Reg : Type) where
  phase : Phase
  core : Export.State Handler Task Ident Reg
  slot : Ident → Slot
  placed : List Ident
  written : List Static

inductive Action where
  | placed (name : Ident)
  | initCalled
  | initReturned
  | wroteLate (static : Static)
  | enabled
  | allocated (name : Ident)
  | wrote (name : Ident)
  | pended (name : Ident)
  | polled (name : Ident)
  | futurePending (name : Ident)
  | futureReady (name : Ident)
  | stopped (name : Ident)
  | machine (event : Export.Event Handler Task Ident)
  deriving DecidableEq, Repr

section
variable {Reg : Type}

def World.update (s : World Reg) (name : Ident) (slot : Slot) : World Reg :=
  {s with slot := Function.update s.slot name slot}

-- Code of the user runs in init, and in the handlers once main has enabled the interrupts.
def World.UserCode (s : World Reg) : Prop :=
  s.phase = .init ∨ (s.phase = .running ∧ ∃ top below, s.core.stack = top::below ∧ top.point = .body)

def World.Between (s : World Reg) : Prop :=
  ∀ top ∈ s.core.stack.head?, ∀ name, top.task = some (.software name) → (s.slot name).poll = .idle

def World.Inside (s : World Reg) (name : Ident) : Prop :=
  ∃ top below, s.core.stack = top::below ∧ top.task = some (.software name) ∧ top.point = .body ∧ top.held = []

-- What the generated code and the borrow checker add to the steps of the machine: idle and the task of a
-- hardware handler are called once, a future locks only while it is polled, and `lock` borrows its proxy,
-- so that a task takes no resource that it already holds.
def World.Proper (s : World Reg) : Export.Event Handler Task Ident → Prop
  | .called (.software _) => False
  | .called _ => ∀ top ∈ s.core.stack.head?, top.task = none
  | .reading r | .disabled r => ∀ top ∈ s.core.stack.head?, r ∉ top.held.map Held.resource ∧
      ∀ name, top.task = some (.software name) → (s.slot name).poll = .entered
  | .finished => s.Between
  | _ => True

-- post_init::codegen
def Main.lateWrites (main : Main) : List Static :=
  main.lateShared.map .shared++main.lateLocal.map .local_

section
variable (backend : Backend Reg) (program : Program Handler Task Ident) (generated : Generated)

def reset : World Reg :=
  ⟨.executors (generated.main.executors.map Prod.fst),Export.initial backend program,
    fun _ => ⟨AsyncTaskExecutor.new,false,.idle,0⟩,[],[]⟩

inductive Step : World Reg → Action → World Reg → Prop where
  | placed (phase : s.phase = .executors (name::left)) :
      Step s (.placed name) {s with phase := .executors left,placed := name::s.placed}
  | initCalled (phase : s.phase = .executors []) : Step s .initCalled {s with phase := .init}
  | initReturned (phase : s.phase = .init) (returned : ∀ name, (s.slot name).allocated = false) :
      Step s .initReturned {s with phase := .postInit generated.main.lateWrites}
  | wroteLate (phase : s.phase = .postInit (static::left)) :
      Step s (.wroteLate static) {s with phase := .postInit left,written := static::s.written}
  | enabled (phase : s.phase = .postInit []) : Step s .enabled {s with phase := .running}
  -- the generated spawn function
  | allocated (user : s.UserCode) (known : name ∈ generated.main.executors.map Prod.fst)
      (free : (s.slot name).exec.tryAllocate = (true,exec)) :
      Step s (.allocated name)
        (s.update name {s.slot name with exec := exec,allocated := true,spawns := (s.slot name).spawns+1})
  | wrote (user : s.UserCode) (allocated : (s.slot name).allocated = true) :
      Step s (.wrote name)
        (s.update name {s.slot name with exec := (s.slot name).exec.write (s.slot name).spawns,allocated := false})
  -- by spawn or by a waker
  | pended (user : s.UserCode) (known : name ∈ generated.main.executors.map Prod.fst) :
      Step s (.pended name) (s.update name {s.slot name with exec := (s.slot name).exec.setPending})
  -- AsyncTaskExecutor::poll
  | polled (running : s.phase = .running) (between : s.Between)
      (called : Export.Step backend program s.core (.called (.software name)) core)
      (started : (s.slot name).exec.isRunning = true)
      (set : (s.slot name).exec.checkAndClearPending = (true,exec)) :
      Step s (.polled name) ({s with core := core}.update name {s.slot name with exec := exec,poll := .entered})
  | futurePending (running : s.phase = .running) (inside : s.Inside name) (polling : (s.slot name).poll = .entered) :
      Step s (.futurePending name) (s.update name {s.slot name with poll := .idle})
  | futureReady (running : s.phase = .running) (inside : s.Inside name) (polling : (s.slot name).poll = .entered) :
      Step s (.futureReady name) (s.update name {s.slot name with exec := (s.slot name).exec.complete,poll := .ready})
  | stopped (running : s.phase = .running) (inside : s.Inside name) (ready : (s.slot name).poll = .ready) :
      Step s (.stopped name) (s.update name {s.slot name with exec := (s.slot name).exec.stop,poll := .idle})
  | machine (running : s.phase = .running) (taken : Export.Step backend program s.core event core)
      (proper : s.Proper event) : Step s (.machine event) {s with core := core}

abbrev Execution (s : World Reg) := Transition.Run (Step backend program generated) (reset backend program generated) s

end

def PollsLive (_ : List Action) (s : World Reg) (a : Action) (_ : World Reg) : Prop :=
  ∀ name, a = .polled name → (s.slot name).live = true

-- init has been called; its context lives on, since its lifetimes are 'static.
def World.begun (s : World Reg) : Bool :=
  match s.phase with
  | .executors _ => false
  | _ => true

def frameContext (f : Export.Frame Handler Task Ident Reg) : Option Context :=
  match f.task with
  | some .idle => some .idle
  | some (.hardware name) => some (.hardwareTask name)
  | _ => none

-- Whoever has a `Context`: a call of spawn has made one, and has then written it into the future.
def World.holders (s : World Reg) (generated : Generated) : List Context :=
  (if s.begun then [.init] else [])++
    ((generated.main.executors.map Prod.fst).filter fun name => (s.slot name).allocated).map .softwareTask++
    ((generated.main.executors.map Prod.fst).filter fun name => (s.slot name).live).map .softwareTask++
    s.core.stack.filterMap frameContext

def frameLocks (f : Export.Frame Handler Task Ident Reg) : List (Borrow Static) :=
  f.held.map fun lock => ⟨.shared lock.resource,true⟩

def World.borrows (s : World Reg) (generated : Generated) : List (Borrow Static) :=
  (s.holders generated).flatMap generated.borrows++s.core.stack.flatMap frameLocks
end

end Rtic.Codegen
