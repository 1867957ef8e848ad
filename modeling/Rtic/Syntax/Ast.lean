import Rtic.Library.OrderedMap
namespace Rtic.Syntax

-- Identifiers compare by their text, whatever their span.
abbrev Ident := String
-- A type, as its tokens.
abbrev Ty := String
abbrev Map (α : Type) := Ordered.Map Ident α

-- A task or resource error points at an identifier.
structure Error where
  span : Ident
  message : String
  deriving DecidableEq, Repr

inductive Access where
  | exclusive
  | shared
  deriving DecidableEq, Repr

def Access.isExclusive (self : Access) : Bool := self == .exclusive
def Access.isShared (self : Access) : Bool := self == .shared

inductive TaskLocal where
  | external
  | declared (ty : Ty)
  deriving DecidableEq, Repr

abbrev SharedResources := Map Access
abbrev LocalResources := Map TaskLocal

structure SharedResource where
  ty : Ty
  lockFree : Bool
  deriving DecidableEq, Repr

structure LocalResource where
  ty : Ty
  deriving DecidableEq, Repr

structure Init where
  name : Ident
  localResources : LocalResources
  deriving DecidableEq, Repr

structure Idle where
  name : Ident
  localResources : LocalResources
  sharedResources : SharedResources
  deriving DecidableEq, Repr

structure SoftwareTask where
  priority : Nat
  localResources : LocalResources
  sharedResources : SharedResources
  localTask : Bool
  inputs : List Ty
  deriving DecidableEq, Repr

structure HardwareTask where
  binds : Ident
  priority : Nat
  localResources : LocalResources
  sharedResources : SharedResources
  deriving DecidableEq, Repr

structure App where
  dispatchers : List Ident
  init : Init
  idle : Option Idle
  sharedResources : Map SharedResource
  localResources : Map LocalResource
  hardwareTasks : Map HardwareTask
  softwareTasks : Map SoftwareTask
  deriving DecidableEq, Repr

def App.taskNames (app : App) : List Ident :=
  app.init.name::app.idle.toList.map Idle.name++app.hardwareTasks.map Prod.fst++app.softwareTasks.map Prod.fst

-- What the parser has already enforced when it hands over an application:
-- names are used once, interrupts are bound once, a priority is a `u8`, and a
-- hardware task is never at priority 0.
structure App.Parsed (app : App) : Prop where
  names : app.taskNames.Nodup
  binds : (app.hardwareTasks.map fun task => task.2.binds).Nodup
  shared : (app.sharedResources.map Prod.fst).Nodup
  local_ : (app.localResources.map Prod.fst).Nodup
  hardware : ∀ task ∈ app.hardwareTasks, 1 ≤ task.2.priority ∧ task.2.priority < 256
  software : ∀ task ∈ app.softwareTasks, task.2.priority < 256

-- An IndexMap holds a key once.
def Keyed {α : Type} (m : Map α) : Prop := (m.map Prod.fst).Nodup

instance {α : Type} (m : Map α) : Decidable (Keyed m) := inferInstanceAs (Decidable (m.map Prod.fst).Nodup)

structure App.Keyed (app : App) : Prop where
  dispatchers : app.dispatchers.Nodup
  shared : Syntax.Keyed app.sharedResources
  local_ : Syntax.Keyed app.localResources
  hardware : Syntax.Keyed app.hardwareTasks
  software : Syntax.Keyed app.softwareTasks
  initLocals : Syntax.Keyed app.init.localResources
  idleShared : ∀ idle ∈ app.idle, Syntax.Keyed idle.sharedResources
  idleLocals : ∀ idle ∈ app.idle, Syntax.Keyed idle.localResources
  hardwareShared : ∀ task ∈ app.hardwareTasks, Syntax.Keyed task.2.sharedResources
  hardwareLocals : ∀ task ∈ app.hardwareTasks, Syntax.Keyed task.2.localResources
  softwareShared : ∀ task ∈ app.softwareTasks, Syntax.Keyed task.2.sharedResources
  softwareLocals : ∀ task ∈ app.softwareTasks, Syntax.Keyed task.2.localResources

-- App::shared_resource_accesses
def App.sharedResourceAccesses (app : App) : List (Option Nat × Ident × Access) :=
  app.idle.toList.flatMap (fun idle =>
      idle.sharedResources.map fun entry => (some 0,entry.1,entry.2))++
    app.hardwareTasks.flatMap (fun task =>
      task.2.sharedResources.map fun entry => (some task.2.priority,entry.1,entry.2))++
    app.softwareTasks.flatMap (fun task =>
      task.2.sharedResources.map fun entry => (some task.2.priority,entry.1,entry.2))

def isExternal (entry : Ident × TaskLocal) : Bool :=
  match entry.2 with
  | .external => true
  | .declared _ => false

-- App::local_resource_accesses
def App.localResourceAccesses (app : App) : List Ident :=
  (app.init.localResources.filter isExternal).map Prod.fst++
    app.idle.toList.flatMap (fun idle => (idle.localResources.filter isExternal).map Prod.fst)++
    app.hardwareTasks.flatMap (fun task => (task.2.localResources.filter isExternal).map Prod.fst)++
    app.softwareTasks.flatMap (fun task => (task.2.localResources.filter isExternal).map Prod.fst)

end Rtic.Syntax
