import Rtic.Common.WakerRegistration
namespace Rtic.Sync
open Rtic.Common

inductive Store (T : Type) where
  | set (value : T)
  | unset
  deriving DecidableEq, Repr

structure Signal (T : Type) where
  waker : WakerRegistration
  store : Store T
  seen : Bool
  alreadySplit : Bool
  deriving DecidableEq, Repr

namespace Signal
variable {T : Type}

def new : Signal T := ⟨WakerRegistration.new,.unset,false,false⟩

-- A second split panics.
def split (self : Signal T) : Option (Signal T) :=
  if self.alreadySplit then none else some {self with alreadySplit := true}

-- The three steps of SignalWriter::write_inner, and the waker that the last one wakes.
def replace (self : Signal T) (value : Store T) : Signal T := {self with store := value}
def clearSeen (self : Signal T) : Signal T := {self with seen := false}
def wake (self : Signal T) : Signal T × Option Waker := ({self with waker := self.waker.wake.1},self.waker.wake.2)

-- SignalReader::take
def take (self : Signal T) : Store T × Signal T := (self.store,{self with store := .unset})

-- WatchReader::mark_seen
def markSeen (self : Signal T) : Signal T := {self with seen := true}

def register (self : Signal T) (waker : Waker) : Signal T × Option Waker :=
  ({self with waker := (self.waker.register waker).1},(self.waker.register waker).2)

end Signal

-- Where a writer stands within write_inner.
inductive WriterPoint where
  | idle
  | clearSeen
  | wake
  deriving DecidableEq, Repr

end Rtic.Sync
