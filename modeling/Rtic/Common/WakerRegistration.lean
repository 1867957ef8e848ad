import Mathlib.Logic.Basic
namespace Rtic.Common

-- The two pointers of a raw waker.
structure Waker where
  data : Nat
  vtable : Nat
  deriving DecidableEq, Repr

def Waker.willWake (self other : Waker) : Bool := self.data == other.data && self.vtable == other.vtable

theorem Waker.willWake_iff (self other : Waker) : self.willWake other = true ↔ self = other := by
  rcases self with ⟨data,vtable⟩
  rcases other with ⟨data',vtable'⟩
  simp [willWake]

-- CriticalSectionWakerRegistration
structure WakerRegistration where
  waker : Option Waker
  deriving DecidableEq, Repr

namespace WakerRegistration

def new : WakerRegistration := ⟨none⟩

-- Beside the registration, the waker that is woken: one that is replaced.
def register (self : WakerRegistration) (newWaker : Waker) : WakerRegistration × Option Waker :=
  match self.waker with
  | some old => if old.willWake newWaker then (self,none) else (⟨some newWaker⟩,some old)
  | none => (⟨some newWaker⟩,none)

def wake (self : WakerRegistration) : WakerRegistration × Option Waker := (⟨none⟩,self.waker)

theorem register_waker (self : WakerRegistration) (newWaker : Waker) :
    (self.register newWaker).1.waker = some newWaker := by
  rcases self with ⟨_|old⟩
  · rfl
  · unfold register
    dsimp only
    split
    · rename_i same
      rw [(Waker.willWake_iff old newWaker).mp same]
    · rfl

end WakerRegistration
end Rtic.Common
