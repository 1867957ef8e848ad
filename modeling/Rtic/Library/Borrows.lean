import Mathlib.Data.List.Flatten
import Mathlib.Data.List.Perm.Basic
namespace Borrows
variable {Place Holder : Type}

-- A reference that someone holds: where it points, and whether it is `&mut`.
structure Borrow (Place : Type) where
  place : Place
  mutable : Bool
  deriving DecidableEq, Repr

-- What may be held together: references to different places, or `&` references.
def Compatible (a b : Borrow Place) : Prop := a.place = b.place → a.mutable = false ∧ b.mutable = false

def Separate (held : List (Borrow Place)) : Prop := held.Pairwise Compatible

def Apart (left right : List (Borrow Place)) : Prop := ∀ a ∈ left, ∀ b ∈ right, Compatible a b

theorem Compatible.symm {a b : Borrow Place} (both : Compatible a b) : Compatible b a :=
  fun same => And.symm (both same.symm)

theorem Compatible.of_ne {a b : Borrow Place} (differ : a.place ≠ b.place) : Compatible a b :=
  fun same => absurd same differ

theorem Apart.symm {left right : List (Borrow Place)} (apart : Apart left right) : Apart right left :=
  fun b there a here => (apart a here b there).symm

theorem separate_append {left right : List (Borrow Place)} :
    Separate (left++right) ↔ Separate left ∧ Separate right ∧ Apart left right :=
  List.pairwise_append

-- Whoever points at a place only once may hold it as he likes.
theorem separate_of_nodup {held : List (Borrow Place)} (distinct : (held.map Borrow.place).Nodup) : Separate held :=
  (List.pairwise_map.mp distinct).imp Compatible.of_ne

-- Several holders: each by itself, and every two of them.
theorem separate_flatMap {holders : List Holder} {borrows : Holder → List (Borrow Place)}
    (distinct : holders.Nodup) (own : ∀ h ∈ holders, Separate (borrows h))
    (apart : ∀ g ∈ holders, ∀ h ∈ holders, g ≠ h → Apart (borrows g) (borrows h)) :
    Separate (holders.flatMap borrows) := by
  refine List.pairwise_flatMap.mpr ⟨own,?_⟩
  exact distinct.imp_of_mem fun {g h} here there differ => apart g here h there differ

end Borrows
