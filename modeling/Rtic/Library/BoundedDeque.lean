import Mathlib.Data.List.Basic
namespace BoundedDeque
variable {α D : Type}

-- The operations of a fixed-capacity double-ended queue of `α`, as a client
-- sees them: nothing is said yet about what they do.
structure Api (α D : Type) where
  new : D
  clear : D → D
  isEmpty : D → Bool
  isFull : D → Bool
  pushBackUnchecked : D → α → D
  popFront : D → Option α × D
  popBack : D → Option α × D
  popBackUnchecked : D → α × D

-- What their documentation promises of the contents, front first. The two
-- unchecked operations promise nothing on a full and on an empty deque.
structure Documented (api : Api α D) (capacity : Nat) (items : D → List α) : Prop where
  new : items api.new = []
  clear : ∀ q, items (api.clear q) = []
  isEmpty : ∀ q, api.isEmpty q = (items q).isEmpty
  isFull : ∀ q, api.isFull q = decide ((items q).length = capacity)
  pushBack : ∀ q x, (items q).length < capacity → items (api.pushBackUnchecked q x) = items q++[x]
  popFront : ∀ q, (api.popFront q).1 = (items q).head? ∧ items (api.popFront q).2 = (items q).tail
  popBack : ∀ q, (api.popBack q).1 = (items q).getLast? ∧ items (api.popBack q).2 = (items q).dropLast
  popBackUnchecked : ∀ q rest x, items q = rest++[x] →
    (api.popBackUnchecked q).1 = x ∧ items (api.popBackUnchecked q).2 = rest

-- A deque that is its own contents. Past its capacity it just grows: clients
-- that never push onto a full deque cannot tell.
def listApi [Inhabited α] (capacity : Nat) : Api α (List α) where
  new := []
  clear _ := []
  isEmpty q := q.isEmpty
  isFull q := decide (q.length = capacity)
  pushBackUnchecked q x := q++[x]
  popFront q := (q.head?,q.tail)
  popBack q := (q.getLast?,q.dropLast)
  popBackUnchecked q := (q.getLastD default,q.dropLast)

theorem listApi_documented [Inhabited α] (capacity : Nat) :
    Documented (listApi capacity : Api α (List α)) capacity id where
  new := rfl
  clear _ := rfl
  isEmpty _ := rfl
  isFull _ := rfl
  pushBack _ _ _ := rfl
  popFront _ := ⟨rfl,rfl⟩
  popBack _ := ⟨rfl,rfl⟩
  popBackUnchecked q rest x contents := by
    simp only [id] at contents
    subst contents
    simp [listApi]

variable {api : Api α D} {capacity : Nat} {items : D → List α} {q q' : D} {x : α}

theorem Documented.popFront_some (doc : Documented api capacity items)
    (popped : api.popFront q = (some x,q')) : items q = x::items q' := by
  obtain ⟨head,tail⟩ := doc.popFront q
  rw [popped] at head tail
  obtain ⟨rest,contents⟩ := List.head?_eq_some_iff.mp head.symm
  simp [tail,contents]

theorem Documented.popFront_none (doc : Documented api capacity items)
    (popped : api.popFront q = (none,q')) : items q = [] ∧ items q' = [] := by
  obtain ⟨head,tail⟩ := doc.popFront q
  rw [popped] at head tail
  have empty : items q = [] := List.head?_eq_none_iff.mp head.symm
  exact ⟨empty,by simpa [empty] using tail⟩

theorem Documented.popBack_some (doc : Documented api capacity items)
    (popped : api.popBack q = (some x,q')) : items q = items q'++[x] := by
  obtain ⟨last,rest⟩ := doc.popBack q
  rw [popped] at last rest
  obtain ⟨front,contents⟩ := List.getLast?_eq_some_iff.mp last.symm
  simp [rest,contents]

theorem Documented.popBack_none (doc : Documented api capacity items)
    (popped : api.popBack q = (none,q')) : items q = [] ∧ items q' = [] := by
  obtain ⟨last,rest⟩ := doc.popBack q
  rw [popped] at last rest
  have empty : items q = [] := List.getLast?_eq_none_iff.mp last.symm
  exact ⟨empty,by simpa [empty] using rest⟩

-- Filling a cleared deque with as many elements as it holds never meets a full deque.
theorem Documented.fill (doc : Documented api capacity items) (xs : List α)
    (room : (items q).length+xs.length ≤ capacity) :
    items (xs.foldl api.pushBackUnchecked q) = items q++xs := by
  induction xs generalizing q with
  | nil => simp
  | cons x xs ih =>
    simp only [List.length_cons] at room
    have pushed := doc.pushBack q x (by omega)
    have rest := ih (q:=api.pushBackUnchecked q x) (by simp [pushed]; omega)
    rw [List.foldl_cons,rest,pushed]
    simp

end BoundedDeque
