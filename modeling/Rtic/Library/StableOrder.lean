import Mathlib.Data.List.Sort
import Mathlib.Order.Defs.LinearOrder
namespace StableOrder
variable {A K : Type} {line line' l : List A} {a b : A}

-- An item goes in before the first that it has to precede. The list stays in an order
-- that agrees with that at the one place where it goes in.
theorem pairwise_insert {R order : A → A → Prop} [DecidableRel order] (sorted : l.Pairwise R)
    (first : ∀ b ∈ l, order a b → R a b) (through : ∀ b ∈ l, ∀ c ∈ l, order a b → R b c → R a c)
    (last : ∀ b ∈ l, ¬order a b → R b a) : (l.orderedInsert order a).Pairwise R := by
  induction l with
  | nil => exact List.pairwise_singleton _ _
  | cons b l ih =>
    obtain ⟨next,rest⟩ := List.pairwise_cons.mp sorted
    have later : ∀ {c}, c ∈ l → c ∈ b::l := fun member => List.mem_cons_of_mem _ member
    rw [List.orderedInsert_cons]
    split
    · rename_i before
      refine List.pairwise_cons.mpr ⟨fun c member => ?_,sorted⟩
      rcases List.mem_cons.mp member with rfl | below
      · exact first c List.mem_cons_self before
      · exact through b List.mem_cons_self c (later below) before (next c below)
    · rename_i after
      refine List.pairwise_cons.mpr ⟨fun c member => ?_,?_⟩
      · rcases (List.mem_orderedInsert _).mp member with rfl | below
        · exact last b List.mem_cons_self after
        · exact next c below
      · apply ih rest
        · exact fun c member => first c (later member)
        · exact fun c member d member' => through c (later member) d (later member')
        · exact fun c member => last c (later member)

variable [LinearOrder K] {key : A → K}

-- One item goes ahead of another by its key, and where the keys are equal by its place in the line.
def Ahead (key : A → K) (line : List A) (a b : A) : Prop := key a < key b ∨ (key a = key b ∧ [a,b].Sublist line)

-- The items of the line as a stable sort puts them.
structure Sorts (key : A → K) (line l : List A) : Prop where
  perm : l.Perm line
  sorted : l.Pairwise (Ahead key line)

theorem Ahead.key_le (ahead : Ahead key line a b) : key a ≤ key b := by
  rcases ahead with less | ⟨equal,_⟩
  · exact less.le
  · exact equal.le

theorem Ahead.mono (ahead : Ahead key line a b) (sub : line.Sublist line') : Ahead key line' a b :=
  ahead.imp_right fun ⟨equal,order⟩ => ⟨equal,order.trans sub⟩

theorem Sorts.nil : Sorts key [] [] := ⟨.nil,.nil⟩

-- The last of the line goes behind all whose keys are not greater.
theorem Sorts.insert (sorts : Sorts key line l) :
    Sorts key (line++[a]) (l.orderedInsert (fun a b => key a < key b) a) := by
  refine ⟨?_,pairwise_insert ?_ ?_ ?_ ?_⟩
  · exact ((List.perm_orderedInsert _ a l).trans (sorts.perm.cons a)).trans (List.perm_append_singleton a line).symm
  · exact sorts.sorted.imp fun ahead => ahead.mono (List.sublist_append_left _ _)
  · exact fun b _ less => Or.inl less
  · exact fun b _ c _ less ahead => Or.inl (less.trans_le ahead.key_le)
  · intro b member notLess
    have listed : [b].Sublist line := List.singleton_sublist.mpr (sorts.perm.mem_iff.mp member)
    rcases (le_of_not_gt notLess).lt_or_eq with less | equal
    · exact Or.inl less
    · exact Or.inr ⟨equal,listed.append (List.Sublist.refl [a])⟩

-- Those that stay keep their order.
theorem Sorts.filter (sorts : Sorts key line l) (stays : A → Bool) : Sorts key (line.filter stays) (l.filter stays) := by
  refine ⟨sorts.perm.filter stays,List.pairwise_filter.mpr (sorts.sorted.imp fun ahead stay stay' => ?_)⟩
  refine ahead.imp_right fun ⟨equal,order⟩ => ⟨equal,?_⟩
  have kept := order.filter stays
  rwa [List.filter_eq_self.mpr (by simp [stay,stay'])] at kept

end StableOrder
