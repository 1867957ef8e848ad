import Mathlib.Data.List.Basic
namespace WaitLine
variable {E K : Type} [DecidableEq K]

-- Which labels put a party at the end of a line and which take one out of it.
structure Rules (E K : Type) where
  joins : E → Option K
  leaves : E → Option K

def Rules.next (rules : Rules E K) (line : List K) (e : E) : List K :=
  ((rules.leaves e).elim line line.erase)++(rules.joins e).toList

-- Those that have joined and not left, in the order in which they joined.
def Rules.line (rules : Rules E K) (evs : List E) : List K := evs.foldl rules.next []

variable {rules : Rules E K} {evs : List E} {e : E} {k : K}

theorem line_snoc : rules.line (evs++[e]) = rules.next (rules.line evs) e := by
  unfold Rules.line
  rw [List.foldl_append]
  rfl

theorem line_keep (joins : rules.joins e = none) (leaves : rules.leaves e = none) :
    rules.line (evs++[e]) = rules.line evs := by
  rw [line_snoc]
  simp [Rules.next,joins,leaves]

theorem line_join (joins : rules.joins e = some k) (leaves : rules.leaves e = none) :
    rules.line (evs++[e]) = rules.line evs++[k] := by
  rw [line_snoc]
  simp [Rules.next,joins,leaves]

theorem line_leave (joins : rules.joins e = none) (leaves : rules.leaves e = some k) :
    rules.line (evs++[e]) = (rules.line evs).erase k := by
  rw [line_snoc]
  simp [Rules.next,joins,leaves]

-- Nobody gets farther back when another leaves.
theorem idxOf_erase_le {l : List K} {i j : K} (other : i ≠ j) : (l.erase j).idxOf i ≤ l.idxOf i := by
  induction l with
  | nil => exact Nat.le_refl _
  | cons first l ih =>
    by_cases same : first = j
    · rw [same,List.erase_cons_head,List.idxOf_cons_ne _ (Ne.symm other)]
      exact Nat.le_succ _
    · rw [List.erase_cons_tail (by simpa using same)]
      by_cases here : first = i
      · rw [here,List.idxOf_cons_self]
        exact Nat.zero_le _
      · rw [List.idxOf_cons_ne _ here,List.idxOf_cons_ne _ here]
        exact Nat.succ_le_succ ih

end WaitLine
