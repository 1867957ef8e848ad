import Mathlib.Data.List.Range
import Mathlib.Data.List.Perm.Subperm
import Mathlib.Logic.Function.Basic
namespace Buckets
open Function
variable {α : Type}

-- The contents of the buckets numbered below `n`, one after the other.
def gather (n : Nat) (bucket : Nat → List α) : List α := (List.range n).flatMap bucket

theorem gather_succ (n : Nat) (bucket : Nat → List α) :
    gather (n+1) bucket = gather n bucket++bucket n := by
  simp [gather,List.range_succ]

theorem gather_congr {n : Nat} {bucket bucket' : Nat → List α} (same : ∀ i < n, bucket i = bucket' i) :
    gather n bucket = gather n bucket' :=
  List.flatMap_congr fun i present => same i (List.mem_range.mp present)

theorem gather_eq_nil {n : Nat} {bucket : Nat → List α} (empty : ∀ i < n, bucket i = []) :
    gather n bucket = [] := by
  simpa [gather] using empty

variable [BEq α]

-- Exchanging the contents of one bucket moves the count of each element by the
-- difference of that bucket alone.
theorem gather_change {n : Nat} {bucket bucket' : Nat → List α} {i : Nat} (inside : i < n)
    (same : ∀ j, j ≠ i → bucket' j = bucket j) (a : α) :
    (gather n bucket').count a+(bucket i).count a = (gather n bucket).count a+(bucket' i).count a := by
  induction n with
  | zero => cases inside
  | succ n ih =>
    rw [gather_succ,gather_succ,List.count_append,List.count_append]
    by_cases last : i = n
    · subst last
      have before : gather i bucket' = gather i bucket :=
        gather_congr fun j small => same j (Nat.ne_of_lt small)
      rw [before]
      omega
    · have rest := ih (by omega)
      rw [same n (Ne.symm last)]
      omega

theorem count_gather_append (n : Nat) (left right : Nat → List α) (a : α) :
    (gather n fun i => left i++right i).count a = (gather n left).count a+(gather n right).count a := by
  induction n with
  | zero => rfl
  | succ n ih =>
    simp only [gather_succ,List.count_append] at *
    omega

theorem count_le_gather {n i : Nat} (inside : i < n) (bucket : Nat → List α) (a : α) :
    (bucket i).count a ≤ (gather n bucket).count a := by
  induction n with
  | zero => cases inside
  | succ n ih =>
    rw [gather_succ,List.count_append]
    rcases Nat.eq_or_lt_of_le (Nat.le_of_lt_succ inside) with rfl | small
    · omega
    · have rest := ih small
      omega

theorem count_two_le_gather {n i j : Nat} (inside : i < n) (inside' : j < n) (apart : j ≠ i) (bucket : Nat → List α)
    (a : α) : (bucket i).count a+(bucket j).count a ≤ (gather n bucket).count a := by
  have emptied := @gather_change α _ n bucket (update bucket i []) i inside (fun k other => update_of_ne other _ _) a
  have rest := count_le_gather inside' (update bucket i []) a
  rw [update_self,List.count_nil] at emptied
  rw [update_of_ne apart] at rest
  omega

-- Each number below `n` once and no other: the counts that make a permutation.
theorem perm_range_of_count {n : Nat} {l : List Nat} (once : ∀ k, l.count k = if k < n then 1 else 0) :
    l.Perm (List.range n) := by
  refine List.perm_iff_count.mpr fun k => ?_
  rw [once,List.Nodup.count List.nodup_range]
  simp

theorem count_of_perm_range {n : Nat} {l : List Nat} (perm : l.Perm (List.range n)) (k : Nat) :
    l.count k = if k < n then 1 else 0 := by
  rw [perm.count_eq,List.Nodup.count List.nodup_range]
  simp

-- A list of numbers below `n` without duplicates is no longer than `n`, and shorter if it misses one.
theorem length_le {n : Nat} {l : List Nat} (once : ∀ a, l.count a ≤ if a < n then 1 else 0) : l.length ≤ n := by
  have inside : l.Subperm (List.range n) := by
    refine List.subperm_ext_iff.mpr fun a _ => ?_
    rw [count_of_perm_range (List.Perm.refl (List.range n)) a]
    exact once a
  have short := inside.length_le
  rwa [List.length_range] at short

theorem length_lt {n k : Nat} {l : List Nat} (once : ∀ a, l.count a+[k].count a ≤ if a < n then 1 else 0) :
    l.length < n := by
  refine length_le (l:=k::l) fun a => ?_
  rw [← List.singleton_append,List.count_append]
  have bound := once a
  omega

end Buckets
