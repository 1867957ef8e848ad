import Mathlib.Algebra.Order.Group.Unbundled.Int
import Mathlib.Data.Int.Order.Basic
namespace Rtic.Time

-- The Ticks of a true instant, which may be as long after the start as one likes.
def wrap (w : Nat) (instant : Int) : BitVec w := BitVec.ofInt w instant

namespace TimerQueueTicks
variable {w : Nat}

-- The sign of the wrapping difference.
def compare (self other : BitVec w) : Ordering := Ord.compare (self-other).toInt 0

def isAtLeast (self other : BitVec w) : Bool :=
  match compare self other with
  | .lt => false
  | .eq => true
  | .gt => true

-- Two instants less than half the range apart.
def Near (w : Nat) (a b : Int) : Prop := |a-b| < 2^(w-1)

variable {a b : Int}

theorem near_toInt (near : Near w a b) : (wrap w a-wrap w b).toInt = a-b := by
  obtain ⟨lower,upper⟩ := abs_lt.mp near
  unfold wrap
  rw [BitVec.toInt_sub,BitVec.toInt_ofInt,BitVec.toInt_ofInt,Int.sub_bmod_bmod,Int.bmod_sub_bmod]
  cases w with
  | zero =>
    simp at lower upper
    have same : a-b = 0 := by omega
    rw [same]
    rfl
  | succ w =>
    rw [Nat.add_sub_cancel] at lower upper
    have double : ((2^(w+1) : Nat) : Int) = 2^w*2 := by push_cast; rw [Int.pow_succ]
    apply Int.bmod_eq_of_le_mul_two <;> rw [double] <;> omega

theorem compare_wrap (near : Near w a b) : compare (wrap w a) (wrap w b) = Ord.compare a b := by
  unfold compare
  rw [near_toInt near]
  rcases lt_trichotomy a b with before | same | after
  · rw [compare_lt_iff_lt.mpr before,compare_lt_iff_lt.mpr (by omega)]
  · rw [compare_eq_iff_eq.mpr same,compare_eq_iff_eq.mpr (by omega)]
  · rw [compare_gt_iff_gt.mpr after,compare_gt_iff_gt.mpr (by omega)]

theorem isAtLeast_wrap (near : Near w a b) : isAtLeast (wrap w a) (wrap w b) = decide (b ≤ a) := by
  unfold isAtLeast
  rw [compare_wrap near]
  rcases lt_trichotomy a b with before | same | after
  · rw [compare_lt_iff_lt.mpr before]
    exact (decide_eq_false (by omega)).symm
  · rw [compare_eq_iff_eq.mpr same]
    exact (decide_eq_true (by omega)).symm
  · rw [compare_gt_iff_gt.mpr after]
    exact (decide_eq_true (by omega)).symm

end TimerQueueTicks
end Rtic.Time
