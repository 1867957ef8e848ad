import Mathlib.Data.Nat.Bitwise
import Mathlib.Tactic.Ring
namespace Rtic.Time.HalfPeriodCounter

-- Bits of the timer value, the half-period counter and the result. The result has a
-- From of the two others.
structure Widths where
  timer : Nat
  halfPeriods : Nat
  result : Nat
  timer_pos : 0 < timer
  timer_le : timer ≤ result
  halfPeriods_le : halfPeriods ≤ result

-- Ticks in half a period.
def Widths.half (widths : Widths) : Nat := 2^(widths.timer-1)

-- TimerOps, where a shift by too much and an addition that overflows panic.
def leftShift (self : BitVec w) (amount : Nat) : Option (BitVec w) :=
  if amount < w then some (self <<< amount) else none
def add (self other : BitVec w) : Option (BitVec w) :=
  if self.toNat+other.toNat < 2^w then some (self+other) else none

-- calculate_now, from the two values that it has read.
def calculateNow (widths : Widths) (halfPeriods : BitVec widths.halfPeriods) (timerValue : BitVec widths.timer) :
    Option (BitVec widths.result) := do
  let halfPeriods := halfPeriods.setWidth widths.result
  let timerValue := timerValue.setWidth widths.result
  let upperHalf ← leftShift halfPeriods (widths.timer-1)
  let one ← leftShift (BitVec.ofNat widths.result 1) (widths.timer-1)
  let lowerHalf := one &&& upperHalf
  add upperHalf (lowerHalf ^^^ timerValue)

theorem shift_and (k halfPeriods : Nat) : 2^k &&& halfPeriods*2^k = halfPeriods%2*2^k := by
  have shifted := Nat.shiftLeft_and_distrib (i:=k) (a:=1) (b:=halfPeriods)
  rw [Nat.shiftLeft_eq,Nat.shiftLeft_eq,Nat.shiftLeft_eq,Nat.one_mul,Nat.one_and_eq_mod_two] at shifted
  exact shifted.symm

-- The timer value lies in the half period that was counted last or in the one after
-- it, and the lower half says in which.
theorem half_xor {k halfPeriods time : Nat} (near : time/2^k = halfPeriods ∨ time/2^k = halfPeriods+1) :
    halfPeriods*2^k+(halfPeriods%2*2^k ^^^ time%2^(k+1)) = time := by
  have positive : 0 < 2^k := Nat.two_pow_pos k
  have value : time%2^(k+1) = time%2^k+2^k*(time/2^k%2) := by rw [Nat.pow_succ,Nat.mod_mul]
  have upper : (halfPeriods%2*2^k ^^^ time%2^(k+1))/2^k = halfPeriods%2 ^^^ time/2^k%2 := by
    rw [Nat.xor_div_two_pow,Nat.mul_div_cancel _ positive,value,Nat.add_mul_div_left _ _ positive,
      Nat.div_eq_of_lt (Nat.mod_lt _ positive),Nat.zero_add]
  have lower : (halfPeriods%2*2^k ^^^ time%2^(k+1))%2^k = time%2^k := by
    rw [Nat.xor_mod_two_pow,Nat.mul_mod_left,Nat.zero_xor,value,Nat.add_mul_mod_self_left,Nat.mod_mod]
  have same : halfPeriods+(halfPeriods%2 ^^^ time/2^k%2) = time/2^k := by
    rcases near with now | next
    · rw [now,Nat.xor_self,Nat.add_zero]
    · rcases Nat.mod_two_eq_zero_or_one halfPeriods with even | odd
      · rw [next,even,show (halfPeriods+1)%2 = 1 by omega]
        rfl
      · rw [next,odd,show (halfPeriods+1)%2 = 0 by omega]
        rfl
  calc halfPeriods*2^k+(halfPeriods%2*2^k ^^^ time%2^(k+1))
      = halfPeriods*2^k+(2^k*(halfPeriods%2 ^^^ time/2^k%2)+time%2^k) := by
        rw [← upper,← lower,Nat.div_add_mod]
    _ = 2^k*(halfPeriods+(halfPeriods%2 ^^^ time/2^k%2))+time%2^k := by ring
    _ = time := by rw [same,Nat.div_add_mod]

section
variable {widths : Widths} {halfPeriods : BitVec widths.halfPeriods} {timerValue : BitVec widths.timer} {time : Nat}

-- The shift loses no bit of a count that is not ahead of a time that fits.
theorem shift_fits (near : time/widths.half = halfPeriods.toNat ∨ time/widths.half = halfPeriods.toNat+1)
    (fits : time < 2^widths.result) : halfPeriods.toNat*widths.half < 2^widths.result := by
  have behind : halfPeriods.toNat ≤ time/widths.half := by omega
  exact Nat.lt_of_le_of_lt (Nat.le_trans (Nat.mul_le_mul_right _ behind) (Nat.div_mul_le_self _ _)) fits

theorem calculateNow_exact (near : time/widths.half = halfPeriods.toNat ∨ time/widths.half = halfPeriods.toNat+1)
    (value : timerValue.toNat = time%2^widths.timer) (fits : time < 2^widths.result) :
    calculateNow widths halfPeriods timerValue = some (BitVec.ofNat widths.result time) := by
  obtain ⟨k,bits⟩ : ∃ k, widths.timer = k+1 := ⟨widths.timer-1,by have := widths.timer_pos; omega⟩
  have half : widths.half = 2^k := by rw [Widths.half,bits,Nat.add_sub_cancel]
  have room := shift_fits near fits
  rw [half] at near room
  have shift : k < widths.result := by
    have := widths.timer_le
    omega
  have upper : (halfPeriods.setWidth widths.result <<< k).toNat = halfPeriods.toNat*2^k := by
    rw [BitVec.toNat_shiftLeft,BitVec.toNat_setWidth_of_le widths.halfPeriods_le,Nat.shiftLeft_eq,Nat.mod_eq_of_lt room]
  have one : (BitVec.ofNat widths.result 1 <<< k).toNat = 2^k := by
    rw [BitVec.toNat_shiftLeft,BitVec.toNat_ofNat,Nat.mod_eq_of_lt (Nat.one_lt_two_pow (by omega)),Nat.one_shiftLeft,
      Nat.mod_eq_of_lt (Nat.pow_lt_pow_right Nat.one_lt_two shift)]
  have rest : ((BitVec.ofNat widths.result 1 <<< k &&& halfPeriods.setWidth widths.result <<< k) ^^^
      timerValue.setWidth widths.result).toNat = halfPeriods.toNat%2*2^k ^^^ time%2^(k+1) := by
    rw [BitVec.toNat_xor,BitVec.toNat_and,one,upper,shift_and,BitVec.toNat_setWidth_of_le widths.timer_le,value,bits]
  have exact_ := half_xor near
  unfold calculateNow leftShift add
  simp only [bits,Nat.add_sub_cancel,if_pos shift,Option.bind_eq_bind,Option.bind_some]
  rw [if_pos (by rw [upper,rest,exact_]; exact fits)]
  congr 1
  apply BitVec.eq_of_toNat_eq
  rw [BitVec.toNat_add,upper,rest,exact_,BitVec.toNat_ofNat]
end

example : calculateNow ⟨8,8,16,by decide,by decide,by decide⟩ 3#8 0x85#8 = some 0x185#16 := by decide

end Rtic.Time.HalfPeriodCounter
