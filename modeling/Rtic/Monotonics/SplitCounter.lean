import Mathlib.Data.Nat.Bitwise
import Mathlib.Order.Monotone.Basic
namespace Rtic.Monotonics.SplitCounter

-- The two halves of the counter, which are read at different moments.
def timerawh (counter : BitVec 64) : BitVec 32 := (counter >>> 32).setWidth 32
def timerawl (counter : BitVec 64) : BitVec 32 := counter.setWidth 32

def join (hi low : BitVec 32) : BitVec 64 := hi.setWidth 64 <<< 32 ||| low.setWidth 64

-- The loop of now(): `counter k` is the counter at the moment of the k-th read of a register, and `k` is
-- the next one. The result has the moment after the last read beside it.
def nowLoop (counter : Nat → BitVec 64) : Nat → Nat → BitVec 32 → Option (BitVec 64 × Nat)
  | 0,_,_ => none
  | fuel+1,k,hi0 =>
    let low := timerawl (counter k)
    let hi1 := timerawh (counter (k+1))
    if hi0 = hi1 then some (join hi0 low,k+2) else nowLoop counter fuel (k+2) hi1

def readCounter (counter : Nat → BitVec 64) (fuel start : Nat) : Option (BitVec 64 × Nat) :=
  nowLoop counter fuel (start+1) (timerawh (counter start))

-- The two chips have the same now().
def rp2040Now (counter : Nat → BitVec 64) (fuel start : Nat) : Option (BitVec 64 × Nat) := readCounter counter fuel start
def rp235xNow (counter : Nat → BitVec 64) (fuel start : Nat) : Option (BitVec 64 × Nat) := readCounter counter fuel start

-- How often the high word is another one at a read than at the read before.
def changes (counter : Nat → BitVec 64) (start stop : Nat) : Nat :=
  (List.range' start (stop-start)).countP fun k => timerawh (counter k) ≠ timerawh (counter (k+1))

-- Each iteration reads the two halves once, after a first read of the high one.
def iterations (start stop : Nat) : Nat := (stop-start)/2

section
variable {counter : Nat → BitVec 64} {fuel k start stop : Nat} {hi0 : BitVec 32} {value : BitVec 64}

theorem join_halves (c : BitVec 64) : join (timerawh c) (timerawl c) = c := by
  ext i inside
  unfold join timerawh timerawl
  simp only [BitVec.getElem_or,BitVec.getElem_shiftLeft,BitVec.getElem_setWidth,BitVec.getLsbD_setWidth,
    BitVec.getLsbD_ushiftRight]
  by_cases low : i < 32
  · simp [low,inside]
  · have back : 32+(i-32) = i := by omega
    have high : i-32 < 32 := by omega
    simp [low,back,inside,high]

theorem timerawh_toNat (c : BitVec 64) : (timerawh c).toNat = c.toNat/2^32 := by
  have small : c.toNat/2^32 < 2^32 := Nat.div_lt_of_lt_mul c.isLt
  unfold timerawh
  rw [BitVec.toNat_setWidth,BitVec.toNat_ushiftRight,Nat.shiftRight_eq_div_pow,Nat.mod_eq_of_lt small]

theorem timerawh_mono {c d : BitVec 64} (le : c.toNat ≤ d.toNat) : (timerawh c).toNat ≤ (timerawh d).toNat := by
  rw [timerawh_toNat,timerawh_toNat]
  exact Nat.div_le_div_right le

theorem changes_append {middle : Nat} (first : start ≤ middle) (second : middle ≤ stop) :
    changes counter start stop = changes counter start middle+changes counter middle stop := by
  have here : start+(middle-start) = middle := by omega
  have lengths : stop-start = (middle-start)+(stop-middle) := by omega
  unfold changes
  rw [lengths,← List.range'_append_1,here,List.countP_append]

-- Two reads with another high word have a change between them.
theorem changes_of_ne (before : start ≤ stop) (other : timerawh (counter start) ≠ timerawh (counter stop)) :
    0 < changes counter start stop := by
  by_contra none_
  have same : ∀ k, start ≤ k → k < stop → timerawh (counter k) = timerawh (counter (k+1)) := by
    intro k first last
    have quiet := List.countP_eq_zero.mp (Nat.eq_zero_of_not_pos none_) k (List.mem_range'_1.mpr (by omega))
    simpa using quiet
  have all : ∀ n, start+n ≤ stop → timerawh (counter start) = timerawh (counter (start+n)) := by
    intro n
    induction n with
    | zero => exact fun _ => rfl
    | succ n ih => exact fun inside => (ih (by omega)).trans (same _ (by omega) (by omega))
  exact other (by simpa [Nat.add_sub_cancel' before] using all (stop-start) (by omega))

-- What the loop returns: the counter at the read of the last low word, where the high word has
-- changed once at least in each iteration before that.
theorem nowLoop_returned (mono : Monotone fun k => (counter k).toNat) (last : hi0 = timerawh (counter k))
    (result : nowLoop counter fuel (k+1) hi0 = some (value,stop)) :
    k+3 ≤ stop ∧ value = counter (stop-2) ∧ iterations k stop ≤ 1+changes counter k (stop-1) := by
  induction fuel generalizing k hi0 with
  | zero => cases result
  | succ fuel ih =>
    unfold nowLoop at result
    dsimp only at result
    subst last
    split at result
    · rename_i same
      cases result
      refine ⟨Nat.le_refl _,?_,by unfold iterations; omega⟩
      -- The high word is the same before and after, and so it is in between.
      have before := timerawh_mono (mono (Nat.le_add_right k 1))
      have after := timerawh_mono (mono (Nat.le_add_right (k+1) 1))
      have between : timerawh (counter k) = timerawh (counter (k+1)) := by
        apply BitVec.eq_of_toNat_eq
        have ends := congrArg BitVec.toNat same
        exact Nat.le_antisymm before (by rw [ends]; exact after)
      rw [between,join_halves]
      rfl
    · rename_i other
      obtain ⟨later,same,few⟩ := ih rfl result
      refine ⟨by omega,same,?_⟩
      have changed := changes_of_ne (by omega : k ≤ k+2) other
      have split : changes counter k (stop-1) = changes counter k (k+2)+changes counter (k+2) (stop-1) :=
        changes_append (by omega) (by omega)
      unfold iterations at *
      omega

-- The loop goes on only if the high word has grown.
theorem nowLoop_returns (mono : Monotone fun k => (counter k).toNat) (last : hi0 = timerawh (counter k))
    (enough : 2^32 ≤ hi0.toNat+fuel) : ∃ result, nowLoop counter fuel (k+1) hi0 = some result := by
  induction fuel generalizing k hi0 with
  | zero => exact absurd hi0.isLt (by omega)
  | succ fuel ih =>
    unfold nowLoop
    dsimp only
    split
    · exact ⟨_,rfl⟩
    · rename_i other
      refine ih rfl ?_
      subst last
      have grown := timerawh_mono (mono (Nat.le_add_right k 2))
      have apart : (timerawh (counter k)).toNat ≠ (timerawh (counter (k+2))).toNat := fun same =>
        other (BitVec.eq_of_toNat_eq same)
      have next : k+1+1 = k+2 := rfl
      rw [next]
      omega
end

-- A call of now() on either chip, and one after it.
structure Atomic (counter : Nat → BitVec 64) (now : (Nat → BitVec 64) → Nat → Nat → Option (BitVec 64 × Nat)) : Prop where
  returns : ∀ fuel start, 2^32 ≤ fuel → ∃ result, now counter fuel start = some result
  value : ∀ fuel start value stop, now counter fuel start = some (value,stop) →
    start+3 ≤ stop ∧ value = counter (stop-2) ∧ (counter start).toNat ≤ value.toNat ∧ value.toNat ≤ (counter (stop-1)).toNat ∧
      iterations start stop ≤ 1+changes counter start (stop-1)
  forward : ∀ fuel start value stop fuel' start' value' stop', now counter fuel start = some (value,stop) → stop ≤ start' →
    now counter fuel' start' = some (value',stop') → value.toNat ≤ value'.toNat

theorem readCounter_atomic {counter : Nat → BitVec 64} (mono : Monotone fun k => (counter k).toNat) :
    Atomic counter readCounter := by
  constructor
  case returns =>
    intro fuel start enough
    exact nowLoop_returns mono rfl (by omega)
  case value =>
    intro fuel start value stop result
    obtain ⟨later,same,few⟩ := nowLoop_returned mono rfl result
    subst same
    exact ⟨later,rfl,mono (by omega : start ≤ stop-2),mono (by omega : stop-2 ≤ stop-1),few⟩
  case forward =>
    intro fuel start value stop fuel' start' value' stop' result after result'
    obtain ⟨_,same,_⟩ := nowLoop_returned mono rfl result
    obtain ⟨later,same',_⟩ := nowLoop_returned mono rfl result'
    subst same same'
    exact mono (by omega : stop-2 ≤ stop'-2)

theorem now_atomic (counter : Nat → BitVec 64) (nondecreasing : ∀ k, (counter k).toNat ≤ (counter (k+1)).toNat) :
    Atomic counter rp2040Now ∧ Atomic counter rp235xNow := by
  have mono : Monotone fun k => (counter k).toNat := monotone_nat_of_le_succ nondecreasing
  exact ⟨readCounter_atomic mono,readCounter_atomic mono⟩

-- The low word wraps between the reads, once in each of the first two iterations.
def wrapping (k : Nat) : BitVec 64 := BitVec.ofNat 64 (min k 4*0x80000000)

theorem now_atomic_wrapping : Atomic wrapping rp2040Now ∧ rp2040Now wrapping 5 0 = some (0x200000000,7) := by
  refine ⟨(now_atomic wrapping fun k => ?_).1,by decide⟩
  unfold wrapping
  rw [BitVec.toNat_ofNat,BitVec.toNat_ofNat,Nat.mod_eq_of_lt (by omega),Nat.mod_eq_of_lt (by omega)]
  omega

end Rtic.Monotonics.SplitCounter
