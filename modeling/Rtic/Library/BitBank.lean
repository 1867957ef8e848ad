import Mathlib.Data.Set.Basic
import Mathlib.Logic.Function.Basic
namespace BitBank
variable {w : Nat}

-- A row of registers of w bits, numbered through.
abbrev Bank (w : Nat) := Nat → BitVec w

def bits (bank : Bank w) : Set Nat := {n | (bank (n/w)).getLsbD (n%w) = true}

-- The bits of one register of a row.
def chunk (i : Nat) (value : BitVec w) : Set Nat := {n | n/w = i ∧ value.getLsbD (n%w) = true}

def setBits (bank : Bank w) (i : Nat) (value : BitVec w) : Bank w := Function.update bank i (bank i ||| value)
def clearBits (bank : Bank w) (i : Nat) (value : BitVec w) : Bank w := Function.update bank i (bank i &&& ~~~value)

@[simp] theorem mem_bits {bank : Bank w} {n : Nat} : n ∈ bits bank ↔ (bank (n/w)).getLsbD (n%w) = true := Iff.rfl
@[simp] theorem mem_chunk {i n : Nat} {value : BitVec w} :
    n ∈ chunk i value ↔ n/w = i ∧ value.getLsbD (n%w) = true := Iff.rfl

theorem bits_zero : bits (fun _ => 0#w) = ∅ := by
  ext n
  simp

@[simp] theorem chunk_zero (i : Nat) : chunk i 0#w = ∅ := by
  ext n
  simp

theorem bits_update (bank : Bank w) (i : Nat) (value : BitVec w) :
    bits (Function.update bank i value) = (bits bank \ {n | n/w = i}) ∪ chunk i value := by
  ext n
  by_cases here : n/w = i
  · subst here
    simp
  · simp [here]

theorem bits_setBits (bank : Bank w) (i : Nat) (value : BitVec w) :
    bits (setBits bank i value) = bits bank ∪ chunk i value := by
  ext n
  by_cases here : n/w = i
  · subst here
    simp [setBits]
  · simp [setBits,here]

theorem bits_clearBits (bank : Bank w) (i : Nat) (value : BitVec w) :
    bits (clearBits bank i value) = bits bank \ chunk i value := by
  ext n
  by_cases here : n/w = i
  · subst here
    simp only [clearBits,mem_bits,Function.update_self,BitVec.getLsbD_and,BitVec.getLsbD_not,Set.mem_sdiff,mem_chunk,
      Bool.and_eq_true]
    constructor
    · rintro ⟨present,inside,absent⟩
      exact ⟨present,by simpa using absent⟩
    · rintro ⟨present,absent⟩
      exact ⟨present,by simpa using BitVec.lt_of_getLsbD present,by simpa using absent⟩
  · simp [clearBits,here]

theorem chunk_subset (bank : Bank w) (i : Nat) : chunk i (bank i) ⊆ bits bank := by
  rintro n ⟨rfl,present⟩
  exact present

-- The bits of the registers before number i.
def below (bank : Bank w) (i : Nat) : Set Nat := {n | n ∈ bits bank ∧ n/w < i}

@[simp] theorem below_zero (bank : Bank w) : below bank 0 = ∅ := by
  ext n
  simp [below]

theorem below_succ (bank : Bank w) (i : Nat) : below bank (i+1) = below bank i ∪ chunk i (bank i) := by
  ext n
  simp only [below,Set.mem_ofPred_eq,Set.mem_union,mem_chunk,mem_bits,Nat.lt_succ_iff_lt_or_eq]
  constructor
  · rintro ⟨present,before | rfl⟩
    · exact Or.inl ⟨present,before⟩
    · exact Or.inr ⟨rfl,present⟩
  · rintro (⟨present,before⟩ | ⟨rfl,present⟩)
    · exact ⟨present,Or.inl before⟩
    · exact ⟨present,Or.inr rfl⟩

theorem below_all {bank : Bank w} {m : Nat} (zero : ∀ i, m ≤ i → bank i = 0#w) : below bank m = bits bank := by
  ext n
  refine ⟨fun member => member.1,fun member => ⟨member,?_⟩⟩
  by_contra outside
  have none_ := zero (n/w) (Nat.le_of_not_lt outside)
  rw [mem_bits,none_] at member
  simp at member

end BitBank
