import Mathlib.Data.Set.Insert
import Rtic.Library.BitBank
namespace Rtic.Export.SourceMask
open BitBank

-- Mask<M>: one bit for each interrupt number.
structure Mask (m : Nat) where
  chunks : Vector (BitVec 32) m
  deriving DecidableEq, Repr

variable {m : Nat}

def Mask.zero (m : Nat) : Mask m := ⟨Vector.replicate m 0⟩
def Mask.chunk (self : Mask m) (i : Nat) : BitVec 32 := self.chunks[i]?.getD 0
def Mask.bits (self : Mask m) : Set Nat := BitBank.bits self.chunk

-- none is the panic "Generating masks for thumbv6/thumbv8m.base failed!"
def Mask.setBit (self : Mask m) (bit : Nat) : Option (Mask m) :=
  let block := bit/32
  if m ≤ block then none
  else
    let offset := bit-block*32
    some ⟨self.chunks.setIfInBounds block (self.chunk block ||| 1#32 <<< offset)⟩

def createMask (listOfShifts : List Nat) : Option (Mask m) := listOfShifts.foldlM Mask.setBit (Mask.zero m)

def computeMaskChunks (ids : List Nat) : Nat :=
  (ids.foldl (fun max id_ => if max < id_ then id_ else max) 0+32)/32

-- The inner loop of compute_mask: res.0[i] |= masks[idx].0[i]
def Mask.or (self rhs : Mask m) : Mask m := ⟨Vector.zipWith (· ||| ·) self.chunks rhs.chunks⟩

-- An index beyond the three masks panics.
def computeMask (fromPrio toPrio : Nat) (masks : Vector (Mask m) 3) : Option (Mask m) :=
  (List.range' fromPrio (toPrio-fromPrio)).foldlM (fun res idx => masks[idx]?.map res.or) (Mask.zero m)

-- One iteration of read_mask, of clear_enable_mask and of set_enable_mask: `iser`
-- are the enable registers of the NVIC. Writing icer clears, and writing iser sets,
-- the bits that are one.
def readMask (iser : Bank 32) (mask out : Mask m) (i : Nat) : Mask m :=
  if mask.chunk i ≠ 0 then ⟨out.chunks.setIfInBounds i (iser i)⟩ else out
def clearEnableMask (iser : Bank 32) (mask : Mask m) (i : Nat) : Bank 32 :=
  if mask.chunk i ≠ 0 then clearBits iser i (mask.chunk i) else iser
def setEnableMask (iser : Bank 32) (mask oldMask : Mask m) (i : Nat) : Bank 32 :=
  if mask.chunk i ≠ 0 then setBits iser i (oldMask.chunk i) else iser

-- The constants that impl_mutex generates for a list of interrupts, given by their
-- priority and number: N_CHUNKS and MASKS. The source keys its map by priority - 1.
structure Masks where
  chunks : Nat
  levels : Vector (Mask chunks) 3
  deriving DecidableEq, Repr

def generateMasks (assigned : List (Nat × Nat)) : Option Masks :=
  let chunks := computeMaskChunks (assigned.map Prod.snd)
  let level (i : Nat) : Option (Mask chunks) :=
    createMask ((assigned.filter fun entry => entry.1 = i+1).map Prod.snd)
  (level 0).bind fun low => (level 1).bind fun mid => (level 2).map fun high => ⟨chunks,#v[low,mid,high]⟩

theorem chunk_setIfInBounds (self : Mask m) (i : Nat) (value : BitVec 32) :
    (⟨self.chunks.setIfInBounds i value⟩ : Mask m).chunk =
      if i < m then Function.update self.chunk i value else self.chunk := by
  funext j
  by_cases inside : i < m
  · by_cases here : j = i
    · subst here
      simp [Mask.chunk,inside]
    · simp [Mask.chunk,inside,here,Ne.symm here]
  · rw [if_neg inside,Mask.chunk,Mask.chunk,Vector.setIfInBounds_eq_of_size_le (Nat.le_of_not_lt inside)]

theorem chunk_outside (self : Mask m) {i : Nat} (outside : m ≤ i) : self.chunk i = 0 := by
  simp [Mask.chunk,outside]

@[simp] theorem bits_empty : (Mask.zero m).bits = ∅ := by
  have zero : (Mask.zero m).chunk = fun _ => 0#32 := by
    funext i
    by_cases inside : i < m
    · simp [Mask.chunk,Mask.zero,inside]
    · exact chunk_outside _ (Nat.le_of_not_lt inside)
  rw [Mask.bits,zero,bits_zero]

theorem chunk_bit (bit : Nat) : chunk (bit/32) (1#32 <<< (bit-bit/32*32)) = {bit} := by
  have offset : bit-bit/32*32 = bit%32 := by omega
  have small : bit%32 < 32 := Nat.mod_lt _ (by decide)
  ext n
  rw [offset,mem_chunk,Set.mem_singleton_iff,← BitVec.twoPow_eq,BitVec.getLsbD_twoPow]
  constructor
  · rintro ⟨block,same⟩
    have same : bit%32 = n%32 := by simpa [small] using same
    omega
  · rintro rfl
    simp [small]

theorem setBit_bits {self next : Mask m} {bit : Nat} (set_ : self.setBit bit = some next) :
    next.bits = self.bits ∪ {bit} := by
  unfold Mask.setBit at set_
  dsimp only at set_
  split at set_
  · cases set_
  · rename_i inside
    cases set_
    rw [Mask.bits,chunk_setIfInBounds,if_pos (Nat.lt_of_not_le inside),← chunk_bit bit]
    exact bits_setBits self.chunk _ _

theorem createMask_fold {shifts : List Nat} {start mask : Mask m}
    (created : shifts.foldlM Mask.setBit start = some mask) : mask.bits = start.bits ∪ {n | n ∈ shifts} := by
  induction shifts generalizing start with
  | nil =>
    cases created
    simp
  | cons shift shifts ih =>
    rw [List.foldlM_cons] at created
    obtain ⟨next,set_,rest⟩ := Option.bind_eq_some_iff.mp created
    rw [ih rest,setBit_bits set_]
    ext n
    simp [or_left_comm,or_assoc]

theorem createMask_bits {shifts : List Nat} {mask : Mask m} (created : createMask shifts = some mask) :
    mask.bits = {n | n ∈ shifts} := by
  rw [createMask_fold created,bits_empty,Set.empty_union]

theorem or_bits (left right : Mask m) : (left.or right).bits = left.bits ∪ right.bits := by
  ext n
  simp only [Mask.bits,mem_bits,Set.mem_union,← Bool.or_eq_true,← BitVec.getLsbD_or]
  by_cases inside : n/32 < m
  · simp [Mask.chunk,Mask.or,inside]
  · simp [Mask.chunk,Mask.or,Nat.le_of_not_lt inside]

theorem computeMask_fold {masks : Vector (Mask m) 3} {indices : List Nat} {start mask : Mask m}
    (computed : indices.foldlM (fun res idx => masks[idx]?.map res.or) start = some mask) :
    mask.bits = start.bits ∪ {n | ∃ idx ∈ indices, ∃ level, masks[idx]? = some level ∧ n ∈ level.bits} := by
  induction indices generalizing start with
  | nil =>
    cases computed
    simp
  | cons first indices ih =>
    rw [List.foldlM_cons] at computed
    obtain ⟨next,joined,rest⟩ := Option.bind_eq_some_iff.mp computed
    obtain ⟨level,found,rfl⟩ := Option.map_eq_some_iff.mp joined
    rw [ih rest,or_bits]
    ext n
    simp [found,or_assoc]

theorem computeMask_bits {masks : Vector (Mask m) 3} {toPrio : Nat} {mask : Mask m}
    (computed : computeMask 0 toPrio masks = some mask) {n : Nat} :
    n ∈ mask.bits ↔ ∃ idx < toPrio, ∃ level, masks[idx]? = some level ∧ n ∈ level.bits := by
  rw [computeMask_fold computed,bits_empty,Set.empty_union]
  simp

theorem computeMask_some (masks : Vector (Mask m) 3) (toPrio : Nat) (small : toPrio ≤ 3) :
    ∃ mask, computeMask 0 toPrio masks = some mask := by
  have total (indices : List Nat) (all : ∀ idx ∈ indices, idx < 3) (start : Mask m) :
      ∃ mask, indices.foldlM (fun res idx => masks[idx]?.map res.or) start = some mask := by
    induction indices generalizing start with
    | nil => exact ⟨start,rfl⟩
    | cons first indices ih =>
      have inside := all first List.mem_cons_self
      obtain ⟨mask,rest⟩ := ih (fun idx member => all idx (List.mem_cons_of_mem _ member)) (start.or masks[first])
      refine ⟨mask,?_⟩
      rw [List.foldlM_cons,Vector.getElem?_eq_getElem inside]
      exact rest
  refine total _ ?_ _
  intro idx member
  have inside := (List.mem_range'_1.mp member).2
  omega

-- The mask of a ceiling holds the interrupts of the priorities up to it.
theorem generateMasks_bits {assigned : List (Nat × Nat)} {masks : Masks} (generated : generateMasks assigned = some masks)
    {ceiling : Nat} {mask : Mask masks.chunks} (computed : computeMask 0 ceiling masks.levels = some mask)
    (small : ceiling ≤ 3) {n : Nat} :
    n ∈ mask.bits ↔ ∃ priority, (priority,n) ∈ assigned ∧ 0 < priority ∧ priority ≤ ceiling := by
  obtain ⟨low,first,rest⟩ := Option.bind_eq_some_iff.mp generated
  obtain ⟨mid,second,rest⟩ := Option.bind_eq_some_iff.mp rest
  obtain ⟨high,third,rfl⟩ := Option.map_eq_some_iff.mp rest
  have level (i : Nat) {created : Mask (computeMaskChunks (assigned.map Prod.snd))} (made : createMask
      ((assigned.filter fun entry => entry.1 = i+1).map Prod.snd) = some created) :
      n ∈ created.bits ↔ (i+1,n) ∈ assigned := by
    rw [createMask_bits made]
    simp
  rw [computeMask_bits computed]
  constructor
  · rintro ⟨idx,below,made,found,member⟩
    refine ⟨idx+1,?_,Nat.succ_pos _,below⟩
    match idx,found with
    | 0,found =>
      cases found
      exact (level 0 first).mp member
    | 1,found =>
      cases found
      exact (level 1 second).mp member
    | 2,found =>
      cases found
      exact (level 2 third).mp member
  · rintro ⟨priority,member,positive,bound⟩
    obtain rfl | rfl | rfl : priority = 1 ∨ priority = 2 ∨ priority = 3 := by omega
    · exact ⟨0,bound,low,rfl,(level 0 first).mpr member⟩
    · exact ⟨1,bound,mid,rfl,(level 1 second).mpr member⟩
    · exact ⟨2,bound,high,rfl,(level 2 third).mpr member⟩

theorem max_id (ids : List Nat) (start : Nat) :
    start ≤ ids.foldl (fun max id_ => if max < id_ then id_ else max) start ∧
      ∀ id_ ∈ ids, id_ ≤ ids.foldl (fun max id_ => if max < id_ then id_ else max) start := by
  induction ids generalizing start with
  | nil => exact ⟨Nat.le_refl _,by simp⟩
  | cons first ids ih =>
    obtain ⟨more,all⟩ := ih (if start < first then first else start)
    have least : start ≤ (if start < first then first else start) ∧ first ≤ (if start < first then first else start) := by
      split <;> omega
    refine ⟨Nat.le_trans least.1 more,?_⟩
    intro id_ member
    rcases List.mem_cons.mp member with rfl | member
    · exact Nat.le_trans least.2 more
    · exact all id_ member

theorem chunk_of_id {ids : List Nat} {id_ : Nat} (member : id_ ∈ ids) : id_/32 < computeMaskChunks ids := by
  have most := (max_id ids 0).2 id_ member
  unfold computeMaskChunks
  omega

theorem createMask_some {shifts : List Nat} (inside : ∀ shift ∈ shifts, shift/32 < m) :
    ∃ mask : Mask m, createMask shifts = some mask := by
  have total (shifts : List Nat) (inside : ∀ shift ∈ shifts, shift/32 < m) (start : Mask m) :
      ∃ mask, shifts.foldlM Mask.setBit start = some mask := by
    induction shifts generalizing start with
    | nil => exact ⟨start,rfl⟩
    | cons first shifts ih =>
      have within := inside first List.mem_cons_self
      obtain ⟨next,set_⟩ : ∃ next, start.setBit first = some next := by
        unfold Mask.setBit
        dsimp only
        rw [if_neg (Nat.not_le_of_lt within)]
        exact ⟨_,rfl⟩
      obtain ⟨mask,rest⟩ := ih (fun shift member => inside shift (List.mem_cons_of_mem _ member)) next
      refine ⟨mask,?_⟩
      rw [List.foldlM_cons,set_]
      exact rest
  exact total shifts inside _

-- The chunks suffice for every interrupt in the list.
theorem generateMasks_some (assigned : List (Nat × Nat)) : ∃ masks, generateMasks assigned = some masks := by
  have level (i : Nat) : ∃ mask : Mask (computeMaskChunks (assigned.map Prod.snd)),
      createMask ((assigned.filter fun entry => entry.1 = i+1).map Prod.snd) = some mask := by
    refine createMask_some fun shift member => chunk_of_id ?_
    obtain ⟨entry,listed,rfl⟩ := List.mem_map.mp member
    exact List.mem_map_of_mem (List.mem_filter.mp listed).1
  obtain ⟨low,first⟩ := level 0
  obtain ⟨mid,second⟩ := level 1
  obtain ⟨high,third⟩ := level 2
  refine ⟨⟨_,#v[low,mid,high]⟩,?_⟩
  unfold generateMasks
  dsimp only
  rw [first,second,third]
  rfl

end Rtic.Export.SourceMask
