import Mathlib.Order.Disjoint
namespace NestedMask
variable {α : Type} [DistribLattice α] [OrderBot α]

-- What nested critical sections have done to one enable register, innermost
-- first: each saves what it read of the register, and then clears its mask.
inductive Layer (α : Type) where
  | masked (mask : α)
  | saved (value : α)

def blocked : List (Layer α) → α
  | [] => ⊥
  | .masked mask::outer => mask ⊔ blocked outer
  | .saved _::outer => blocked outer

-- No saved value holds what a section around it masks.
def Saves : List (Layer α) → Prop
  | [] => True
  | .masked _::outer => Saves outer
  | .saved value::outer => Disjoint value (blocked outer) ∧ Saves outer

structure Sound (reg : α) (layers : List (Layer α)) : Prop where
  clear : Disjoint reg (blocked layers)
  saves : Saves layers

@[simp] theorem blocked_masked (mask : α) (outer : List (Layer α)) :
    blocked (.masked mask::outer) = mask ⊔ blocked outer := rfl

theorem le_blocked {layers : List (Layer α)} {mask : α} (member : .masked mask ∈ layers) : mask ≤ blocked layers := by
  induction layers with
  | nil => cases member
  | cons first outer ih =>
    rcases List.mem_cons.mp member with rfl | inner
    · exact le_sup_left
    · cases first with
      | masked own => exact le_trans (ih inner) le_sup_right
      | saved value => exact ih inner

theorem sound_nil (reg : α) : Sound reg [] := ⟨disjoint_bot_right,True.intro⟩

section
variable {reg reg' value value' mask mask' : α} {outer : List (Layer α)}

-- The rules of a section, in the order of its steps. Its reads and writes may
-- come in parts: what is read, cleared or restored only grows.
theorem Sound.enter (sound : Sound reg outer) : Sound reg (.saved ⊥::outer) :=
  ⟨sound.clear,disjoint_bot_left,sound.saves⟩

theorem Sound.read (sound : Sound reg (.saved value::outer)) (more : value' ≤ value ⊔ reg) :
    Sound reg (.saved value'::outer) :=
  ⟨sound.clear,(disjoint_sup_left.mpr ⟨sound.saves.1,sound.clear⟩).mono_left more,sound.saves.2⟩

theorem Sound.maskNone (sound : Sound reg outer) : Sound reg (.masked ⊥::outer) := by
  refine ⟨?_,sound.saves⟩
  rw [blocked_masked,bot_sup_eq]
  exact sound.clear

theorem Sound.clears (sound : Sound reg (.masked mask::outer)) (part : α) (less : reg' ≤ reg) (cleared : Disjoint reg' part)
    (more : mask' ≤ mask ⊔ part) : Sound reg' (.masked mask'::outer) := by
  obtain ⟨own,around⟩ := disjoint_sup_right.mp sound.clear
  refine ⟨disjoint_sup_right.mpr ⟨?_,around.mono_left less⟩,sound.saves⟩
  exact (disjoint_sup_right.mpr ⟨own.mono_left less,cleared⟩).mono_right more

theorem Sound.unmask (sound : Sound reg (.masked mask::outer)) : Sound reg outer :=
  ⟨(disjoint_sup_right.mp sound.clear).2,sound.saves⟩

theorem Sound.restore (sound : Sound reg (.saved value::outer)) (more : reg' ≤ reg ⊔ value) :
    Sound reg' (.saved value::outer) :=
  ⟨(disjoint_sup_left.mpr ⟨sound.clear,sound.saves.1⟩).mono_left more,sound.saves⟩

theorem Sound.leave (sound : Sound reg (.saved value::outer)) : Sound reg outer := ⟨sound.clear,sound.saves.2⟩
end

end NestedMask
