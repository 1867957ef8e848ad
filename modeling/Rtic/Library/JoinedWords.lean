import Mathlib.Data.List.Nodup
namespace JoinedWords

-- Two words and a separator between them, which may be in the words as well.
section
variable {α : Type} {c : α} {x y x' y' w z : List α}

theorem border (same : c::z = w++c::y) : (w = [] ∧ z = y) ∨ ∃ u, w = c::u ∧ z = u++c::y := by
  cases w with
  | nil => exact .inl ⟨rfl,(List.cons.inj same).2⟩
  | cons d u =>
    obtain ⟨rfl,rest⟩ := List.cons.inj same
    exact .inr ⟨u,rfl,rest⟩

-- The same letters, with the border at the same place or with one of the first words longer.
theorem joined_iff : x++c::y = x'++c::y' ↔
    (x = x' ∧ y = y') ∨ (∃ u, x' = x++c::u ∧ y = u++c::y') ∨ ∃ u, x = x'++c::u ∧ y' = u++c::y := by
  refine ⟨fun same => ?_,?_⟩
  · rcases List.append_eq_append_iff.mp same with ⟨w,rfl,rest⟩ | ⟨w,rfl,rest⟩
    · rcases border rest with ⟨rfl,rfl⟩ | ⟨u,rfl,rfl⟩
      · exact .inl ⟨(List.append_nil x).symm,rfl⟩
      · exact .inr (.inl ⟨u,rfl,rfl⟩)
    · rcases border rest with ⟨rfl,rfl⟩ | ⟨u,rfl,rfl⟩
      · exact .inl ⟨List.append_nil x',rfl⟩
      · exact .inr (.inr ⟨u,rfl,rfl⟩)
  · rintro (⟨rfl,rfl⟩ | ⟨u,rfl,rfl⟩ | ⟨u,rfl,rfl⟩) <;> simp
end

section
variable {sep : String} {p q : String × String} {x y x' y' w : String}

def join (sep : String) (p : String × String) : String := p.1++sep++p.2

-- q is p with the end of its second word in the first.
def Shifts (sep : String) (p q : String × String) : Prop := ∃ u, q.1 = p.1++sep++u ∧ p.2 = u++sep++q.2

-- Separators of one character.
theorem join_iff {c : Char} (single : sep.toList = [c]) :
    join sep p = join sep q ↔ p = q ∨ Shifts sep p q ∨ Shifts sep q p := by
  have shifts : ∀ p q, Shifts sep p q ↔ ∃ u, q.1.toList = p.1.toList++c::u ∧ p.2.toList = u++c::q.2.toList := by
    intro p q
    refine ⟨?_,?_⟩
    · rintro ⟨u,first,second⟩
      exact ⟨u.toList,by simp [first,single],by simp [second,single]⟩
    · rintro ⟨u,first,second⟩
      exact ⟨String.ofList u,String.toList_injective (by simp [first,single]),String.toList_injective (by simp [second,single])⟩
  have same : join sep p = join sep q ↔ p.1.toList++c::p.2.toList = q.1.toList++c::q.2.toList := by
    rw [← String.toList_inj]
    simp [join,single]
  rw [same,joined_iff,shifts,shifts,String.toList_inj,String.toList_inj,Prod.ext_iff]

theorem Shifts.length (shifts : Shifts sep p q) : p.1.length+sep.length ≤ q.1.length := by
  obtain ⟨u,first,_⟩ := shifts
  rw [first]
  simp

-- A second word without the separator has nothing to give.
theorem Shifts.separator {c : Char} (single : sep.toList = [c]) (shifts : Shifts sep p q) : c ∈ p.2.toList := by
  obtain ⟨u,_,second⟩ := shifts
  simp [second,single]

theorem shifts_prepend : Shifts sep (w++x,y) (w++x',y') ↔ Shifts sep (x,y) (x',y') := by
  unfold Shifts
  simp only [String.append_assoc,String.append_right_inj]

-- Names are distinct if and only if their words are and no words are others shifted.
theorem join_nodup_iff {c : Char} (single : sep.toList = [c]) {words : List (String × String)} :
    (words.map (join sep)).Nodup ↔ words.Nodup ∧ ∀ p ∈ words, ∀ q ∈ words, ¬Shifts sep p q := by
  refine ⟨fun distinct => ⟨distinct.of_map _,fun p first q second shifts => ?_⟩,fun ⟨distinct,apart⟩ => ?_⟩
  · have same : p = q :=
      List.inj_on_of_nodup_map distinct first second ((join_iff single).mpr (.inr (.inl shifts)))
    have longer := shifts.length
    have one : sep.length = 1 := by rw [← String.length_toList,single,List.length_singleton]
    rw [same] at longer
    omega
  · refine (List.nodup_map_iff_inj_on distinct).mpr fun p first q second same => ?_
    rcases (join_iff single).mp same with same | shifts | shifts
    · exact same
    · exact absurd shifts (apart p first q second)
    · exact absurd shifts (apart q second p first)
end
end JoinedWords
