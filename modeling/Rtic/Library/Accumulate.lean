import Mathlib.Data.List.Basic
namespace Accumulate
variable {ε α β σ ρ : Type}

-- Fallible code that returned: each of its statements did.
theorem bind_ok {x : Except ε α} {f : α → Except ε β} {b : β} : x >>= f = .ok b ↔ ∃ a, x = .ok a ∧ f a = .ok b := by
  cases x with
  | error e => exact ⟨nofun,fun ⟨_,first,_⟩ => nomatch first⟩
  | ok a =>
    refine ⟨fun result => ⟨a,rfl,result⟩,?_⟩
    rintro ⟨_,first,result⟩
    cases first
    exact result

theorem guard_ok {p : Prop} [Decidable p] {e : ε} {x : Except ε α} {a : α} :
    (if p then throw e else x) = .ok a ↔ ¬ p ∧ x = .ok a := by
  by_cases refused : p
  · rw [if_pos refused]
    exact ⟨nofun,fun ⟨passed,_⟩ => absurd refused passed⟩
  · rw [if_neg refused]
    exact ⟨fun result => ⟨refused,result⟩,And.right⟩

-- A loop whose state tells of the parts that it has seen.
theorem foldlM_parts {step : σ → α → Except ε σ} {parts : α → List ρ} {tells : List ρ → σ → Prop}
    (each : ∀ seen s a t, tells seen s → step s a = .ok t → tells (seen++parts a) t) {items : List α} {seen : List ρ} {s t : σ}
    (start : tells seen s) (loop : items.foldlM step s = .ok t) : tells (seen++items.flatMap parts) t := by
  induction items generalizing seen s with
  | nil =>
    cases loop
    rw [List.flatMap_nil,List.append_nil]
    exact start
  | cons a items ih =>
    rw [List.foldlM_cons] at loop
    obtain ⟨next,first,loop⟩ := bind_ok.mp loop
    rw [List.flatMap_cons,← List.append_assoc]
    exact ih (each seen s a next start first) loop

-- What each step keeps, the loop keeps.
theorem foldlM_keeps {step : σ → α → Except ε σ} {p : σ → Prop} (each : ∀ s a t, p s → step s a = .ok t → p t)
    {items : List α} {s t : σ} (start : p s) (loop : items.foldlM step s = .ok t) : p t :=
  @foldlM_parts ε α σ Unit step (fun _ => []) (fun _ => p) (fun _ s a t => each s a t) items [] s t start loop

theorem foldlM_each {step : σ → α → Except ε σ} {items : List α} {s t : σ} (loop : items.foldlM step s = .ok t) :
    ∀ a ∈ items, ∃ before after, step before a = .ok after := by
  induction items generalizing s with
  | nil => exact nofun
  | cons a items ih =>
    rw [List.foldlM_cons] at loop
    obtain ⟨next,first,loop⟩ := bind_ok.mp loop
    intro b member
    rcases List.mem_cons.mp member with rfl | later
    · exact ⟨s,next,first⟩
    · exact ih loop b later

end Accumulate
