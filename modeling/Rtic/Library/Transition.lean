import Mathlib.Logic.Function.Basic
import Mathlib.Data.List.Basic
namespace Transition
universe u v w
variable {S : Type u} {E : Type v} {S' : Type w}

-- A finite run as data: the states it passes and the labels of its steps can be
-- read back, so a law about runs may speak of every step and of what came before.
inductive Run (step : S → E → S → Prop) (init : S) : S → Type (max u v) where
  | start : Run step init init
  | snoc {s t : S} (prior : Run step init s) (event : E) (taken : step s event t) : Run step init t

variable {step : S → E → S → Prop} {init : S}

def Run.events : {s : S} → Run step init s → List E
  | _,.start => []
  | _,.snoc prior event _ => prior.events++[event]

-- Every step of the run, with the labels of the steps before it.
def Run.Every (law : List E → S → E → S → Prop) : {s : S} → Run step init s → Prop
  | _,.start => True
  | after,.snoc (s:=before) prior event _ => prior.Every law ∧ law prior.events before event after

-- Every state of the run, with the labels of the steps that led there.
def Run.Through (law : List E → S → Prop) : {s : S} → Run step init s → Prop
  | _,.start => law [] init
  | after,.snoc prior event _ => prior.Through law ∧ law (prior.events++[event]) after

variable {s t : S}

@[simp] theorem Run.events_start : (Run.start : Run step init init).events = [] := rfl
@[simp] theorem Run.events_snoc (prior : Run step init s) (event : E) (taken : step s event t) :
    (prior.snoc event taken).events = prior.events++[event] := rfl
@[simp] theorem Run.every_start (law : List E → S → E → S → Prop) :
    (Run.start : Run step init init).Every law := True.intro
@[simp] theorem Run.every_snoc (law : List E → S → E → S → Prop) (prior : Run step init s) (event : E)
    (taken : step s event t) :
    (prior.snoc event taken).Every law ↔ prior.Every law ∧ law prior.events s event t := Iff.rfl
@[simp] theorem Run.through_snoc (law : List E → S → Prop) (prior : Run step init s) (event : E)
    (taken : step s event t) :
    (prior.snoc event taken).Through law ↔ prior.Through law ∧ law (prior.events++[event]) t := Iff.rfl

theorem Run.Through.last {law : List E → S → Prop} {run : Run step init s} (all : run.Through law) :
    law run.events s := by
  cases run with
  | start => exact all
  | snoc prior event taken => exact all.2

theorem Run.Through.first {law : List E → S → Prop} {run : Run step init s} (all : run.Through law) : law [] init := by
  induction run with
  | start => exact all
  | snoc prior event taken ih => exact ih all.1

theorem Run.Through.before {law : List E → S → Prop} {run : Run step init s} (all : run.Through law) :
    run.Every fun evs s _ _ => law evs s := by
  induction run with
  | start => exact True.intro
  | snoc prior event taken ih => exact ⟨ih all.1,all.1.last⟩

theorem Run.Through.imp {law law' : List E → S → Prop} {run : Run step init s} (all : run.Through law)
    (entails : ∀ {evs s}, law evs s → law' evs s) : run.Through law' := by
  induction run with
  | start => exact entails all
  | snoc prior event taken ih => exact ⟨ih all.1,entails all.2⟩

-- A loop of the program, with a step for each of its passes.
theorem Run.loop {P : Nat → S → Prop} {n i : Nat} (pass : ∀ i s, i < n → P i s → ∃ e t, step s e t ∧ P (i+1) t)
    (run : Run step init s) (here : P i s) (le : i ≤ n) : ∃ t, ∃ _ : Run step init t, P n t := by
  induction left : n-i generalizing i s with
  | zero =>
    have done : i = n := by omega
    exact ⟨s,run,done ▸ here⟩
  | succ k ih =>
    obtain ⟨e,t,taken,next⟩ := pass i s (by omega) here
    exact ih (run.snoc e taken) next (by omega) (by omega)

theorem Run.Every.imp {law law' : List E → S → E → S → Prop} {run : Run step init s} (all : run.Every law)
    (entails : ∀ {evs s e t}, law evs s e t → law' evs s e t) : run.Every law' := by
  induction run with
  | start => exact True.intro
  | snoc prior event taken ih => exact ⟨ih all.1,entails all.2⟩

theorem Run.Every.and {law law' : List E → S → E → S → Prop} {run : Run step init s} (all : run.Every law)
    (all' : run.Every law') : run.Every fun evs s e t => law evs s e t ∧ law' evs s e t := by
  induction run with
  | start => exact True.intro
  | snoc prior event taken ih => exact ⟨ih all.1 all'.1,all.2,all'.2⟩

theorem Run.Every.mem {law : E → Prop} {run : Run step init s} (all : run.Every fun _ _ e _ => law e) {e : E}
    (present : e ∈ run.events) : law e := by
  induction run with
  | start => cases present
  | snoc prior event taken ih =>
    rcases List.mem_append.mp present with before | last
    · exact ih all.1 before
    · cases List.mem_singleton.mp last
      exact all.2

theorem Run.every_events {law : E → Prop} (run : Run step init s) (all : ∀ e ∈ run.events, law e) :
    run.Every fun _ _ e _ => law e := by
  induction run with
  | start => exact True.intro
  | snoc prior event taken ih =>
    exact ⟨ih fun e before => all e (List.mem_append_left _ before),all event (by simp)⟩

-- The run rule: what holds at the start and survives each admitted step holds
-- at the end of every run whose steps are all admitted.
theorem Run.guarded (inv : List E → S → Prop) {guard : List E → S → E → S → Prop}
    (base : inv [] init)
    (preserved : ∀ {evs s e t}, inv evs s → step s e t → guard evs s e t → inv (evs++[e]) t)
    (run : Run step init s) (admitted : run.Every guard) : inv run.events s := by
  induction run with
  | start => exact base
  | snoc prior event taken ih => exact preserved (ih admitted.1) taken admitted.2

theorem Run.invariant (inv : List E → S → Prop) (base : inv [] init)
    (preserved : ∀ {evs s e t}, inv evs s → step s e t → inv (evs++[e]) t)
    (run : Run step init s) : inv run.events s := by
  induction run with
  | start => exact base
  | snoc prior event taken ih => exact preserved ih taken

-- Two laws that agree on each step taken from states where an invariant holds,
-- an invariant that the first law alone maintains, agree on whole runs.
theorem Run.every_iff (inv : List E → S → Prop) {law law' : List E → S → E → S → Prop}
    (base : inv [] init)
    (preserved : ∀ {evs s e t}, inv evs s → step s e t → law evs s e t → inv (evs++[e]) t)
    (agree : ∀ {evs s e t}, inv evs s → step s e t → (law evs s e t ↔ law' evs s e t))
    (run : Run step init s) : run.Every law ↔ run.Every law' := by
  induction run with
  | start => exact Iff.rfl
  | snoc prior event taken ih =>
    rw [Run.every_snoc,Run.every_snoc,← ih]
    refine and_congr_right fun admitted => ?_
    exact agree (prior.guarded inv base preserved admitted) taken

-- A law of states that each step from an invariant state keeps exactly if it obeys
-- a law of steps: over whole runs the two are the same.
theorem Run.through_iff (inv : List E → S → Prop) {law : List E → S → Prop} {guard : List E → S → E → S → Prop}
    (base : inv [] init) (preserved : ∀ {evs s e t}, inv evs s → step s e t → inv (evs++[e]) t) (start : law [] init)
    (agree : ∀ {evs s e t}, inv evs s → law evs s → step s e t → (law (evs++[e]) t ↔ guard evs s e t))
    (run : Run step init s) : run.Through law ↔ run.Every guard := by
  induction run with
  | start => exact ⟨fun _ => True.intro,fun _ => start⟩
  | snoc prior event taken ih =>
    rw [Run.through_snoc,Run.every_snoc,← ih]
    exact and_congr_right fun all => agree (prior.invariant inv base preserved) all.last taken

-- The same where the invariant needs a guard on the steps, which neither law gives.
theorem Run.every_iff_of (inv : List E → S → Prop) {guard law law' : List E → S → E → S → Prop}
    (base : inv [] init)
    (preserved : ∀ {evs s e t}, inv evs s → step s e t → guard evs s e t → inv (evs++[e]) t)
    (agree : ∀ {evs s e t}, inv evs s → step s e t → guard evs s e t → (law evs s e t ↔ law' evs s e t))
    (run : Run step init s) (admitted : run.Every guard) : run.Every law ↔ run.Every law' := by
  induction run with
  | start => exact Iff.rfl
  | snoc prior event taken ih =>
    rw [Run.every_snoc,Run.every_snoc,ih admitted.1]
    exact and_congr_right fun _ => agree (prior.guarded inv base preserved admitted.1) taken admitted.2

theorem Run.every_of (inv : List E → S → Prop) {guard law : List E → S → E → S → Prop}
    (base : inv [] init)
    (preserved : ∀ {evs s e t}, inv evs s → step s e t → guard evs s e t → inv (evs++[e]) t)
    (entails : ∀ {evs s e t}, inv evs s → step s e t → guard evs s e t → law evs s e t)
    (run : Run step init s) (admitted : run.Every guard) : run.Every law := by
  induction run with
  | start => exact True.intro
  | snoc prior event taken ih =>
    exact ⟨ih admitted.1,entails (prior.guarded inv base preserved admitted.1) taken admitted.2⟩

theorem Run.every_true (run : Run step init s) : run.Every (fun _ _ _ _ => True) := by
  induction run with
  | start => exact True.intro
  | snoc prior event taken ih => exact ⟨ih,True.intro⟩

-- As `every_of`, for a law that every step from an invariant state obeys.
theorem Run.every (inv : List E → S → Prop) {law : List E → S → E → S → Prop} (base : inv [] init)
    (preserved : ∀ {evs s e t}, inv evs s → step s e t → inv (evs++[e]) t)
    (entails : ∀ {evs s e t}, inv evs s → step s e t → law evs s e t)
    (run : Run step init s) : run.Every law :=
  run.every_of inv base (fun inv taken _ => preserved inv taken) (fun inv taken _ => entails inv taken)
    run.every_true

theorem Run.through_of (inv : List E → S → Prop) {law : List E → S → Prop} {guard : List E → S → E → S → Prop}
    (base : inv [] init)
    (preserved : ∀ {evs s e t}, inv evs s → step s e t → guard evs s e t → inv (evs++[e]) t)
    (entails : ∀ {evs s}, inv evs s → law evs s)
    (run : Run step init s) (admitted : run.Every guard) : run.Through law := by
  induction run with
  | start => exact entails base
  | snoc prior event taken ih =>
    exact ⟨ih admitted.1,entails (preserved (prior.guarded inv base preserved admitted.1) taken admitted.2)⟩

def Run.append (first : Run step init s) : {t : S} → Run step s t → Run step init t
  | _,.start => first
  | _,.snoc prior event taken => .snoc (first.append prior) event taken

theorem Run.start_append (run : Run step init s) : (Run.start : Run step init init).append run = run := by
  induction run with
  | start => rfl
  | snoc prior event taken ih => exact congrArg (Run.snoc · event taken) ih

theorem Run.events_append (first : Run step init s) (rest : Run step s t) :
    (first.append rest).events = first.events++rest.events := by
  induction rest with
  | start => exact (List.append_nil _).symm
  | snoc prior event taken ih => simp only [Run.append,Run.events_snoc,ih,List.append_assoc]

theorem Run.Through.append {law : List E → S → Prop} {first : Run step init s} {rest : Run step s t}
    (all : first.Through law) (later : rest.Through fun evs s => law (first.events++evs) s) :
    (first.append rest).Through law := by
  induction rest with
  | start => exact all
  | snoc prior event taken ih =>
    refine ⟨ih later.1,?_⟩
    rw [Run.events_append,List.append_assoc]
    exact later.2

-- A functional simulation carries a run over, step by step and under the same labels.
section
variable {step' : S' → E → S' → Prop} (view : S → S') (inv : List E → S' → Prop)
  (base : inv [] (view init))
  (preserved : ∀ {evs s e t}, inv evs s → step' s e t → inv (evs++[e]) t)
  (forward : ∀ {evs s e t}, inv evs (view s) → step s e t → step' (view s) e (view t))

def Run.simulate : {s : S} → Run step init s → Run step' (view init) (view s)
  | _,.start => .start
  | _,.snoc prior event taken =>
    .snoc (prior.simulate) event (forward ((prior.simulate).invariant inv base preserved) taken)

theorem Run.simulate_events (run : Run step init s) :
    (run.simulate view inv base preserved forward).events = run.events := by
  induction run with
  | start => rfl
  | snoc prior event taken ih => simp only [Run.simulate,Run.events_snoc,ih]

theorem Run.simulate_every {law : List E → S → E → S → Prop} {law' : List E → S' → E → S' → Prop}
    (same : ∀ {evs s e t}, law evs s e t ↔ law' evs (view s) e (view t)) (run : Run step init s) :
    (run.simulate view inv base preserved forward).Every law' ↔ run.Every law := by
  induction run with
  | start => exact Iff.rfl
  | snoc prior event taken ih =>
    simp only [Run.simulate,Run.every_snoc,ih,Run.simulate_events,same]

theorem Run.simulate_through {law : List E → S → Prop} {law' : List E → S' → Prop}
    (same : ∀ {evs s}, law evs s ↔ law' evs (view s)) (run : Run step init s) :
    (run.simulate view inv base preserved forward).Through law' ↔ run.Through law := by
  induction run with
  | start => exact same.symm
  | snoc prior event taken ih =>
    simp only [Run.simulate,Run.through_snoc,ih,Run.simulate_events,same]
end

-- The labels after the last one that satisfies `mark`; all of them if none does.
def since (mark : E → Bool) (evs : List E) : List E := (evs.reverse.takeWhile (fun e => !mark e)).reverse

@[simp] theorem since_nil (mark : E → Bool) : since mark [] = [] := rfl

theorem since_snoc (mark : E → Bool) (evs : List E) (e : E) :
    since mark (evs++[e]) = if mark e then [] else since mark evs++[e] := by
  cases marked : mark e <;> simp [since,marked]

theorem countP_snoc (mark : E → Bool) (evs : List E) (e : E) :
    (evs++[e]).countP mark = evs.countP mark+(mark e).toNat := by
  cases marked : mark e <;> simp [marked]

-- Where a label lies in a list of labels that ends in `e`.
theorem snoc_split {evs before after : List E} {e o : E} (split : evs++[e] = before++o::after) :
    (after = [] ∧ o = e) ∨ ∃ earlier, after = earlier++[e] ∧ evs = before++o::earlier := by
  rcases List.eq_nil_or_concat' after with rfl | ⟨earlier,last,rfl⟩
  · cases (List.append_inj' split rfl).2
    exact Or.inl ⟨rfl,rfl⟩
  · rw [← List.cons_append,← List.append_assoc] at split
    obtain ⟨same,ends⟩ := List.append_inj' split rfl
    cases ends
    exact Or.inr ⟨earlier,rfl,same⟩

-- A loop over a list, with what it has visited so far as the history.
theorem foldl_visited {f : S → E → S} (inv : List E → S → Prop) (base : inv [] init) (entries : List E)
    (step : ∀ {visited entry rest s}, visited++entry::rest = entries → inv visited s →
      inv (visited++[entry]) (f s entry)) : inv entries (entries.foldl f init) := by
  have all : ∀ (rest visited : List E) (s : S), visited++rest = entries → inv visited s →
      inv entries (rest.foldl f s) := by
    intro rest
    induction rest with
    | nil =>
      intro visited s split holds
      rw [List.append_nil] at split
      exact split ▸ holds
    | cons entry rest ih =>
      intro visited s split holds
      exact ih (visited++[entry]) _ (by simpa using split) (step split holds)
  exact all entries [] init rfl base

end Transition
