import Mathlib.Data.Nat.Init
import Rtic.Library.Transition
namespace Behaviors
open Transition
universe u v
variable {S : Type u} {E : Type v} {step : S → E → S → Prop} {init : S}

-- A run that goes on for ever or comes to rest: at some moments, or from one on, nothing happens.
structure Behavior (step : S → E → S → Prop) (init : S) where
  state : Nat → S
  event : Nat → Option E
  start : state 0 = init
  rests : ∀ n, event n = none → state (n+1) = state n
  taken : ∀ n e, event n = some e → step (state n) e (state (n+1))

-- What has happened before the moment `n`.
def Behavior.events (b : Behavior step init) (n : Nat) : List E := (List.range n).filterMap b.event

def Behavior.Every (b : Behavior step init) (law : List E → S → E → S → Prop) : Prop :=
  ∀ n e, b.event n = some e → law (b.events n) (b.state n) e (b.state (n+1))

-- From the moment `n` on there is an event such as this.
def Behavior.Comes (b : Behavior step init) (n : Nat) (p : E → Prop) : Prop := ∃ m, n ≤ m ∧ ∃ e, b.event m = some e ∧ p e

def Behavior.rest (init : S) : Behavior step init := ⟨fun _ => init,fun _ => none,rfl,fun _ _ => rfl,nofun⟩

-- One step, and then another behavior.
def Behavior.after {s : S} (e : E) (taken : step init e s) (b : Behavior step s) : Behavior step init where
  state
    | 0 => init
    | n+1 => b.state n
  event
    | 0 => some e
    | n+1 => b.event n
  start := rfl
  rests
    | 0 => nofun
    | n+1 => b.rests n
  taken
    | 0 => fun _ here => Option.some.inj here ▸ (congrArg (step init e) b.start).mpr taken
    | n+1 => b.taken n

-- A moment at which nothing happens, and then another behavior.
def Behavior.pause (b : Behavior step init) : Behavior step init where
  state
    | 0 => init
    | n+1 => b.state n
  event
    | 0 => none
    | n+1 => b.event n
  start := rfl
  rests
    | 0 => fun _ => b.start
    | n+1 => b.rests n
  taken
    | 0 => nofun
    | n+1 => b.taken n

section
variable (b : Behavior step init) {n : Nat} {e : E}

theorem Behavior.events_succ (n : Nat) : b.events (n+1) = b.events n++(b.event n).toList := by
  unfold events
  rw [List.range_succ,List.filterMap_append]
  cases here : b.event n <;> simp [here]

theorem Behavior.events_some (here : b.event n = some e) : b.events (n+1) = b.events n++[e] := by
  rw [b.events_succ,here]
  rfl

-- A moment at which nothing happens leaves all as it is.
theorem Behavior.events_none (here : b.event n = none) : b.events (n+1) = b.events n := by
  rw [b.events_succ,here]
  exact List.append_nil _

-- The run rule, for a behavior.
theorem Behavior.guarded (inv : List E → S → Prop) {guard : List E → S → E → S → Prop} (base : inv [] init)
    (preserved : ∀ {evs s e t}, inv evs s → step s e t → guard evs s e t → inv (evs++[e]) t) (admitted : b.Every guard)
    (n : Nat) : inv (b.events n) (b.state n) := by
  induction n with
  | zero =>
    rw [b.start]
    exact base
  | succ n ih =>
    cases here : b.event n with
    | none =>
      rw [b.events_none here,b.rests n here]
      exact ih
    | some e =>
      rw [b.events_some here]
      exact preserved ih (b.taken n e here) (admitted n e here)

theorem Behavior.every_true : b.Every fun _ _ _ _ => True := fun _ _ _ => True.intro
end

-- A functional simulation carries a behavior over, moment by moment and under the same labels.
def Behavior.simulate {S' : Type u} {step' : S' → E → S' → Prop} (view : S → S') (inv : List E → S' → Prop)
    (base : inv [] (view init)) (preserved : ∀ {evs s e t}, inv evs s → step' s e t → inv (evs++[e]) t)
    (forward : ∀ {evs s e t}, inv evs (view s) → step s e t → step' (view s) e (view t)) (b : Behavior step init) :
    Behavior step' (view init) where
  state n := view (b.state n)
  event := b.event
  start := congrArg view b.start
  rests n here := congrArg view (b.rests n here)
  taken n e here := by
    have known := b.guarded (fun evs s => inv evs (view s)) base
      (fun before taken _ => preserved before (forward before taken)) b.every_true n
    exact forward known (b.taken n e here)

-- Moments. What holds until something else happens still holds when that comes, or a third thing.
theorem meets (holds : Nat → Prop) {stops comes : Nat → Prop} {n : Nat} (here : holds n)
    (keeps : ∀ m, n ≤ m → holds m → stops m ∨ holds (m+1)) (coming : ∃ m, n ≤ m ∧ comes m) :
    ∃ m, n ≤ m ∧ holds m ∧ (stops m ∨ comes m) := by
  obtain ⟨last,later,come⟩ := coming
  obtain ⟨k,rfl⟩ := Nat.exists_eq_add_of_le later
  -- induction on how long it takes
  clear later
  induction k generalizing n with
  | zero => exact ⟨n,Nat.le_refl _,here,.inr come⟩
  | succ k ih =>
    rcases keeps n (Nat.le_refl _) here with stop | next
    · exact ⟨n,Nat.le_refl _,here,.inl stop⟩
    · rw [Nat.add_comm k,← Nat.add_assoc] at come
      obtain ⟨m,later,outcome⟩ := ih next (fun m later => keeps m (Nat.le_of_succ_le later)) come
      exact ⟨m,Nat.le_of_succ_le later,outcome⟩

-- What comes closer again and again arrives.
theorem arrives (near : Nat → Nat → Prop) {arrived : Nat → Prop}
    (closer : ∀ n d, near n d → ∃ m, n ≤ m ∧ (arrived m ∨ ∃ d' < d, near m d')) {n d : Nat} (here : near n d) :
    ∃ m, n ≤ m ∧ arrived m := by
  induction d using Nat.strong_induction_on generalizing n with
  | _ d ih =>
    obtain ⟨m,le,there | ⟨d',less,here⟩⟩ := closer n d here
    · exact ⟨m,le,there⟩
    · obtain ⟨k,le',there⟩ := ih d' less here
      exact ⟨k,Nat.le_trans le le',there⟩

-- What comes closer with each act of one that keeps acting arrives, if nothing else takes it farther away.
theorem acts_arrive (near : Nat → Nat → Prop) (acts : Nat → Prop) {arrived : Nat → Prop}
    (acting : ∀ n d, near n d → ∃ m, n ≤ m ∧ acts m)
    (keeps : ∀ n d, near n d → acts n ∨ arrived n ∨ near (n+1) d)
    (closer : ∀ n d, near n d → acts n → arrived n ∨ ∃ d' < d, near (n+1) d') {n d : Nat} (here : near n d) :
    ∃ m, n ≤ m ∧ arrived m := by
  refine arrives near (fun n d here => ?_) here
  have until_ : ∀ m, n ≤ m → near m d → (acts m ∨ arrived m) ∨ near (m+1) d := fun m _ here => or_assoc.mpr (keeps m d here)
  obtain ⟨m,later,here,outcome⟩ := meets (fun m => near m d) here until_ (acting n d here)
  have acted_or : acts m ∨ arrived m := outcome.elim id .inl
  rcases acted_or with acted | there
  · rcases closer m d here acted with there | next
    · exact ⟨m,later,.inl there⟩
    · exact ⟨m+1,Nat.le_succ_of_le later,.inr next⟩
  · exact ⟨m,later,.inl there⟩

section
variable {b : Behavior step init} {p q : E → Prop} {m n : Nat}

theorem Behavior.Comes.later (later : n ≤ m) (comes : b.Comes m p) : b.Comes n p := by
  obtain ⟨k,last,here⟩ := comes
  exact ⟨k,Nat.le_trans later last,here⟩

theorem Behavior.moment (holds : List E → S → Prop) {stops : Prop} (here : holds (b.events n) (b.state n))
    (keeps : ∀ e, b.event n = some e → stops ∨ holds (b.events (n+1)) (b.state (n+1))) :
    stops ∨ holds (b.events (n+1)) (b.state (n+1)) := by
  cases what : b.event n with
  | none =>
    rw [b.events_none what,b.rests n what]
    exact .inr here
  | some e => exact keeps e what

-- The same rules where what holds is about what has happened and the state that this has led to: rests do not matter.
theorem Behavior.meets (holds : List E → S → Prop) {stops : Nat → Prop} (here : holds (b.events n) (b.state n))
    (keeps : ∀ m e, n ≤ m → b.event m = some e → holds (b.events m) (b.state m) →
      p e ∨ stops m ∨ holds (b.events (m+1)) (b.state (m+1)))
    (coming : b.Comes n p) :
    ∃ m, n ≤ m ∧ holds (b.events m) (b.state m) ∧ (stops m ∨ ∃ e, b.event m = some e ∧ p e) := by
  have moment : ∀ m, n ≤ m → holds (b.events m) (b.state m) →
      (stops m ∨ ∃ e, b.event m = some e ∧ p e) ∨ holds (b.events (m+1)) (b.state (m+1)) := by
    intro m later here
    refine b.moment holds here fun e what => ?_
    rcases keeps m e later what here with comes | stop | still
    · exact .inl (.inr ⟨e,what,comes⟩)
    · exact .inl (.inl stop)
    · exact .inr still
  obtain ⟨m,later,here,outcome⟩ := Behaviors.meets (fun m => holds (b.events m) (b.state m)) here moment coming
  exact ⟨m,later,here,outcome.elim id .inr⟩

theorem Behavior.arrives (near : List E → S → Nat → Prop) {arrived : Nat → Prop}
    (acting : ∀ n d, near (b.events n) (b.state n) d → b.Comes n p)
    (keeps : ∀ n d e, b.event n = some e → near (b.events n) (b.state n) d →
      p e ∨ arrived n ∨ near (b.events (n+1)) (b.state (n+1)) d)
    (closer : ∀ n d e, b.event n = some e → near (b.events n) (b.state n) d → p e →
      arrived n ∨ ∃ d' < d, near (b.events (n+1)) (b.state (n+1)) d') {d : Nat} (here : near (b.events n) (b.state n) d) :
    ∃ m, n ≤ m ∧ arrived m := by
  refine acts_arrive (fun n d => near (b.events n) (b.state n) d) (fun n => ∃ e, b.event n = some e ∧ p e) acting
    (fun n d here => ?_) (fun n d here ⟨e,what,acts⟩ => closer n d e what here acts) here
  refine or_assoc.mp (b.moment (fun evs s => near evs s d) here fun e what => or_assoc.mpr ?_)
  exact (keeps n d e what here).imp_left fun acts => ⟨e,what,acts⟩
end

end Behaviors
