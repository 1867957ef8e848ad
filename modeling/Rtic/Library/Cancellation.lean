namespace Cancellation

-- What a future did until it was finished or dropped: one event for each thing that it did, and the value, which is
-- missing where it was dropped.
structure Ran (E S A : Type) where
  events : List E
  state : S
  value : Option A
  deriving DecidableEq, Repr

def Future (E S A : Type) := S → Ran E S A

section
variable {E S A B : Type}

def Future.pure (a : A) : Future E S A := fun s => ⟨[],s,some a⟩

def Future.bind (x : Future E S A) (f : A → Future E S B) : Future E S B := fun s =>
  match x s with
  | ⟨events,s,none⟩ => ⟨events,s,none⟩
  | ⟨events,s,some a⟩ =>
    let after := f a s
    ⟨events++after.events,after.state,after.value⟩

instance : Monad (Future E S) where
  pure := Future.pure
  bind := Future.bind

def call (effect : S → A × S) (event : A → E) : Future E S A := fun s =>
  let (a,s) := effect s
  ⟨[event a],s,some a⟩

-- none: the future is dropped while this one is pending, after however many polls.
def await (effect : S → Option A × S) (event : A → E) (dropped : E) : Future E S A := fun s =>
  match effect s with
  | (none,s) => ⟨[dropped],s,none⟩
  | (some a,s) => ⟨[event a],s,some a⟩

-- A guard lives while the body runs, and is dropped with it.
def guarded (exit : S → S) (event : E) (body : Future E S A) : Future E S A := fun s =>
  let ran := body s
  ⟨ran.events++[event],exit ran.state,ran.value⟩

-- All that it did is of one kind, and then it was finished, or dropped with an event of another.
inductive Works (p dropped : E → Prop) (ran : Ran E S A) : Prop where
  | finished (a : A) (value : ran.value = some a) (all : ∀ e ∈ ran.events, p e)
  | dropped (events : List E) (e : E) (value : ran.value = none) (same : ran.events = events++[e])
      (all : ∀ e ∈ events, p e) (last : dropped e)

variable {p d : E → Prop} {x : Future E S A} {f : A → Future E S B} {s : S}

@[simp] theorem pure_ran (a : A) : (Pure.pure a : Future E S A) s = ⟨[],s,some a⟩ := rfl

theorem await_dropped {effect : S → Option A × S} {event : A → E} {dropped : E} {after : S} (answer : effect s = (none,after)) :
    await effect event dropped s = ⟨[dropped],after,none⟩ := by
  unfold await
  rw [answer]

theorem await_ready {effect : S → Option A × S} {event : A → E} {dropped : E} {after : S} {a : A}
    (answer : effect s = (some a,after)) : await effect event dropped s = ⟨[event a],after,some a⟩ := by
  unfold await
  rw [answer]

theorem bind_dropped (value : (x s).value = none) : (x >>= f) s = ⟨(x s).events,(x s).state,none⟩ := by
  change Future.bind x f s = _
  unfold Future.bind
  rcases ran : x s with ⟨events,after,_ | a⟩
  · rfl
  · rw [ran] at value
    cases value

theorem bind_finished {a : A} (value : (x s).value = some a) : (x >>= f) s =
    ⟨(x s).events++(f a (x s).state).events,(f a (x s).state).state,(f a (x s).state).value⟩ := by
  change Future.bind x f s = _
  unfold Future.bind
  rcases ran : x s with ⟨events,after,_ | b⟩
  · rw [ran] at value
    cases value
  · rw [ran] at value
    cases value
    rfl

-- What has a value was finished at each part.
theorem bind_value {b : B} (value : ((x >>= f) s).value = some b) : ∃ a, (x s).value = some a ∧
    (f a (x s).state).value = some b ∧ ((x >>= f) s).events = (x s).events++(f a (x s).state).events := by
  cases first : (x s).value with
  | none =>
    rw [bind_dropped first] at value
    cases value
  | some a =>
    rw [bind_finished first] at value ⊢
    exact ⟨a,rfl,value,rfl⟩

theorem Works.pure (a : A) : Works p d ((Pure.pure a : Future E S A) s) := .finished a rfl nofun

theorem Works.call {effect : S → A × S} {event : A → E} (all : ∀ a, p (event a)) : Works p d (call effect event s) :=
  .finished _ rfl fun _ member => List.mem_singleton.mp member ▸ all _

theorem Works.await {effect : S → Option A × S} {event : A → E} {dropped : E} (all : ∀ a, p (event a)) (last : d dropped) :
    Works p d (await effect event dropped s) := by
  rcases answer : effect s with ⟨_ | a,after⟩
  · rw [await_dropped answer]
    exact .dropped [] dropped rfl rfl nofun last
  · rw [await_ready answer]
    exact .finished a rfl fun e member => List.mem_singleton.mp member ▸ all a

theorem Works.bind (first : Works p d (x s)) (then_ : ∀ a s, Works p d (f a s)) : Works p d ((x >>= f) s) := by
  cases first with
  | dropped events e value same all last =>
    rw [bind_dropped value]
    exact .dropped events e rfl same all last
  | finished a value all =>
    rw [bind_finished value]
    cases then_ a (x s).state with
    | finished b value' all' =>
      refine .finished b value' fun e member => ?_
      rcases List.mem_append.mp member with before | after
      · exact all e before
      · exact all' e after
    | dropped events e value' same all' last =>
      refine .dropped ((x s).events++events) e value' (by rw [same,List.append_assoc]) (fun e member => ?_) last
      rcases List.mem_append.mp member with before | after
      · exact all e before
      · exact all' e after

end
end Cancellation
