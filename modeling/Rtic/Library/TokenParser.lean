namespace TokenParser
variable {τ ε α β σ : Type}

-- A parser answers with a value and the tokens that it left, or with an error.
abbrev Parser (τ ε α : Type) := StateT (List τ) (Except ε) α

def isEmpty : Parser τ ε Bool := fun ts => .ok (ts.isEmpty,ts)
def peek (p : τ → Bool) : Parser τ ε Bool := fun ts => .ok (ts.head?.any p,ts)

-- The next token, where it is as expected.
def next (p : τ → Bool) (unexpected : List τ → ε) : Parser τ ε τ := fun ts =>
  match ts with
  | [] => .error (unexpected [])
  | t::ts => if p t then .ok (t,ts) else .error (unexpected (t::ts))

-- A parser whose failure is an answer, and takes nothing.
def attempt (x : Parser τ ε α) : Parser τ ε (Except ε α) := fun ts =>
  match x ts with
  | .error e => .ok (.error e,ts)
  | .ok (a,rest) => .ok (.ok a,rest)

-- What is parsed is at least one token.
def Consumes (x : Parser τ ε α) : Prop := ∀ ts a rest, x ts = .ok (a,rest) → rest.length < ts.length
def Keeps (x : Parser τ ε α) : Prop := ∀ ts a rest, x ts = .ok (a,rest) → rest.length ≤ ts.length

section
variable {x : Parser τ ε α} {f : α → Parser τ ε β} {p : τ → Bool} {ts rest : List τ}

theorem bind_ok {b : β} : (x >>= f) ts = .ok (b,rest) ↔ ∃ a middle, x ts = .ok (a,middle) ∧ f a middle = .ok (b,rest) := by
  change Except.bind (x ts) (fun result => f result.1 result.2) = _ ↔ _
  rcases x ts with e | ⟨a,middle⟩
  · exact ⟨nofun,fun ⟨_,_,first,_⟩ => nomatch first⟩
  · refine ⟨fun result => ⟨a,middle,rfl,result⟩,?_⟩
    rintro ⟨_,_,first,result⟩
    cases first
    exact result

-- Where the first part succeeds, the second decides.
theorem bind_run {a : α} {middle : List τ} (first : x ts = .ok (a,middle)) : (x >>= f) ts = f a middle := by
  change Except.bind (x ts) (fun result => f result.1 result.2) = _
  rw [first]
  rfl

theorem bind_failed {e : ε} (first : x ts = .error e) : (x >>= f) ts = .error e := by
  change Except.bind (x ts) (fun result => f result.1 result.2) = _
  rw [first]
  rfl

@[simp] theorem pure_ok {a b : α} : (pure a : Parser τ ε α) ts = .ok (b,rest) ↔ a = b ∧ ts = rest := by
  change Except.ok (a,ts) = .ok (b,rest) ↔ _
  simp

@[simp] theorem throw_ok {e : ε} {b : α} : (throw e : Parser τ ε α) ts = .ok (b,rest) ↔ False := ⟨nofun,nofun⟩

@[simp] theorem lift_ok {y : Except ε α} {a : α} : (liftM y : Parser τ ε α) ts = .ok (a,rest) ↔ y = .ok a ∧ ts = rest := by
  cases y with
  | error e => exact ⟨nofun,nofun⟩
  | ok b =>
    change Except.ok (b,ts) = .ok (a,rest) ↔ _
    simp

@[simp] theorem next_ok {unexpected : List τ → ε} {t : τ} :
    next p unexpected ts = .ok (t,rest) ↔ ts = t::rest ∧ p t = true := by
  unfold next
  split
  · simp
  · rename_i first others
    by_cases accepted : p first = true
    · simp only [accepted,if_true,Except.ok.injEq,Prod.mk.injEq,List.cons.injEq]
      exact ⟨fun ⟨same,rest⟩ => ⟨⟨same,rest⟩,same ▸ accepted⟩,fun ⟨same,_⟩ => same⟩
    · simp only [accepted]
      exact ⟨nofun,fun ⟨same,ok⟩ => absurd ((List.cons.inj same).1 ▸ ok) accepted⟩

theorem Consumes.keeps (consumes : Consumes x) : Keeps x :=
  fun ts a rest result => Nat.le_of_lt (consumes ts a rest result)

theorem Keeps.bind (first : Keeps x) (after : ∀ a, Keeps (f a)) : Keeps (x >>= f) := by
  intro ts b rest result
  obtain ⟨a,middle,here,result⟩ := bind_ok.mp result
  exact Nat.le_trans (after a _ _ _ result) (first _ _ _ here)

theorem Consumes.bind (first : Consumes x) (after : ∀ a, Keeps (f a)) : Consumes (x >>= f) := by
  intro ts b rest result
  obtain ⟨a,middle,here,result⟩ := bind_ok.mp result
  exact Nat.lt_of_le_of_lt (after a _ _ _ result) (first _ _ _ here)

theorem keeps_pure {a : α} : Keeps (pure a : Parser τ ε α) := by
  intro ts b rest result
  exact Nat.le_of_eq (congrArg List.length (pure_ok.mp result).2.symm)

theorem keeps_throw {e : ε} : Keeps (throw e : Parser τ ε α) := fun _ _ _ result => nomatch result

theorem keeps_lift {y : Except ε α} : Keeps (liftM y : Parser τ ε α) := by
  intro ts b rest result
  exact Nat.le_of_eq (congrArg List.length (lift_ok.mp result).2.symm)

theorem attempt_ok {a : Except ε α} : attempt x ts = .ok (a,rest) ↔
    (∃ b, x ts = .ok (b,rest) ∧ a = .ok b) ∨ ∃ e, x ts = .error e ∧ a = .error e ∧ rest = ts := by
  unfold attempt
  cases parsed : x ts with
  | error e => simp [eq_comm]
  | ok result =>
    rcases result with ⟨b,after⟩
    simp only [Except.ok.injEq,Prod.mk.injEq,reduceCtorEq,false_and,exists_false,or_false]
    exact ⟨fun ⟨same,here⟩ => ⟨b,⟨rfl,here⟩,same.symm⟩,fun ⟨_,⟨same,here⟩,answer⟩ => ⟨same ▸ answer.symm,here⟩⟩

theorem attempt_total (x : Parser τ ε α) (ts : List τ) : ∃ a rest, attempt x ts = .ok (a,rest) := by
  unfold attempt
  split
  · exact ⟨_,_,rfl⟩
  · exact ⟨_,_,rfl⟩

theorem Keeps.attempt (keeps : Keeps x) : Keeps (TokenParser.attempt x) := by
  intro ts a rest result
  rcases attempt_ok.mp result with ⟨b,here,_⟩ | ⟨e,_,_,same⟩
  · exact keeps _ _ _ here
  · exact Nat.le_of_eq (congrArg List.length same)

theorem ifPeek_ok {x y : Parser τ ε α} {a : α} : (peek p >>= fun b => if b = true then x else y) ts = .ok (a,rest) ↔
    (ts.head?.any p = true ∧ x ts = .ok (a,rest)) ∨ (ts.head?.any p = false ∧ y ts = .ok (a,rest)) := by
  change (if ts.head?.any p = true then x else y) ts = _ ↔ _
  cases ts.head?.any p <;> simp

theorem ifEmpty_ok {x y : Parser τ ε α} {a : α} : (isEmpty >>= fun b => if b = true then x else y) ts = .ok (a,rest) ↔
    (ts = [] ∧ x ts = .ok (a,rest)) ∨ (ts ≠ [] ∧ y ts = .ok (a,rest)) := by
  change (if ts.isEmpty = true then x else y) ts = _ ↔ _
  cases ts <;> simp

end

section
variable (step : σ → Parser τ ε σ)

-- A loop that stops where nothing is left.
def untilEmpty (consumes : ∀ s, Consumes (step s)) (s : σ) (ts : List τ) : Except ε σ :=
  match ts with
  | [] => .ok s
  | t::ts =>
    match first : step s (t::ts) with
    | .error e => .error e
    | .ok (s,rest) =>
      have : rest.length < (t::ts).length := consumes _ _ _ _ first
      untilEmpty consumes s rest
termination_by ts.length
decreasing_by exact this

-- The passes of such a loop that all succeed.
inductive Passes : σ → List τ → σ → Prop where
  | done : Passes s [] s
  | pass (some_ : ts ≠ []) (first : step s ts = .ok (middle,rest)) (more : Passes middle rest last) : Passes s ts last

theorem untilEmpty_ok {consumes : ∀ s, Consumes (step s)} {s last : σ} {ts : List τ} :
    untilEmpty step consumes s ts = .ok last ↔ Passes step s ts last := by
  refine ⟨fun result => ?_,fun passes => ?_⟩
  · fun_induction untilEmpty step consumes s ts with
    | case1 s =>
      cases result
      exact .done
    | case2 s t ts e first => cases result
    | case3 s t ts middle rest first shorter ih => exact .pass (List.cons_ne_nil _ _) first (ih result)
  · induction passes with
    | done =>
      unfold untilEmpty
      rfl
    | @pass ts s middle rest last some_ first more ih =>
      cases ts with
      | nil => exact absurd rfl some_
      | cons t ts =>
        unfold untilEmpty
        split
        · rename_i e failed
          cases first.symm.trans failed
        · rename_i middle' rest' taken
          cases first.symm.trans taken
          exact ih
end

section
variable (step : σ → Parser τ ε (σ × Bool))

-- A pass after which the loop goes on takes something.
def Advances (x : Parser τ ε (σ × Bool)) : Prop := ∀ ts s rest, x ts = .ok ((s,true),rest) → rest.length < ts.length

-- A loop that a pass of it may leave.
def untilBreak (advances : ∀ s, Advances (step s)) (s : σ) (ts : List τ) : Except ε (σ × List τ) :=
  match first : step s ts with
  | .error e => .error e
  | .ok ((s,false),rest) => .ok (s,rest)
  | .ok ((s,true),rest) =>
    have : rest.length < ts.length := advances _ _ _ _ first
    untilBreak advances s rest
termination_by ts.length
decreasing_by exact this

-- The passes of such a loop, of which the last leaves it.
inductive Breaks : σ → List τ → σ → List τ → Prop where
  | done (last : step s ts = .ok ((t,false),rest)) : Breaks s ts t rest
  | pass (first : step s ts = .ok ((middle,true),between)) (more : Breaks middle between t rest) : Breaks s ts t rest

variable {step} {s t : σ} {ts rest : List τ}

theorem untilBreak_ok {advances : ∀ s, Advances (step s)} :
    untilBreak step advances s ts = .ok (t,rest) ↔ Breaks step s ts t rest := by
  refine ⟨fun result => ?_,fun breaks => ?_⟩
  · fun_induction untilBreak step advances s ts with
    | case1 s ts e first => cases result
    | case2 s ts t' rest' last =>
      cases result
      exact .done last
    | case3 s ts middle between first shorter ih => exact .pass first (ih result)
  · induction breaks with
    | @done s ts t rest last =>
      unfold untilBreak
      split
      · rename_i e failed
        cases failed.symm.trans last
      · rename_i t' rest' left
        cases left.symm.trans last
        rfl
      · rename_i middle between goesOn
        cases goesOn.symm.trans last
    | @pass s ts middle between t rest first more ih =>
      unfold untilBreak
      split
      · rename_i e failed
        cases failed.symm.trans first
      · rename_i t' rest' left
        cases left.symm.trans first
      · rename_i middle' between' goesOn
        cases goesOn.symm.trans first
        exact ih

-- The loop goes on where a pass leaves it, and fails where one fails.
theorem untilBreak_pass {advances : ∀ s, Advances (step s)} {middle : σ} {between : List τ}
    (first : step s ts = .ok ((middle,true),between)) :
    untilBreak step advances s ts = untilBreak step advances middle between := by
  rw [untilBreak]
  split
  · rename_i e failed
    cases failed.symm.trans first
  · rename_i t' rest' left
    cases left.symm.trans first
  · rename_i middle' between' goesOn
    cases goesOn.symm.trans first
    rfl

theorem untilBreak_error {advances : ∀ s, Advances (step s)} {e : ε} (failed : step s ts = .error e) :
    untilBreak step advances s ts = .error e := by
  rw [untilBreak]
  split
  · rename_i e' failed'
    cases failed'.symm.trans failed
    rfl
  · rename_i t' rest' left
    cases left.symm.trans failed
  · rename_i middle between goesOn
    cases goesOn.symm.trans failed

-- What each pass keeps, the loop keeps.
theorem Breaks.keeps {p : σ → Prop} (each : ∀ s ts t more rest, p s → step s ts = .ok ((t,more),rest) → p t)
    (breaks : Breaks step s ts t rest) (start : p s) : p t := by
  induction breaks with
  | done last => exact each _ _ _ _ _ start last
  | pass first more ih => exact ih (each _ _ _ _ _ start first)
end
end TokenParser
