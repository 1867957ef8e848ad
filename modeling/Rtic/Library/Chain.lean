import Mathlib.Data.List.Nodup
namespace Chain
universe u
variable {A : Type u}

-- Links in a memory: nothing lies at an address, or a link whose successor is at
-- another address, or the last link. A path leads from one pointer to another.
def Path (succ : A → Option (Option A)) (start : Option A) (l : List A) (stop : Option A) : Prop :=
  match l with
  | [] => start = stop
  | i::rest => start = some i ∧ ∃ next, succ i = some next ∧ Path succ next rest stop

-- The whole list from a head pointer on.
def Linked (succ : A → Option (Option A)) (head : Option A) (l : List A) : Prop := Path succ head l none

def Reachable (succ : A → Option (Option A)) (head : Option A) (i : A) : Prop := ∃ l, Path succ head l (some i)

variable {succ succ' : A → Option (Option A)} {start stop head : Option A} {l r : List A} {i : A}

@[simp] theorem path_nil : Path succ start [] stop ↔ start = stop := Iff.rfl

theorem path_cons : Path succ start (i::l) stop ↔ start = some i ∧ ∃ next, succ i = some next ∧ Path succ next l stop :=
  Iff.rfl

theorem path_append : Path succ start (l++r) stop ↔ ∃ middle, Path succ start l middle ∧ Path succ middle r stop := by
  induction l generalizing start with
  | nil => simp
  | cons i l ih =>
    simp only [List.cons_append,path_cons,ih]
    constructor
    · rintro ⟨rfl,next,linked,middle,first,second⟩
      exact ⟨middle,⟨rfl,next,linked,first⟩,second⟩
    · rintro ⟨middle,⟨rfl,next,linked,first⟩,second⟩
      exact ⟨rfl,next,linked,middle,first,second⟩

-- A path does not depend on the links outside it.
theorem Path.frame (path : Path succ start l stop) (same : ∀ i ∈ l, succ' i = succ i) : Path succ' start l stop := by
  induction l generalizing start with
  | nil => exact path
  | cons i l ih =>
    obtain ⟨rfl,next,linked,rest⟩ := path
    refine ⟨rfl,next,(same i List.mem_cons_self).trans linked,ih rest fun j member => ?_⟩
    exact same j (List.mem_cons_of_mem _ member)

theorem Linked.head_eq (linked : Linked succ head l) : head = l.head? := by
  cases l with
  | nil => exact linked
  | cons i l => exact linked.1

-- The links from a head on are determined by it.
theorem Linked.past {next : Option A} (linked : Linked succ (some i) (i::l)) (here : succ i = some next) : Linked succ next l := by
  obtain ⟨_,after,at_,rest⟩ := linked
  cases here.symm.trans at_
  exact rest

theorem Linked.unique (linked : Linked succ head l) (other : Linked succ head r) : l = r := by
  induction l generalizing head r with
  | nil =>
    have none_ : head = none := linked
    cases r with
    | nil => rfl
    | cons j r =>
      rw [other.1] at none_
      cases none_
  | cons i l ih =>
    obtain ⟨rfl,next,at_,rest⟩ := linked
    cases r with
    | nil => cases other
    | cons j r =>
      obtain ⟨same,next',at_',rest'⟩ := other
      cases same
      rw [at_] at at_'
      cases at_'
      rw [ih rest rest']

-- A list that ends visits no link twice: from the second visit on it would be the
-- list from the first visit on.
theorem Linked.nodup (linked : Linked succ head l) : l.Nodup := by
  induction l generalizing head with
  | nil => exact List.nodup_nil
  | cons i l ih =>
    obtain ⟨rfl,next,at_,rest⟩ := linked
    refine List.nodup_cons.mpr ⟨fun again => ?_,ih rest⟩
    obtain ⟨before,after,rfl⟩ := List.append_of_mem again
    obtain ⟨middle,_,tail⟩ := path_append.mp rest
    have whole : Linked succ (some i) (i::(before++i::after)) := ⟨rfl,next,at_,rest⟩
    have same := whole.unique (r:=i::after) (by rw [tail.1] at tail; exact tail)
    have lengths := congrArg List.length same
    simp at lengths
    omega

theorem Linked.reachable_iff (linked : Linked succ head l) : Reachable succ head i ↔ i ∈ l := by
  constructor
  · rintro ⟨prefix_,path⟩
    induction prefix_ generalizing head l with
    | nil =>
      rw [path_nil] at path
      cases l with
      | nil =>
        rw [path] at linked
        cases linked
      | cons j l =>
        rw [linked.1] at path
        cases path
        exact List.mem_cons_self
    | cons j prefix_ ih =>
      obtain ⟨rfl,next,at_,rest⟩ := path
      cases l with
      | nil => cases linked
      | cons k l =>
        obtain ⟨same,next',at_',rest'⟩ := linked
        cases same
        rw [at_] at at_'
        cases at_'
        exact List.mem_cons_of_mem _ (ih rest' rest)
  · intro member
    obtain ⟨before,after,rfl⟩ := List.append_of_mem member
    obtain ⟨middle,path,tail⟩ := path_append.mp linked
    exact ⟨before,tail.1 ▸ path⟩

-- Each link points at the one after it.
theorem Linked.succ_eq (linked : Linked succ head (l++i::r)) : succ i = some r.head? := by
  obtain ⟨_,_,_,next,at_,rest⟩ := path_append.mp linked
  have first : next = r.head? := Linked.head_eq rest
  rw [at_,first]

-- The edits: to lead past a link, and to put one at the end.
theorem Linked.bypass {p : A} (linked : Linked succ head (l++p::i::r)) (past : succ' p = some r.head?)
    (same : ∀ j ∈ l++r, succ' j = succ j) : Linked succ' head (l++p::r) := by
  obtain ⟨middle,before,rfl,next,_,at_,_,_,rest⟩ := path_append.mp linked
  refine path_append.mpr ⟨_,before.frame fun j member => same j (List.mem_append_left _ member),rfl,_,past,?_⟩
  have first := Linked.head_eq rest
  rw [← first]
  exact rest.frame fun j member => same j (List.mem_append_right _ member)

-- Taking a link out: what led to it leads on to what it pointed at.
theorem Linked.remove {head' : Option A} (linked : Linked succ head (l++i::r)) (first : head' = (l++r).head?)
    (past : ∀ p, l.getLast? = some p → succ' p = some r.head?)
    (same : ∀ j ∈ l++r, l.getLast? ≠ some j → succ' j = succ j) : Linked succ' head' (l++r) := by
  rcases List.eq_nil_or_concat' l with rfl | ⟨before,p,rfl⟩
  · obtain ⟨_,next,_,rest⟩ := linked
    have here : next = r.head? := Linked.head_eq rest
    have first : head' = r.head? := first
    rw [List.nil_append,first,← here]
    exact rest.frame fun j member => same j member (by simp)
  · have distinct := linked.nodup
    rw [List.append_assoc] at linked
    have outside : p ∉ before ∧ p ∉ r := by
      simp only [List.append_assoc,List.nodup_append,List.cons_append,List.nil_append,List.nodup_cons,List.mem_cons] at distinct
      exact ⟨fun member => distinct.2.2 p member p (Or.inl rfl) rfl,fun member => distinct.2.1.1 (Or.inr member)⟩
    have shorter : Linked succ' head (before++p::r) := by
      refine linked.bypass (past p (by simp)) fun j member => ?_
      have apart : p ≠ j := by
        rintro rfl
        exact (List.mem_append.mp member).elim outside.1 outside.2
      exact same j (by simpa using (List.mem_append.mp member).imp_right Or.inr) (by simpa using apart)
    have start : head = head' := by
      rw [first,Linked.head_eq linked]
      cases before <;> simp
    rw [List.append_assoc]
    exact start ▸ shorter

theorem Linked.snoc {p : A} (linked : Linked succ head (l++[p])) (more : succ' p = some (some i)) (last : succ' i = some none)
    (same : ∀ j ∈ l, succ' j = succ j) : Linked succ' head (l++[p]++[i]) := by
  obtain ⟨middle,before,rfl,_,_,_⟩ := path_append.mp linked
  rw [List.append_assoc]
  exact path_append.mpr ⟨_,before.frame same,rfl,_,more,rfl,_,last,rfl⟩

end Chain
