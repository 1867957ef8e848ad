import Mathlib.Data.List.Nodup
namespace Ordered
variable {κ α : Type} [DecidableEq κ]

-- A map that remembers the order in which its keys were first inserted.
abbrev Map (κ α : Type) := List (κ × α)

def get? (m : Map κ α) (key : κ) : Option α :=
  (m.find? (fun entry => entry.1 = key)).map Prod.snd

def containsKey (m : Map κ α) (key : κ) : Bool := (get? m key).isSome

-- A key that is present keeps its place, a new one goes to the end.
def insert (m : Map κ α) (key : κ) (value : α) : Map κ α :=
  if containsKey m key then m.map (fun entry => if entry.1 = key then (key,value) else entry)
  else m++[(key,value)]

@[simp] theorem get?_nil (key : κ) : get? ([] : Map κ α) key = none := rfl

theorem get?_cons (entry : κ × α) (m : Map κ α) (key : κ) :
    get? (entry::m) key = if entry.1 = key then some entry.2 else get? m key := by
  by_cases same : entry.1 = key <;> simp [get?,same]

theorem get?_of_mem {m : Map κ α} {key : κ} {value : α} (distinct : (m.map Prod.fst).Nodup)
    (member : (key,value) ∈ m) : get? m key = some value := by
  induction m with
  | nil => cases member
  | cons entry m ih =>
    rw [List.map_cons,List.nodup_cons] at distinct
    rw [get?_cons]
    rcases List.mem_cons.mp member with equal | member
    · subst equal
      simp
    · have other : entry.1 ≠ key := fun same =>
        distinct.1 (same ▸ List.mem_map_of_mem member)
      rw [if_neg other]
      exact ih distinct.2 member

theorem mem_of_get? {m : Map κ α} {key : κ} {value : α} (found : get? m key = some value) : (key,value) ∈ m := by
  obtain ⟨⟨own,_⟩,member,rfl⟩ := Option.map_eq_some_iff.mp found
  have same : own = key := by simpa using List.find?_some member
  exact same ▸ List.mem_of_find?_eq_some member

theorem containsKey_iff {m : Map κ α} {key : κ} : containsKey m key = true ↔ key ∈ m.map Prod.fst := by
  unfold containsKey get?
  rw [Option.isSome_map,List.find?_isSome]
  simp [eq_comm]

theorem insert_absent {m : Map κ α} {key : κ} {value : α} (absent : containsKey m key = false) :
    insert m key value = m++[(key,value)] := by
  unfold insert
  rw [absent]
  rfl

theorem get?_append (left right : Map κ α) (key : κ) :
    get? (left++right) key = (get? left key).or (get? right key) := by
  induction left with
  | nil => simp
  | cons entry left ih =>
    rw [List.cons_append,get?_cons,get?_cons,ih]
    split <;> simp

theorem get?_replace (m : Map κ α) (key other : κ) (value : α) :
    get? (m.map (fun entry => if entry.1 = key then (key,value) else entry)) other =
      if other = key then (get? m key).map (fun _ => value) else get? m other := by
  induction m with
  | nil => simp
  | cons entry m ih =>
    rw [List.map_cons,get?_cons,ih,get?_cons,get?_cons]
    by_cases here : entry.1 = key
    · by_cases same : other = key
      · simp [here,same]
      · have apart : ¬key = other := fun equal => same equal.symm
        simp [here,same,apart]
    · by_cases same : other = key
      · subst same
        simp [here]
      · simp [here,same]

theorem get?_insert (m : Map κ α) (key other : κ) (value : α) :
    get? (insert m key value) other = if other = key then some value else get? m other := by
  unfold insert
  split
  · rename_i present
    obtain ⟨old,found⟩ := Option.isSome_iff_exists.mp present
    rw [get?_replace,found]
    rfl
  · rename_i absent
    have missing : get? m key = none := by simpa [containsKey] using absent
    rw [get?_append,get?_cons,get?_nil]
    by_cases same : other = key
    · subst same
      simp [missing]
    · have apart : ¬key = other := fun equal => same equal.symm
      simp [same,apart]

-- Where no two items have the same key, the filter for a key keeps one item.
theorem filter_key {key : α → κ} {items : List α} (distinct : (items.map key).Nodup) {item : α} (member : item ∈ items) :
    items.filter (fun other => key other = key item) = [item] := by
  induction items with
  | nil => cases member
  | cons first rest ih =>
    obtain ⟨absent,distinct⟩ := List.nodup_cons.mp distinct
    rcases List.mem_cons.mp member with rfl | later
    · have none_ : rest.filter (fun other => key other = key item) = [] :=
        List.filter_eq_nil_iff.mpr fun other listed same =>
          absent (of_decide_eq_true same ▸ List.mem_map_of_mem listed)
      rw [List.filter_cons_of_pos (by simp),none_]
    · have apart : key first ≠ key item := fun same => absent (same ▸ List.mem_map_of_mem later)
      rw [List.filter_cons_of_neg (by simpa using apart),ih distinct later]

section
omit [DecidableEq κ]
variable {β : Type} {key : α → κ} {f : α → Option β} {items order : List α}
  (reads : ∀ item other, (f item).isSome = true → (f other).isSome = true → key item = key other)
  (distinct : (items.map key).Nodup)
include reads distinct

-- Where no two items have the same key, there is one item at most to be found.
theorem findSome?_some_iff {b : β} : items.findSome? f = some b ↔ ∃ item ∈ items, f item = some b := by
  refine ⟨List.exists_of_findSome?_eq_some,?_⟩
  rintro ⟨item,member,given⟩
  cases first : items.findSome? f with
  | none => exact absurd (List.findSome?_eq_none_iff.mp first item member) (by simp [given])
  | some c =>
    obtain ⟨other,member',given'⟩ := List.exists_of_findSome?_eq_some first
    have own := reads item other (by simp [given]) (by simp [given'])
    cases List.inj_on_of_nodup_map distinct member member' own
    exact given'.symm.trans given

theorem findSome?_perm (perm : order.Perm items) : order.findSome? f = items.findSome? f := by
  have distinct' := (perm.map key).nodup_iff.mpr distinct
  refine Option.ext fun b => ?_
  rw [findSome?_some_iff reads distinct,findSome?_some_iff reads distinct']
  simp only [perm.mem_iff]
end

end Ordered
