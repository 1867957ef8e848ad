import Mathlib.Data.List.Basic
namespace Returns
universe u v w
variable {α : Type u} {β : Type v}

-- A computation that does not panic, where none stands for a panic.
def Returns (x : Option α) : Prop := ∃ a, x = some a

@[simp] theorem returns_some (a : α) : Returns (some a) := ⟨a,rfl⟩

theorem Returns.bind {x : Option α} {f : α → Option β} (first : Returns x) (rest : ∀ a, x = some a → Returns (f a)) :
    Returns (x.bind f) := by
  obtain ⟨a,result⟩ := first
  rw [result]
  exact rest a result

theorem Returns.map {x : Option α} (first : Returns x) (f : α → β) : Returns (x.map f) := by
  obtain ⟨a,rfl⟩ := first
  exact ⟨f a,rfl⟩

theorem returns_mapM {β : Type u} {f : α → Option β} {items : List α} (each : ∀ item ∈ items, Returns (f item)) :
    Returns (items.mapM f) := by
  induction items with
  | nil => exact ⟨[],rfl⟩
  | cons item items ih =>
    obtain ⟨value,first⟩ := each item List.mem_cons_self
    obtain ⟨values,rest⟩ := ih fun other member => each other (List.mem_cons_of_mem _ member)
    refine ⟨value::values,?_⟩
    rw [List.mapM_cons,first,rest]
    rfl

-- A `mapM` panics exactly if one of its items does.
theorem mapM_panics {β : Type u} {f : α → Option β} {items : List α} :
    items.mapM f = none ↔ ∃ item ∈ items, f item = none := by
  induction items with
  | nil => exact iff_of_false nofun nofun
  | cons item items ih =>
    simp only [List.mapM_cons,List.mem_cons,exists_eq_or_imp,← ih]
    cases first : f item with
    | none => exact iff_of_true rfl (Or.inl rfl)
    | some value =>
      cases rest : items.mapM f with
      | none => exact iff_of_true rfl (Or.inr rfl)
      | some values => exact iff_of_false nofun nofun

-- What a `mapM` made comes from an item, in the item's place.
theorem mapM_names {β : Type u} {κ : Type w} {f : α → Option β} {items : List α} {images : List β} {key : α → κ} {key' : β → κ}
    (mapped : items.mapM f = some images) (same : ∀ item ∈ items, ∀ image, f item = some image → key' image = key item) :
    images.map key' = items.map key := by
  induction items generalizing images with
  | nil =>
    cases mapped
    rfl
  | cons item items ih =>
    rw [List.mapM_cons] at mapped
    obtain ⟨image,made,rest⟩ := Option.bind_eq_some_iff.mp mapped
    obtain ⟨others,there,built⟩ := Option.bind_eq_some_iff.mp rest
    cases built
    rw [List.map_cons,List.map_cons,same item List.mem_cons_self image made,
      ih there fun other member => same other (List.mem_cons_of_mem _ member)]

theorem mapM_origin {β : Type u} {f : α → Option β} {items : List α} {images : List β} (mapped : items.mapM f = some images)
    {image : β} (member : image ∈ images) : ∃ item ∈ items, f item = some image := by
  induction items generalizing images with
  | nil =>
    cases mapped
    cases member
  | cons item items ih =>
    rw [List.mapM_cons] at mapped
    obtain ⟨first,made,rest⟩ := Option.bind_eq_some_iff.mp mapped
    obtain ⟨others,there,built⟩ := Option.bind_eq_some_iff.mp rest
    cases built
    rcases List.mem_cons.mp member with rfl | member
    · exact ⟨item,List.mem_cons_self,made⟩
    · obtain ⟨origin,listed,from_⟩ := ih there member
      exact ⟨origin,List.mem_cons_of_mem _ listed,from_⟩

end Returns
