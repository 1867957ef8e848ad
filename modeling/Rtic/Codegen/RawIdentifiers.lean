import Rtic.Codegen.InternalNames
namespace Rtic.Codegen
open Syntax Returns

-- Ident::new panics on a text that is no identifier. Of the texts that are made of names it is those that
-- have the name of a raw identifier in them, r#type.
def identNew (text : String) : Option Ident := if '#' ∈ text.toList then none else some text

abbrev Raw (name : Ident) : Prop := '#' ∈ name.toList

-- What module::codegen names the items of each context by.
def contextIdents (app : App) : List String :=
  app.taskNames.flatMap fun name => ["Context","EXEC"].map (internalTaskIdent name)

-- The texts that the generator hands to Ident::new with names of the application in them. Those of the structs,
-- of get_task_name and of the resources to be locked have the same names in them.
def identTexts (app : App) (dispatchers : List Dispatcher) : Option (List String) :=
  (internalNames app).map fun names => contextIdents app++names++dispatchers.filterMap Dispatcher.vector

-- The names of the application in them.
def usedNames (app : App) : List Ident :=
  app.taskNames++app.sharedResources.map Prod.fst++app.localResources.map Prod.fst++
    ((taskLocals app).flatMap fun task => (declaredLocals task.1 task.2).map fun entry => entry.2.1)++
    (interrupts app).map Prod.snd

section
variable {app : App}

@[simp] theorem mark_raw {name : String} : '#' ∈ (markInternalName name).toList ↔ '#' ∈ name.toList := by
  simp [markInternalName]

theorem internalTaskIdent_raw {task suffix : Ident} (plain : ¬Raw suffix) : Raw (internalTaskIdent task suffix) ↔ Raw task := by
  simp [internalTaskIdent,plain]

theorem identNew_panics {text : String} : identNew text = none ↔ Raw text := by
  simp [identNew]

theorem contextIdents_raw : (∃ text ∈ contextIdents app, Raw text) ↔ ∃ name ∈ app.taskNames, Raw name := by
  unfold contextIdents
  constructor
  · rintro ⟨text,made,raw⟩
    obtain ⟨name,known,made⟩ := List.mem_flatMap.mp made
    obtain ⟨suffix,own,rfl⟩ := List.mem_map.mp made
    exact ⟨name,known,(internalTaskIdent_raw ((by decide : ∀ suffix ∈ ["Context","EXEC"], ¬Raw suffix) _ own)).mp raw⟩
  · rintro ⟨name,known,raw⟩
    exact ⟨internalTaskIdent name "EXEC",List.mem_flatMap.mpr ⟨name,known,by simp⟩,
      (internalTaskIdent_raw (by decide)).mpr raw⟩

-- A resource that a task declares is named after both.
theorem declaredIdents_raw : (∃ text ∈ (taskLocals app).flatMap (fun task => (declaredLocals task.1 task.2).map fun entry =>
      declaredStaticLocalResourceIdent entry.2.1 entry.1), Raw text) →
    (∃ name ∈ app.taskNames, Raw name) ∨ ∃ name ∈ (taskLocals app).flatMap fun task =>
      (declaredLocals task.1 task.2).map fun entry => entry.2.1, Raw name := by
  rintro ⟨text,made,raw⟩
  obtain ⟨task,known,made⟩ := List.mem_flatMap.mp made
  obtain ⟨entry,listed,rfl⟩ := List.mem_map.mp made
  have apart : '#' ∈ entry.1.toList ∨ '#' ∈ entry.2.1.toList := by
    simpa [declaredStaticLocalResourceIdent] using raw
  rcases apart with raw | raw
  · refine Or.inl ⟨entry.1,?_,raw⟩
    rw [(mem_declaredLocals.mp listed).1,← taskLocals_names]
    exact List.mem_map_of_mem known
  · exact Or.inr ⟨_,List.mem_flatMap.mpr ⟨task,known,List.mem_map_of_mem listed⟩,raw⟩

theorem internalNames_raw {names : List Ident} (known : internalNames app = some names) :
    ((∃ name ∈ app.taskNames, Raw name) ∨ ∃ text ∈ names, Raw text) ↔
      (∃ name ∈ app.taskNames, Raw name) ∨ (∃ name ∈ app.sharedResources.map Prod.fst, Raw name) ∨
      (∃ name ∈ app.localResources.map Prod.fst, Raw name) ∨
      ∃ name ∈ (taskLocals app).flatMap fun task => (declaredLocals task.1 task.2).map fun entry => entry.2.1, Raw name := by
  unfold internalNames at known
  rw [declaredLocalResources_eq,Option.map_some,Option.some.injEq] at known
  subst known
  simp only [List.mem_append,or_and_right,exists_or]
  constructor
  · rintro (task | ((shared | field) | declared) | task)
    · exact Or.inl task
    · exact Or.inr (Or.inl (by simpa [staticSharedResourceIdent] using shared))
    · exact Or.inr (Or.inr (Or.inl (by simpa [staticLocalResourceIdent] using field)))
    · rw [List.map_flatMap] at declared
      exact (declaredIdents_raw declared).imp_right fun name => Or.inr (Or.inr name)
    · refine Or.inl ?_
      obtain ⟨text,made,raw⟩ := task
      obtain ⟨own,listed,made⟩ := List.mem_flatMap.mp made
      obtain ⟨suffix,known,rfl⟩ := List.mem_map.mp made
      refine ⟨own.1,List.mem_append_right _ (List.mem_map_of_mem listed),?_⟩
      exact (internalTaskIdent_raw ((by decide : ∀ suffix ∈ taskSuffixes, ¬Raw suffix) _ known)).mp raw
  · rintro (task | shared | field | ⟨name,declared,raw⟩)
    · exact Or.inl task
    · exact Or.inr (Or.inl (Or.inl (Or.inl (by simpa [staticSharedResourceIdent] using shared))))
    · exact Or.inr (Or.inl (Or.inl (Or.inr (by simpa [staticLocalResourceIdent] using field))))
    · obtain ⟨task,known,made⟩ := List.mem_flatMap.mp declared
      obtain ⟨entry,listed,rfl⟩ := List.mem_map.mp made
      refine Or.inr (Or.inl (Or.inr ⟨_,List.mem_map_of_mem (List.mem_flatMap.mpr ⟨task,known,listed⟩),?_⟩))
      have raw : '#' ∈ entry.2.1.toList := raw
      simp [declaredStaticLocalResourceIdent,raw]

-- The generator panics over its identifiers exactly if a name that it uses is that of a raw identifier.
theorem identTexts_panics {dispatchers : List Dispatcher}
    (dispatched : ∀ name, name ∈ dispatchers.filterMap Dispatcher.vector ↔ name ∈ (interrupts app).map Prod.snd) :
    ∃ texts, identTexts app dispatchers = some texts ∧
      (texts.mapM identNew = none ↔ ∃ name ∈ usedNames app, Raw name) := by
  obtain ⟨names,known⟩ : ∃ names, internalNames app = some names := by
    unfold internalNames
    rw [declaredLocalResources_eq]
    exact ⟨_,rfl⟩
  refine ⟨_,by rw [identTexts,known]; rfl,?_⟩
  have parts := internalNames_raw known
  simp only [mapM_panics,identNew_panics,usedNames,List.mem_append,or_and_right,exists_or,dispatched] at parts ⊢
  rw [contextIdents_raw,parts]
  simp only [or_assoc]
end

end Rtic.Codegen
