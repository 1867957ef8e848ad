import Rtic.Codegen.Generator
import Rtic.Library.JoinedWords
import Rtic.Syntax.AcceptedApp
namespace Rtic.Codegen
open JoinedWords Syntax

def internalTaskIdent (task : Ident) (identName : String) : Ident := markInternalName (task++"_"++identName)
def staticSharedResourceIdent (name : Ident) : Ident := markInternalName ("shared_resource_"++name)
def staticLocalResourceIdent (name : Ident) : Ident := markInternalName ("local_resource_"++name)
def declaredStaticLocalResourceIdent (name taskName : Ident) : Ident := markInternalName ("local_"++taskName++"_"++name)

-- What the items of a software task have behind its name.
def taskSuffixes : List String := ["EXEC","spawn","waker","Context","LocalSpawner"]

-- The names of the generated items, but for a panic of declared_local_resources.
def internalNames (app : App) : Option (List Ident) :=
  (declaredLocalResources app).map fun declared =>
    app.sharedResources.map (fun res => staticSharedResourceIdent res.1)++
    app.localResources.map (fun res => staticLocalResourceIdent res.1)++
    declared.map (fun entry => declaredStaticLocalResourceIdent entry.2.1 entry.1)++
    app.softwareTasks.flatMap fun task => taskSuffixes.map (internalTaskIdent task.1)

-- The task has the resource in its list, with a type and a value.
def Declares (app : App) (task name : Ident) : Prop :=
  ∃ declared, declaredLocalResources app = some declared ∧ ∃ ty, (task,name,ty) ∈ declared

-- Neither the same words nor the ones with their border moved into the others.
def Clear (p q : Ident × Ident) : Prop := p ≠ q ∧ ¬Shifts "_" p q

-- No underscore of a name can be taken for one that the generator puts in.
structure Apart (app : App) : Prop where
  declared : ∀ t n t' n', Declares app t n → Declares app t' n' → ¬Shifts "_" (t,n) (t',n')
  fields : ∀ f ∈ app.localResources.map Prod.fst, ∀ t n, Declares app t n → ¬Shifts "_" ("resource",f) (t,n)
  shared : ∀ r ∈ app.sharedResources.map Prod.fst, ∀ t ∈ app.softwareTasks.map Prod.fst, ∀ s ∈ taskSuffixes,
    Clear ("shared_resource",r) (t,s)
  local_ : ∀ f ∈ app.localResources.map Prod.fst, ∀ t ∈ app.softwareTasks.map Prod.fst, ∀ s ∈ taskSuffixes,
    Clear ("local_resource",f) (t,s)
  tasks : ∀ t n, Declares app t n → ∀ t' ∈ app.softwareTasks.map Prod.fst, ∀ s ∈ taskSuffixes, Clear ("local_"++t,n) (t',s)

-- The tasks with their lists, init and idle among them.
def taskLocals (app : App) : List (Ident × LocalResources) :=
  (app.init.name,app.init.localResources)::app.idle.toList.map (fun idle => (idle.name,idle.localResources))++
    app.hardwareTasks.map (fun task => (task.1,task.2.localResources))++
    app.softwareTasks.map (fun task => (task.1,task.2.localResources))

section
variable {app : App} {declared : List (Ident × Ident × Ty)} {task name : Ident}

theorem declaredLocalResources_eq (app : App) : declaredLocalResources app =
    some ((taskLocals app).flatMap fun task => declaredLocals task.1 task.2) := by
  unfold declaredLocalResources taskLocals
  cases idle : app.idle with
  | none => simp [List.flatMap_map,List.flatMap_append]
  | some own => simp [List.flatMap_map,List.flatMap_append,taskIdent,idle]

theorem mem_declaredLocals {locals : LocalResources} {entry : Ident × Ident × Ty} :
    entry ∈ declaredLocals task locals ↔ entry.1 = task ∧ (entry.2.1,.declared entry.2.2) ∈ locals := by
  unfold declaredLocals
  rw [List.mem_filterMap]
  refine ⟨?_,?_⟩
  · rintro ⟨⟨own,kind⟩,member,read⟩
    cases kind with
    | external => cases read
    | declared ty =>
      cases read
      exact ⟨rfl,member⟩
  · obtain ⟨own,resource,ty⟩ := entry
    rintro ⟨rfl,member⟩
    exact ⟨_,member,rfl⟩

-- What the names rest on: each task, each field and each resource of a list has its name once, and no field of the
-- #[local] struct is declared by a task.
structure Named (app : App) : Prop where
  tasks : ((taskLocals app).map Prod.fst).Nodup
  software : (app.softwareTasks.map Prod.fst).Nodup
  shared : (app.sharedResources.map Prod.fst).Nodup
  local_ : (app.localResources.map Prod.fst).Nodup
  lists : ∀ task ∈ taskLocals app, Keyed task.2
  fields : ∀ f ∈ app.localResources.map Prod.fst, ∀ t, ¬Declares app t f

theorem declares_iff {task name : Ident} : Declares app task name ↔
    ∃ locals ty, (task,locals) ∈ taskLocals app ∧ (name,.declared ty) ∈ locals := by
  unfold Declares
  simp only [declaredLocalResources_eq,Option.some.injEq,exists_eq_left',List.mem_flatMap,mem_declaredLocals]
  refine ⟨?_,?_⟩
  · rintro ⟨ty,⟨own,locals⟩,member,rfl,listed⟩
    exact ⟨locals,ty,member,listed⟩
  · rintro ⟨locals,ty,member,listed⟩
    exact ⟨ty,_,member,rfl,listed⟩

theorem declaredLocals_names (task : Ident) (locals : LocalResources) :
    ((declaredLocals task locals).map fun entry => entry.2.1).Sublist (locals.map Prod.fst) := by
  induction locals with
  | nil => exact .slnil
  | cons own locals ih =>
    obtain ⟨name,kind⟩ := own
    cases kind with
    | external => exact ih.cons _
    | declared ty => exact ih.cons_cons _

-- The pairs of a task and a resource that it declares are distinct.
theorem declared_nodup (named : Named app) (known : declaredLocalResources app = some declared) :
    (declared.map fun entry => (entry.1,entry.2.1)).Nodup := by
  rw [declaredLocalResources_eq] at known
  cases known
  have tasks := named.tasks
  unfold List.Nodup at tasks
  rw [List.pairwise_map] at tasks
  rw [List.map_flatMap,List.nodup_flatMap]
  refine ⟨fun task member => ?_,tasks.imp fun {a b} other => ?_⟩
  · refine List.Nodup.of_map Prod.snd ?_
    rw [List.map_map]
    exact (declaredLocals_names task.1 task.2).nodup (named.lists task member)
  · intro pair left right
    obtain ⟨first,here,rfl⟩ := List.mem_map.mp left
    obtain ⟨second,there,same⟩ := List.mem_map.mp right
    refine other ?_
    rw [← (mem_declaredLocals.mp here).1,← (mem_declaredLocals.mp there).1]
    exact (congrArg Prod.fst same).symm

-- The names as words: each is the mark, a first word, an underscore and a second word.
def sharedWords (app : App) : List (Ident × Ident) := app.sharedResources.map fun res => ("shared_resource",res.1)
def localWords (app : App) : List (Ident × Ident) := app.localResources.map fun res => ("local_resource",res.1)
def declaredWords (declared : List (Ident × Ident × Ty)) : List (Ident × Ident) :=
  declared.map fun entry => ("local_"++entry.1,entry.2.1)
def taskWords (app : App) : List (Ident × Ident) :=
  app.softwareTasks.flatMap fun task => taskSuffixes.map fun suffix => (task.1,suffix)

def internalWords (app : App) (declared : List (Ident × Ident × Ty)) : List (Ident × Ident) :=
  sharedWords app++localWords app++declaredWords declared++taskWords app

theorem internalNames_words (known : declaredLocalResources app = some declared) :
    internalNames app = some (((internalWords app declared).map (join "_")).map markInternalName) := by
  unfold internalNames
  rw [known,Option.map_some]
  simp only [internalWords,sharedWords,localWords,declaredWords,taskWords,List.map_append,List.map_map,List.map_flatMap]
  rfl

theorem markInternalName_injective : Function.Injective markInternalName :=
  fun _ _ same => (String.append_right_inj _).mp same

theorem mem_sharedWords {p : Ident × Ident} :
    p ∈ sharedWords app ↔ ∃ r ∈ app.sharedResources.map Prod.fst, p = ("shared_resource",r) := by
  simp [sharedWords,eq_comm]
theorem mem_localWords {p : Ident × Ident} :
    p ∈ localWords app ↔ ∃ f ∈ app.localResources.map Prod.fst, p = ("local_resource",f) := by
  simp [localWords,eq_comm]
theorem mem_taskWords {p : Ident × Ident} :
    p ∈ taskWords app ↔ ∃ t ∈ app.softwareTasks.map Prod.fst, ∃ s ∈ taskSuffixes, p = (t,s) := by
  simp [taskWords,eq_comm]
theorem mem_declaredWords (known : declaredLocalResources app = some declared) {p : Ident × Ident} :
    p ∈ declaredWords declared ↔ ∃ t n, Declares app t n ∧ p = ("local_"++t,n) := by
  unfold Declares declaredWords
  simp only [known,Option.some.injEq,exists_eq_left',List.mem_map]
  refine ⟨?_,?_⟩
  · rintro ⟨⟨t,n,ty⟩,member,rfl⟩
    exact ⟨t,n,⟨ty,member⟩,rfl⟩
  · rintro ⟨t,n,⟨ty,member⟩,rfl⟩
    exact ⟨_,member,rfl⟩

-- First words of the kinds that never begin with one another.
theorem shared_stem {x : String} {p q : Ident × Ident} (first : p.1 = "shared_resource") (second : q.1 = "local_"++x) :
    ¬Shifts "_" p q ∧ ¬Shifts "_" q p ∧ p ≠ q := by
  refine ⟨?_,?_,?_⟩
  · rintro ⟨u,grown,_⟩
    have same := congrArg String.toList (second.symm.trans grown)
    simp [first] at same
  · rintro ⟨u,grown,_⟩
    have same := congrArg String.toList (first.symm.trans grown)
    simp [second] at same
  · rintro rfl
    have same := congrArg String.toList (first.symm.trans second)
    simp at same

theorem same_stem {p q : Ident × Ident} (same : p.1 = q.1) : ¬Shifts "_" p q := by
  intro shifts
  have longer := shifts.length
  have one : ("_" : String).length = 1 := rfl
  rw [same] at longer
  omega

theorem suffix_shift {t s : Ident} {q : Ident × Ident} (known : s ∈ taskSuffixes) : ¬Shifts "_" (t,s) q := by
  intro shifts
  have plain : ∀ s ∈ taskSuffixes, '_' ∉ s.toList := by decide
  exact plain s known (shifts.separator rfl)

theorem stem_prepend (x : String) : "local_resource" = "local_"++x ↔ x = "resource" := by
  have split_ : ("local_resource" : String) = "local_"++"resource" := rfl
  rw [split_,String.append_right_inj]
  exact eq_comm

-- The one word that the generator has itself has no underscore to give either.
theorem resource_shift {t n f : Ident} : ¬Shifts "_" (t,n) ("resource",f) := by
  rintro ⟨u,grown,_⟩
  have member : '_' ∈ ("resource" : String).toList := by
    rw [show ("resource" : String) = t++"_"++u from grown]
    simp
  exact absurd member (by decide)

theorem taskWords_nodup (named : Named app) : (taskWords app).Nodup := by
  have tasks := named.software
  unfold List.Nodup at tasks
  rw [List.pairwise_map] at tasks
  unfold taskWords
  refine List.nodup_flatMap.mpr ⟨fun task _ => ?_,tasks.imp fun {a b} other => ?_⟩
  · exact List.Nodup.map (fun _ _ same => congrArg Prod.snd same) (by decide)
  · intro pair left right
    obtain ⟨_,_,rfl⟩ := List.mem_map.mp left
    obtain ⟨_,_,same⟩ := List.mem_map.mp right
    exact other (congrArg Prod.fst same).symm

-- Apart from the software tasks, the words are distinct.
theorem resourceWords_nodup (named : Named app) (known : declaredLocalResources app = some declared) :
    (sharedWords app++localWords app++declaredWords declared).Nodup := by
  refine List.nodup_append.mpr ⟨List.nodup_append.mpr ⟨?_,?_,?_⟩,?_,?_⟩
  · have kept := named.shared.map (f:=fun r => (("shared_resource",r) : Ident × Ident)) fun _ _ same => congrArg Prod.snd same
    rwa [List.map_map] at kept
  · have kept := named.local_.map (f:=fun r => (("local_resource",r) : Ident × Ident)) fun _ _ same => congrArg Prod.snd same
    rwa [List.map_map] at kept
  · intro p left q right
    obtain ⟨r,_,rfl⟩ := mem_sharedWords.mp left
    obtain ⟨f,_,rfl⟩ := mem_localWords.mp right
    exact (shared_stem (x:="resource") rfl rfl).2.2
  · have kept := (declared_nodup named known).map (f:=fun e => ("local_"++e.1,e.2)) fun a b same =>
      Prod.ext ((String.append_right_inj _).mp (Prod.mk.inj same).1) (Prod.mk.inj same).2
    rwa [List.map_map] at kept
  · intro p left q right
    obtain ⟨t,n,declares,rfl⟩ := (mem_declaredWords known).mp right
    rcases List.mem_append.mp left with left | left
    · obtain ⟨r,_,rfl⟩ := mem_sharedWords.mp left
      exact (shared_stem (x:=t) rfl rfl).2.2
    · obtain ⟨f,member,rfl⟩ := mem_localWords.mp left
      intro same
      cases (stem_prepend t).mp (congrArg Prod.fst same)
      cases congrArg Prod.snd same
      exact named.fields _ member _ declares

theorem words_iff (named : Named app) (known : declaredLocalResources app = some declared) :
    ((internalWords app declared).Nodup ∧
      ∀ p ∈ internalWords app declared, ∀ q ∈ internalWords app declared, ¬Shifts "_" p q) ↔ Apart app := by
  have member : ∀ p, p ∈ internalWords app declared ↔ (∃ r ∈ app.sharedResources.map Prod.fst, p = ("shared_resource",r)) ∨
      (∃ f ∈ app.localResources.map Prod.fst, p = ("local_resource",f)) ∨ (∃ t n, Declares app t n ∧ p = ("local_"++t,n)) ∨
      ∃ t ∈ app.softwareTasks.map Prod.fst, ∃ s ∈ taskSuffixes, p = (t,s) := by
    intro p
    unfold internalWords
    simp only [List.mem_append,mem_sharedWords,mem_localWords,mem_declaredWords known,mem_taskWords,or_assoc]
  refine ⟨fun ⟨distinct,apart⟩ => ?_,fun apart => ⟨?_,?_⟩⟩
  · have clear : ∀ p ∈ sharedWords app++localWords app++declaredWords declared, ∀ t ∈ app.softwareTasks.map Prod.fst,
        ∀ s ∈ taskSuffixes, Clear p (t,s) := by
      intro p left t software s known
      have right : (t,s) ∈ taskWords app := mem_taskWords.mpr ⟨t,software,s,known,rfl⟩
      exact ⟨(List.nodup_append.mp distinct).2.2 p left _ right,
        apart p (List.mem_append_left _ left) _ (List.mem_append_right _ right)⟩
    refine ⟨?_,?_,?_,?_,?_⟩
    · intro t n t' n' first second
      rw [← shifts_prepend (w:="local_")]
      exact apart _ ((member _).mpr (.inr (.inr (.inl ⟨t,n,first,rfl⟩)))) _
        ((member _).mpr (.inr (.inr (.inl ⟨t',n',second,rfl⟩))))
    · intro f field t n declares
      rw [← shifts_prepend (w:="local_")]
      exact apart _ ((member _).mpr (.inr (.inl ⟨f,field,rfl⟩))) _ ((member _).mpr (.inr (.inr (.inl ⟨t,n,declares,rfl⟩))))
    · intro r shared
      exact clear _ (List.mem_append_left _ (List.mem_append_left _ (mem_sharedWords.mpr ⟨r,shared,rfl⟩)))
    · intro f field
      exact clear _ (List.mem_append_left _ (List.mem_append_right _ (mem_localWords.mpr ⟨f,field,rfl⟩)))
    · intro t n declares
      exact clear _ (List.mem_append_right _ ((mem_declaredWords known).mpr ⟨t,n,declares,rfl⟩))
  · refine List.nodup_append.mpr ⟨resourceWords_nodup named known,taskWords_nodup named,?_⟩
    intro p left q right
    obtain ⟨t,software,s,suffix,rfl⟩ := mem_taskWords.mp right
    simp only [List.mem_append,mem_sharedWords,mem_localWords,mem_declaredWords known,or_assoc] at left
    rcases left with ⟨r,shared,rfl⟩ | ⟨f,field,rfl⟩ | ⟨t',n,declares,rfl⟩
    · exact (apart.shared r shared t software s suffix).1
    · exact (apart.local_ f field t software s suffix).1
    · exact (apart.tasks t' n declares t software s suffix).1
  · intro p left q right
    rcases (member p).mp left with ⟨r,shared,rfl⟩ | ⟨f,field,rfl⟩ | ⟨t,n,declares,rfl⟩ | ⟨t,_,s,suffix,rfl⟩
    · rcases (member q).mp right with ⟨_,_,rfl⟩ | ⟨_,_,rfl⟩ | ⟨t',_,_,rfl⟩ | ⟨t',software,s,suffix,rfl⟩
      · exact same_stem rfl
      · exact (shared_stem (x:="resource") rfl rfl).1
      · exact (shared_stem (x:=t') rfl rfl).1
      · exact (apart.shared r shared t' software s suffix).2
    · rcases (member q).mp right with ⟨_,_,rfl⟩ | ⟨_,_,rfl⟩ | ⟨t',n',declares,rfl⟩ | ⟨t',software,s,suffix,rfl⟩
      · exact (shared_stem (x:="resource") rfl rfl).2.1
      · exact same_stem rfl
      · exact fun shifts => apart.fields f field t' n' declares (shifts_prepend.mp shifts)
      · exact (apart.local_ f field t' software s suffix).2
    · rcases (member q).mp right with ⟨_,_,rfl⟩ | ⟨_,_,rfl⟩ | ⟨t',n',declares',rfl⟩ | ⟨t',software,s,suffix,rfl⟩
      · exact (shared_stem (x:=t) rfl rfl).2.1
      · exact fun shifts => resource_shift (shifts_prepend.mp shifts)
      · exact fun shifts => apart.declared t n t' n' declares declares' (shifts_prepend.mp shifts)
      · exact (apart.tasks t n declares t' software s suffix).2
    · exact suffix_shift suffix

theorem names_iff (named : Named app) :
    ∃ names, internalNames app = some names ∧ (names.Nodup ↔ Apart app) := by
  have known := declaredLocalResources_eq app
  refine ⟨_,internalNames_words known,?_⟩
  rw [List.nodup_map_iff markInternalName_injective,join_nodup_iff (c:= '_') rfl]
  exact words_iff named known
end

-- What the parser, the checks and the analysis let through.
section
variable {syn : Syn.ArgParsers} {text : Syn.Type_ → Ty} {args : Syn.AppArgs} {input : Syn.Input} {app : Syn.App}
  {analysis : Syntax.Analyze.Analysis}

theorem taskLocals_names (app : App) : (taskLocals app).map Prod.fst = app.taskNames := by
  unfold taskLocals App.taskNames
  simp [Function.comp_def]

theorem mem_taskLocals {app : App} {task : Ident × LocalResources} : task ∈ taskLocals app ↔
    task = (app.init.name,app.init.localResources) ∨ (∃ idle ∈ app.idle, task = (idle.name,idle.localResources)) ∨
    (∃ own ∈ app.hardwareTasks, task = (own.1,own.2.localResources)) ∨
    ∃ own ∈ app.softwareTasks, task = (own.1,own.2.localResources) := by
  unfold taskLocals
  simp only [List.mem_append,List.mem_cons,List.mem_map,Option.mem_toList,Option.mem_def,@eq_comm _ task,List.cons_append,
    or_assoc]

theorem taskLocals_context {app : App} {task : Ident × LocalResources} (member : task ∈ taskLocals app) :
    ∃ context ∈ Syntax.Analyze.taskResourcesList app, context.2.2.1 = task.2 := by
  simp only [Syntax.Analyze.mem_taskResourcesList]
  rcases mem_taskLocals.mp member with rfl | ⟨idle,own,rfl⟩ | ⟨own,here,rfl⟩ | ⟨own,here,rfl⟩
  · exact ⟨_,.inl rfl,rfl⟩
  · exact ⟨_,.inr (.inl ⟨idle,own,rfl⟩),rfl⟩
  · exact ⟨_,.inr (.inr (.inr ⟨own,here,rfl⟩)),rfl⟩
  · exact ⟨_,.inr (.inr (.inl ⟨own,here,rfl⟩)),rfl⟩

theorem accepted_named (accepted : Syn.parse2 syn text args input = some (.ok (app,analysis))) : Named (app.erase text) := by
  obtain ⟨parsed,_,analyzed⟩ := Syn.parse2_parts accepted
  have basic := Syn.parse_parsed text Syn.argsParsers_bounded parsed
  have listed := Syn.parse_listed parsed
  refine ⟨taskLocals_names _ ▸ basic.names,?_,basic.shared,basic.local_,fun task member => ?_,fun f field t declares => ?_⟩
  · have names := basic.names
    unfold App.taskNames at names
    exact (List.nodup_append.mp names).2.1
  · rcases mem_taskLocals.mp member with rfl | ⟨idle,own,rfl⟩ | ⟨own,here,rfl⟩ | ⟨own,here,rfl⟩
    · exact Syn.erase_keyed.mpr listed.init
    · obtain ⟨made,here,rfl⟩ := Option.mem_map.mp own
      exact Syn.erase_keyed.mpr (listed.idle made here).local_
    · obtain ⟨made,there,rfl⟩ := List.mem_map.mp here
      exact Syn.erase_keyed.mpr (listed.hardware made there).local_
    · obtain ⟨made,there,rfl⟩ := List.mem_map.mp here
      exact Syn.erase_keyed.mpr (listed.software made there).local_
  · obtain ⟨locals,ty,member,own⟩ := declares_iff.mp declares
    obtain ⟨context,here,same⟩ := taskLocals_context member
    have external := ((Syntax.Analyze.localErrors_iff _).mp (Syntax.Analyze.app_parts analyzed).2.1).1
    obtain ⟨entry,own',rfl⟩ := List.mem_map.mp field
    exact (Syntax.Analyze.external_uses_iff _).mp external entry own' context here ty (same ▸ own)

theorem internal_names_distinct_iff (accepted : Syn.parse2 syn text args input = some (.ok (app,analysis))) :
    ∃ names, internalNames (app.erase text) = some names ∧ (names.Nodup ↔ Apart (app.erase text)) :=
  names_iff (accepted_named accepted)
end

theorem declares_task {app : App} {task name : Ident} (declares : Declares app task name) : task ∈ app.taskNames := by
  obtain ⟨locals,ty,member,_⟩ := declares_iff.mp declares
  rw [← taskLocals_names]
  exact List.mem_map_of_mem member

theorem software_task {app : App} {task : Ident} (member : task ∈ app.softwareTasks.map Prod.fst) : task ∈ app.taskNames :=
  List.mem_append_right _ member

-- Where no task name has an underscore, none can be taken for a border.
theorem plain_apart {app : App} (plain : ∀ task ∈ app.taskNames, '_' ∉ task.toList) : Apart app := by
  have grown : ∀ t ∈ app.taskNames, ∀ p : Ident × Ident, ∀ s, ¬Shifts "_" p (t,s) := by
    rintro t member p s ⟨u,first,_⟩
    refine plain t member ?_
    rw [show t = p.1++"_"++u from first]
    simp
  have clear : ∀ p : Ident × Ident, '_' ∈ p.1.toList → ∀ t ∈ app.softwareTasks.map Prod.fst, ∀ s, Clear p (t,s) := by
    rintro p joined t member s
    refine ⟨?_,grown t (software_task member) p s⟩
    rintro rfl
    exact plain t (software_task member) joined
  refine ⟨fun t n t' n' _ declares => grown t' (declares_task declares) _ n',
    fun f _ t n declares => grown t (declares_task declares) _ n,fun r _ t member s _ => ?_,fun f _ t member s _ => ?_,
    fun t n _ t' member s _ => ?_⟩
  · exact clear ("shared_resource",r) (show '_' ∈ ("shared_resource" : String).toList by decide) t member s
  · exact clear ("local_resource",f) (show '_' ∈ ("local_resource" : String).toList by decide) t member s
  · exact clear ("local_"++t,n) (by simp) t' member s

-- A module of async tasks that each declare a resource of their own.
section
open Syn

def declaring (resource : Ident) : List Token :=
  [.ident "local",.punct '=' false,.group .bracket
    [.ident resource,.punct ':' false,.ident "u8",.punct '=' false,.literal "0"]]

def asyncSig (name : Ident) : Signature where
  constness := false
  asyncness := true
  unsafety := false
  abi := none
  ident := name
  generics := ⟨[],none⟩
  inputs := [.typed ⟨[.ident "_"],.path false ⟨false,[⟨name,.none⟩,⟨"Context",.none⟩]⟩⟩]
  variadic := false
  output := .default

def asyncTask (name resource : Ident) : Item :=
  .fn ⟨[⟨.outer,.ofIdent "task",some (declaring resource)⟩],.inherited,asyncSig name,[]⟩

def declaringModule (tasks : List (Ident × Ident)) : Input :=
  ⟨[],"app",bareModule++tasks.map fun task => asyncTask task.1 task.2⟩

def asyncTaskOf (resource : Ident) : Syn.SoftwareTask where
  args := ⟨0,[(resource,.declared ⟨[],[],.path false (.ofIdent "u8"),[.literal "0"]⟩)],[],false⟩
  cfgs := []
  attrs := []
  context := [.ident "_"]
  inputs := []
  stmts := []
  isExtern := false
  isBottom := false

-- The state of the parser behind the bare module and such tasks.
def withTasks (tasks : List (Ident × Ident)) : ParseState where
  init := some ⟨⟨[]⟩,[],"init",[.ident "_"],[],"Shared","Local",false⟩
  idle := none
  sharedResourcesIdent := some "Shared"
  sharedResourcesVis := .inherited
  sharedResources := []
  localResourcesIdent := some "Local"
  localResourcesVis := .inherited
  localResources := []
  hardwareTasks := []
  softwareTasks := tasks.map fun task => (task.1,asyncTaskOf task.2)
  userImports := []
  userCode := []
  seenIdents := "init"::tasks.map Prod.fst
  bindings := []

theorem declaring_args (resource : Ident) : taskArgs plainArgs (declaring resource) = .ok (.inr (asyncTaskOf resource).args) := by
  have read : Accepted plain [.ident resource,.punct ':' false,.ident "u8",.punct '=' false,.literal "0"] _ :=
    .entry (.value (.value rfl rfl rfl) rfl (.bare rfl)) .none
  have list := localResources_ok.mpr ⟨_,List.cons_ne_nil _ _,read,List.pairwise_singleton _ _,rfl⟩
  exact taskArgs_ok.mpr ⟨_,.stop (.last rfl (by decide) (.local_ list)),List.pairwise_singleton _ _,rfl⟩

theorem asyncTask_parsed {name resource : Ident} :
    softwareTaskOf (asyncTaskOf resource).args [] (asyncSig name) [] false true = .ok (asyncTaskOf resource) := by
  simp [softwareTaskOf,parseInputs,typeIsPath,typeIsUnit,asyncTaskOf,asyncSig,filterAttributes]
  rfl

theorem asyncTask_item {s : ParseState} {name resource : Ident} (fresh : name ∉ s.seenIdents) (free : s.isTask name = false) :
    s.item (argsParsers plainArgs) (asyncTask name resource) = .ok {s with
      seenIdents := s.seenIdents++[name]
      softwareTasks := Ordered.insert s.softwareTasks name (asyncTaskOf resource)} := by
  change (if s.isTask name = true then _ else (taskArgs plainArgs (declaring resource)) >>= _) = _
  rw [free,declaring_args]
  change (checkIdent s.seenIdents name >>= fun seenIdents => _ >>= _) = _
  unfold checkIdent checkUnused
  rw [if_neg fresh]
  change (softwareTaskOf (asyncTaskOf resource).args [] _ [] false true >>= _) = _
  rw [asyncTask_parsed]
  rfl

theorem withTasks_item {tasks : List (Ident × Ident)} {name resource : Ident} (fresh : name ∉ "init"::tasks.map Prod.fst) :
    (withTasks tasks).item (argsParsers plainArgs) (asyncTask name resource) = .ok (withTasks (tasks++[(name,resource)])) := by
  have absent : Ordered.containsKey (withTasks tasks).softwareTasks name = false := by
    refine eq_false_of_ne_true fun present => fresh ?_
    have member := Ordered.containsKey_iff.mp present
    simp only [withTasks,List.map_map] at member
    exact List.mem_cons_of_mem _ member
  have free : (withTasks tasks).isTask name = false := by
    unfold ParseState.isTask
    rw [absent]
    rfl
  rw [asyncTask_item fresh free,Ordered.insert_absent absent]
  simp [withTasks]

theorem withTasks_run {tasks more : List (Ident × Ident)} (distinct : ("init"::(tasks++more).map Prod.fst).Nodup) :
    (more.map fun task => asyncTask task.1 task.2).foldlM (ParseState.item (argsParsers plainArgs)) (withTasks tasks) =
      .ok (withTasks (tasks++more)) := by
  induction more generalizing tasks with
  | nil => rw [List.append_nil]; rfl
  | cons task more ih =>
    have fresh : task.1 ∉ "init"::tasks.map Prod.fst := by
      rw [List.map_append,← List.cons_append] at distinct
      exact fun member => (List.nodup_append.mp distinct).2.2 _ member task.1 (by simp) rfl
    rw [List.map_cons,List.foldlM_cons,withTasks_item fresh]
    have rest := @ih (tasks++[task]) (by simpa using distinct)
    rw [List.append_assoc] at rest
    exact rest

def declaredApp (tasks : List (Ident × Ident)) : Syn.App where
  args := bareAppArgs
  attributeMetas := []
  name := "app"
  init := ⟨⟨[]⟩,[],"init",[.ident "_"],[],"Shared","Local",false⟩
  idle := none
  sharedResources := []
  sharedResourcesVis := .inherited
  localResources := []
  localResourcesVis := .inherited
  userImports := []
  userCode := []
  hardwareTasks := []
  softwareTasks := tasks.map fun task => (task.1,asyncTaskOf task.2)

theorem parse_declaring {tasks : List (Ident × Ident)} (distinct : ("init"::tasks.map Prod.fst).Nodup) :
    App.parse (argsParsers plainArgs) bareAppArgs (declaringModule tasks) = some (.ok (declaredApp tasks)) := by
  have bare : bareModule.foldlM (ParseState.item (argsParsers plainArgs)) ParseState.new = .ok (withTasks []) := rfl
  have run := @withTasks_run [] tasks distinct
  have whole : (declaringModule tasks).items.foldlM (ParseState.item (argsParsers plainArgs)) ParseState.new =
      .ok (withTasks tasks) := by
    unfold declaringModule
    rw [List.foldlM_append,bare]
    exact run
  unfold App.parse
  rw [whole]
  rfl

theorem declaring_accepted {tasks : List (Ident × Ident)} {text : Type_ → Ty} {analysis : Syntax.Analyze.Analysis}
    (distinct : ("init"::tasks.map Prod.fst).Nodup) (checked : Syntax.Check.app ((declaredApp tasks).erase text) = .ok ())
    (analyzed : Syntax.Analyze.app ((declaredApp tasks).erase text) = .ok analysis) :
    parse2 plainArgs text bareAppArgs (declaringModule tasks) = some (.ok (declaredApp tasks,analysis)) := by
  unfold parse2
  simp only [parse_declaring distinct,checked,analyzed]
end

-- uart and button, neither of which has an underscore.
theorem uart_button_distinct : ∃ analysis names,
    Syn.parse2 Syn.plainArgs (fun _ => "u8") Syn.bareAppArgs (declaringModule [("uart","rx_buf"),("button","buf")]) =
      some (.ok (declaredApp [("uart","rx_buf"),("button","buf")],analysis)) ∧
    internalNames ((declaredApp [("uart","rx_buf"),("button","buf")]).erase fun _ => "u8") = some names ∧ names.Nodup := by
  have accepted := @declaring_accepted [("uart","rx_buf"),("button","buf")] (fun _ => "u8") _ (by decide) rfl rfl
  obtain ⟨names,known,distinct⟩ := internal_names_distinct_iff accepted
  exact ⟨_,names,accepted,known,distinct.mpr (plain_apart (by decide))⟩

-- uart with rx_buf and uart_rx with buf.
theorem uart_rx_buf_twice : ∃ analysis names,
    Syn.parse2 Syn.plainArgs (fun _ => "u8") Syn.bareAppArgs (declaringModule [("uart","rx_buf"),("uart_rx","buf")]) =
      some (.ok (declaredApp [("uart","rx_buf"),("uart_rx","buf")],analysis)) ∧
    internalNames ((declaredApp [("uart","rx_buf"),("uart_rx","buf")]).erase fun _ => "u8") = some names ∧
    declaredStaticLocalResourceIdent "rx_buf" "uart" = declaredStaticLocalResourceIdent "buf" "uart_rx" ∧ ¬names.Nodup :=
  ⟨_,_,declaring_accepted (by decide) rfl rfl,rfl,rfl,by decide⟩
end Rtic.Codegen
