import Rtic.Codegen.Execution
import Rtic.Syntax.Exclusivity
namespace Rtic.Codegen
open Ordered Syntax Borrows Returns Export
open Syntax.Analyze (Context Args Static Field sharedField ExclusiveUse)

def staticName : Static → Ident
  | .shared name => name
  | .local_ name => name
  | .declared name _ => name

section
variable {app : App} {analysis : CodegenAnalysis} {ctxt : Context}

theorem onlyIf_some {α : Type} {condition : Bool} {x : Option α} {y : Option α} (made : onlyIf condition x = some y)
    {a : α} (present : a ∈ y.toList) : condition = true ∧ x = some a := by
  cases condition with
  | false =>
    cases made
    cases present
  | true =>
    obtain ⟨value,same,rfl⟩ := Option.map_eq_some_iff.mp made
    cases List.mem_singleton.mp present
    exact ⟨rfl,same⟩

theorem args_taskIdent {args : Args} (found : ctxt.args app = some args) : taskIdent app ctxt = some args.ident := by
  cases ctxt with
  | init =>
    cases found
    rfl
  | idle =>
    obtain ⟨idle,defined,rfl⟩ := Option.map_eq_some_iff.mp found
    simp [taskIdent,defined]
  | softwareTask name =>
    obtain ⟨_,_,rfl⟩ := Option.map_eq_some_iff.mp found
    rfl
  | hardwareTask name =>
    obtain ⟨_,_,rfl⟩ := Option.map_eq_some_iff.mp found
    rfl

-- The fields of the two structs, entry by entry.
theorem localStruct_fields {made : ResourcesStruct} (built : localResourcesStruct ctxt app = some made) :
    ∃ args, ctxt.args app = some args ∧ args.localResources.mapM (localField ctxt app args.ident) = some made.fields := by
  obtain ⟨args,found,rest⟩ := Option.bind_eq_some_iff.mp built
  obtain ⟨taskName,named,rest⟩ := Option.bind_eq_some_iff.mp rest
  obtain ⟨fields,mapped,rest⟩ := Option.bind_eq_some_iff.mp rest
  obtain ⟨ident,_,built⟩ := Option.bind_eq_some_iff.mp rest
  rw [args_taskIdent found] at named
  cases named
  cases built
  exact ⟨args,found,mapped⟩

theorem sharedStruct_fields {made : ResourcesStruct} (built : sharedResourcesStruct ctxt app = some made) :
    ∃ args, ctxt.args app = some args ∧ args.sharedResources.mapM (sharedStructField ctxt app) = some made.fields := by
  unfold sharedResourcesStruct at built
  split at built
  · cases built
  · obtain ⟨args,found,rest⟩ := Option.bind_eq_some_iff.mp built
    obtain ⟨fields,mapped,rest⟩ := Option.bind_eq_some_iff.mp rest
    obtain ⟨name,_,rest⟩ := Option.bind_eq_some_iff.mp rest
    obtain ⟨ident,_,built⟩ := Option.bind_eq_some_iff.mp rest
    cases built
    exact ⟨args,found,mapped⟩

theorem contextItems_parts {items : ContextItems} (made : contextItems ctxt app analysis = some items) :
    (∀ locals ∈ items.locals.toList, localResourcesStruct ctxt app = some locals) ∧
    (∀ shared ∈ items.shared.toList, sharedResourcesStruct ctxt app = some shared) ∧
    taskIdent app ctxt = some items.module_.name := by
  obtain ⟨args,found,rest⟩ := Option.bind_eq_some_iff.mp made
  obtain ⟨locals,localMade,rest⟩ := Option.bind_eq_some_iff.mp rest
  obtain ⟨shared,sharedMade,rest⟩ := Option.bind_eq_some_iff.mp rest
  obtain ⟨module_,moduleMade,built⟩ := Option.bind_eq_some_iff.mp rest
  cases built
  refine ⟨fun own present => (onlyIf_some localMade present).2,fun own present => (onlyIf_some sharedMade present).2,?_⟩
  obtain ⟨name,named,rest⟩ := Option.bind_eq_some_iff.mp moduleMade
  obtain ⟨_,_,rest⟩ := Option.bind_eq_some_iff.mp rest
  obtain ⟨_,_,rest⟩ := Option.bind_eq_some_iff.mp rest
  obtain ⟨_,_,rest⟩ := Option.bind_eq_some_iff.mp rest
  obtain ⟨_,_,rest⟩ := Option.bind_eq_some_iff.mp rest
  obtain ⟨_,_,built⟩ := Option.bind_eq_some_iff.mp rest
  cases built
  exact named

theorem localField_parts {taskName : Ident} {entry : Ident × TaskLocal} {made : ResourceField}
    (built : localField ctxt app taskName entry = some made) :
    made.name = entry.1 ∧ made.field = .reference true ∧
      ((entry.2 = .external ∧ made.points = .local_ entry.1) ∨
        ∃ ty, entry.2 = .declared ty ∧ made.points = .declared entry.1 taskName) := by
  obtain ⟨name,kind⟩ := entry
  cases kind with
  | external =>
    obtain ⟨resource,_,rfl⟩ := Option.map_eq_some_iff.mp built
    exact ⟨rfl,rfl,Or.inl ⟨rfl,rfl⟩⟩
  | declared ty =>
    cases built
    exact ⟨rfl,rfl,Or.inr ⟨ty,rfl,rfl⟩⟩

theorem sharedStructField_parts {entry : Ident × Access} {made : ResourceField}
    (built : sharedStructField ctxt app entry = some made) :
    ∃ resource, get? app.sharedResources entry.1 = some resource ∧ made.name = entry.1 ∧
      made.field = sharedField resource entry.2 ∧ made.points = .shared entry.1 := by
  obtain ⟨resource,found,rfl⟩ := Option.map_eq_some_iff.mp built
  exact ⟨resource,found,rfl,rfl,rfl⟩

-- Where a reference in a context comes from.
inductive Origin (app : App) (args : Args) : Borrow Static → Prop where
  | external (listed : (name,TaskLocal.external) ∈ args.localResources) : Origin app args ⟨.local_ name,true⟩
  | declared (listed : (name,TaskLocal.declared ty) ∈ args.localResources) :
      Origin app args ⟨.declared name args.ident,true⟩
  | shared (listed : (name,access) ∈ args.sharedResources) (found : get? app.sharedResources name = some resource)
      (field : sharedField resource access = .reference mutable) : Origin app args ⟨.shared name,mutable⟩

theorem field_borrow {field : ResourceField} {b : Borrow Static} (made : field.borrow = some b) :
    field.field = .reference b.mutable ∧ field.points = b.place := by
  unfold ResourceField.borrow at made
  split at made
  · rename_i mutable kind
    cases made
    exact ⟨kind,rfl⟩
  · cases made

theorem local_origin {made : ResourcesStruct} (built : localResourcesStruct ctxt app = some made) {b : Borrow Static}
    (member : b ∈ made.borrows) : ∃ args, ctxt.args app = some args ∧ Origin app args b := by
  obtain ⟨args,found,mapped⟩ := localStruct_fields built
  obtain ⟨field,listed,borrowed⟩ := List.mem_filterMap.mp member
  obtain ⟨⟨name,kind⟩,own,fieldMade⟩ := mapM_origin mapped listed
  obtain ⟨_,mutable,points⟩ := localField_parts fieldMade
  obtain ⟨reference,place⟩ := field_borrow borrowed
  rw [mutable] at reference
  obtain ⟨place',mutable'⟩ := b
  simp only [Field.reference.injEq] at reference
  simp only at place
  subst reference place
  refine ⟨args,found,?_⟩
  rcases points with ⟨rfl,points⟩ | ⟨ty,rfl,points⟩
  · rw [points]
    exact .external own
  · rw [points]
    exact .declared own

theorem shared_origin {made : ResourcesStruct} (built : sharedResourcesStruct ctxt app = some made) {b : Borrow Static}
    (member : b ∈ made.borrows) : ∃ args, ctxt.args app = some args ∧ Origin app args b := by
  obtain ⟨args,found,mapped⟩ := sharedStruct_fields built
  obtain ⟨field,listed,borrowed⟩ := List.mem_filterMap.mp member
  obtain ⟨⟨name,access⟩,own,fieldMade⟩ := mapM_origin mapped listed
  obtain ⟨resource,declared,_,kind,points⟩ := sharedStructField_parts fieldMade
  obtain ⟨reference,place⟩ := field_borrow borrowed
  obtain ⟨place',mutable'⟩ := b
  simp only at place
  subst place
  refine ⟨args,found,?_⟩
  rw [points]
  exact .shared own declared (kind.symm.trans reference)

theorem items_origin {items : ContextItems} (made : contextItems ctxt app analysis = some items) {b : Borrow Static}
    (member : b ∈ items.borrows) : ∃ args, ctxt.args app = some args ∧ Origin app args b := by
  obtain ⟨locals,shared,_⟩ := contextItems_parts made
  obtain ⟨struct,present,listed⟩ := List.mem_flatMap.mp member
  rcases List.mem_append.mp present with own | own
  · exact local_origin (locals struct own) listed
  · exact shared_origin (shared struct own) listed

-- The references of one struct are to statics of different names.
theorem struct_distinct {made : ResourcesStruct} {names : List Ident} (distinct : names.Nodup)
    (fields : made.fields.map ResourceField.name = names) (own : ∀ field ∈ made.fields, staticName field.points = field.name) :
    (made.borrows.map Borrow.place).Nodup := by
  have points : (made.fields.map ResourceField.points).Nodup := by
    have named : (made.fields.map ResourceField.points).map staticName = names := by
      rw [List.map_map,← fields]
      exact List.map_congr_left own
    exact List.Nodup.of_map staticName (named ▸ distinct)
  have sub : (made.borrows.map Borrow.place).Sublist (made.fields.map ResourceField.points) := by
    unfold ResourcesStruct.borrows
    induction made.fields with
    | nil => exact .slnil
    | cons field fields ih =>
      cases borrowed : field.borrow with
      | none =>
        rw [List.filterMap_cons_none borrowed]
        exact ih.cons _
      | some b =>
        rw [List.filterMap_cons_some borrowed,List.map_cons,List.map_cons,(field_borrow borrowed).2]
        exact ih.cons_cons _
  exact sub.nodup points

theorem args_sharedKeyed (keyed : app.Keyed) {args : Args} (found : ctxt.args app = some args) :
    Keyed args.sharedResources := by
  cases ctxt with
  | init =>
    cases found
    exact List.nodup_nil
  | idle =>
    obtain ⟨idle,defined,rfl⟩ := Option.map_eq_some_iff.mp found
    exact keyed.idleShared idle defined
  | softwareTask name =>
    obtain ⟨task,defined,rfl⟩ := Option.map_eq_some_iff.mp found
    exact keyed.softwareShared _ (mem_of_get? defined)
  | hardwareTask name =>
    obtain ⟨task,defined,rfl⟩ := Option.map_eq_some_iff.mp found
    exact keyed.hardwareShared _ (mem_of_get? defined)

theorem localStruct_distinct (keyed : app.Keyed) {made : ResourcesStruct}
    (built : localResourcesStruct ctxt app = some made) : (made.borrows.map Borrow.place).Nodup := by
  obtain ⟨args,found,mapped⟩ := localStruct_fields built
  refine struct_distinct (Syntax.Analyze.context_keyed keyed (Syntax.Analyze.args_context found))
    (mapM_names mapped fun entry _ field fieldMade => (localField_parts fieldMade).1) fun field listed => ?_
  obtain ⟨entry,_,fieldMade⟩ := mapM_origin mapped listed
  obtain ⟨name,_,points⟩ := localField_parts fieldMade
  rcases points with ⟨_,points⟩ | ⟨_,_,points⟩ <;> rw [points,name] <;> rfl

theorem sharedStruct_distinct (keyed : app.Keyed) {made : ResourcesStruct}
    (built : sharedResourcesStruct ctxt app = some made) : (made.borrows.map Borrow.place).Nodup := by
  obtain ⟨args,found,mapped⟩ := sharedStruct_fields built
  refine struct_distinct (args_sharedKeyed keyed found) (mapM_names mapped fun entry _ field fieldMade => ?_)
    fun field listed => ?_
  · obtain ⟨_,_,name,_⟩ := sharedStructField_parts fieldMade
    exact name
  · obtain ⟨entry,_,fieldMade⟩ := mapM_origin mapped listed
    obtain ⟨_,_,name,_,points⟩ := sharedStructField_parts fieldMade
    rw [points,name]
    rfl

theorem struct_shared {made : ResourcesStruct} (built : sharedResourcesStruct ctxt app = some made) {b : Borrow Static}
    (member : b ∈ made.borrows) : ∃ name, b.place = .shared name := by
  obtain ⟨args,found,mapped⟩ := sharedStruct_fields built
  obtain ⟨field,listed,borrowed⟩ := List.mem_filterMap.mp member
  obtain ⟨entry,_,fieldMade⟩ := mapM_origin mapped listed
  obtain ⟨_,_,_,_,points⟩ := sharedStructField_parts fieldMade
  exact ⟨entry.1,(field_borrow borrowed).2.symm.trans points⟩

theorem struct_local {made : ResourcesStruct} (built : localResourcesStruct ctxt app = some made) {b : Borrow Static}
    (member : b ∈ made.borrows) (name : Ident) : b.place ≠ .shared name := by
  obtain ⟨args,found,mapped⟩ := localStruct_fields built
  obtain ⟨field,listed,borrowed⟩ := List.mem_filterMap.mp member
  obtain ⟨entry,_,fieldMade⟩ := mapM_origin mapped listed
  obtain ⟨_,_,points⟩ := localField_parts fieldMade
  rw [← (field_borrow borrowed).2]
  rcases points with ⟨_,points⟩ | ⟨_,_,points⟩ <;> rw [points] <;> exact nofun

-- One context by itself: each of its references is to a static of its own.
theorem items_separate (keyed : app.Keyed) {items : ContextItems} (made : contextItems ctxt app analysis = some items) :
    Separate items.borrows := by
  obtain ⟨locals,shared,_⟩ := contextItems_parts made
  unfold ContextItems.borrows
  rw [List.flatMap_append]
  refine separate_append.mpr ⟨?_,?_,?_⟩
  · cases own : items.locals with
    | none => exact List.Pairwise.nil
    | some struct =>
      simpa using separate_of_nodup (localStruct_distinct keyed (locals struct (by simp [own])))
  · cases own : items.shared with
    | none => exact List.Pairwise.nil
    | some struct =>
      simpa using separate_of_nodup (sharedStruct_distinct keyed (shared struct (by simp [own])))
  · intro a first b second
    obtain ⟨struct,own,listed⟩ := List.mem_flatMap.mp first
    obtain ⟨struct',own',listed'⟩ := List.mem_flatMap.mp second
    obtain ⟨name,place⟩ := struct_shared (shared struct' own') listed'
    exact .of_ne fun same => struct_local (locals struct own) listed name (same.trans place)

theorem sharedField_locked {resource : SharedResource} {access : Access} {mutable : Bool} (locked : resource.lockFree = false)
    (field : sharedField resource access = .reference mutable) : mutable = false := by
  cases mutable with
  | false => rfl
  | true =>
    rw [Syntax.Analyze.sharedField_mutable field] at locked
    cases locked

-- A `&` to a resource that is not lock-free is to one that no task locks.
theorem locked_apart (checked : Check.app app = .ok ()) {args : Args} (found : ctxt.args app = some args)
    {b : Borrow Static} (origin : Origin app args b) {task : Task} {name : Ident} (locks : Locks app task name) :
    b.place ≠ .shared name := by
  rintro place
  obtain ⟨resources,priority,resource,lists,listed,declared,locked⟩ := locks
  cases origin with
  | external => cases place
  | declared => cases place
  | shared own found' field =>
    rename_i name' access resource' mutable
    cases place
    rw [declared] at found'
    cases found'
    cases access with
    | exclusive => simp [sharedField,locked,Access.isShared] at field
    | shared =>
      have clash := (Check.app_parts checked).2.2.1 _ (args_access found own)
      have taken : name ∈ Check.exclusiveAccesses app :=
        List.mem_filterMap.mpr ⟨_,lists_access lists listed,rfl⟩
      simp [Check.bothAccesses,Access.isShared,taken] at clash

-- Two contexts: what they share is under `&`, or both are handlers of one level.
theorem contexts_apart (exclusive : ExclusiveUse app) (parsed : app.Parsed) (checked : Check.app app = .ok ())
    {other : Context} {args args' : Args} (found : ctxt.args app = some args) (found' : other.args app = some args')
    (differ : ctxt ≠ other) {a b : Borrow Static} (origin : Origin app args a) (origin' : Origin app args' b) :
    Compatible a b ∨ (args.priority = args'.priority ∧
      ∃ name resource, get? app.sharedResources name = some resource ∧ resource.lockFree = true ∧
        name ∈ args.sharedResources.map Prod.fst ∧ name ∈ args'.sharedResources.map Prod.fst) := by
  by_cases same : a.place = b.place
  · cases origin with
    | external listed =>
      cases origin' with
      | external listed' =>
        cases same
        obtain ⟨entry,declared,rfl⟩ := Syntax.Analyze.declared_local checked (Syntax.Analyze.args_context found) listed
        have only := Syntax.Analyze.member_unique (exclusive.oneUser entry declared)
          (List.mem_filter.mpr ⟨Syntax.Analyze.args_context found,decide_eq_true listed⟩)
          (List.mem_filter.mpr ⟨Syntax.Analyze.args_context found',decide_eq_true listed'⟩)
        exact absurd (Syntax.Analyze.same_context parsed.names found found' (congrArg Prod.fst only)) differ
      | declared => cases same
      | shared => cases same
    | declared listed =>
      cases origin' with
      | external => cases same
      | declared listed' =>
        injection same with _ ident
        exact absurd (Syntax.Analyze.same_context parsed.names found found' ident) differ
      | shared => cases same
    | shared listed declared field =>
      cases origin' with
      | external => cases same
      | declared => cases same
      | shared listed' declared' field' =>
        rename_i name access resource mutable name' access' resource' mutable'
        cases same
        rw [declared] at declared'
        cases declared'
        cases free : resource.lockFree with
        | true =>
          have here := List.mem_map_of_mem (f:=Prod.fst) listed
          have there := List.mem_map_of_mem (f:=Prod.fst) listed'
          refine Or.inr ⟨?_,name,resource,declared,free,here,there⟩
          exact exclusive.oneLevel _ (mem_of_get? declared) free _ (Syntax.Analyze.args_context found) _
            (Syntax.Analyze.args_context found') here there
        | false =>
          refine Or.inl fun _ => ⟨?_,?_⟩
          · exact sharedField_locked free field
          · exact sharedField_locked free field'
  · exact Or.inl (.of_ne same)

theorem codegen_parts {target : Target} {backend : Option RiscvSlic.BackendArgs} {generated : Generated}
    (made : codegen target backend app analysis = some generated) :
    main target backend app analysis = some generated.main ∧
    contextItems .init app analysis = some generated.init ∧
    onlyIf app.idle.isSome (contextItems .idle app analysis) = some generated.idle ∧
    app.hardwareTasks.mapM (hardwareTask target app analysis) = some generated.hardwareTasks ∧
    app.softwareTasks.mapM (fun task => contextItems (.softwareTask task.1) app analysis) =
      some generated.softwareTasks := by
  obtain ⟨main,mainMade,rest⟩ := Option.bind_eq_some_iff.mp made
  obtain ⟨init,initMade,rest⟩ := Option.bind_eq_some_iff.mp rest
  obtain ⟨idle,idleMade,rest⟩ := Option.bind_eq_some_iff.mp rest
  obtain ⟨shared,_,rest⟩ := Option.bind_eq_some_iff.mp rest
  obtain ⟨locals,_,rest⟩ := Option.bind_eq_some_iff.mp rest
  obtain ⟨hardware,hardwareMade,rest⟩ := Option.bind_eq_some_iff.mp rest
  obtain ⟨software,softwareMade,rest⟩ := Option.bind_eq_some_iff.mp rest
  obtain ⟨dispatchers,_,built⟩ := Option.bind_eq_some_iff.mp rest
  cases built
  exact ⟨mainMade,initMade,idleMade,hardwareMade,softwareMade⟩

-- The items under a name are those that were generated for the task of that name.
theorem items_context {target : Target} {backend : Option RiscvSlic.BackendArgs} {generated : Generated}
    (made : codegen target backend app analysis = some generated) {items : ContextItems}
    (found : generated.items ctxt = some items) : contextItems ctxt app analysis = some items := by
  obtain ⟨_,init,idle,hardware,software⟩ := codegen_parts made
  cases ctxt with
  | init =>
    cases found
    exact init
  | idle =>
    have own : generated.idle = some items := found
    exact (onlyIf_some idle (by simp [own])).2
  | hardwareTask name =>
    obtain ⟨task,at_,rfl⟩ := Option.map_eq_some_iff.mp found
    have named : task.items.module_.name = name := by simpa using List.find?_some at_
    obtain ⟨origin,_,built⟩ := mapM_origin hardware (List.mem_of_find?_eq_some at_)
    obtain ⟨own,here,rfl⟩ := Option.map_eq_some_iff.mp built
    have same : origin.1 = own.module_.name := Option.some.inj (contextItems_parts here).2.2
    rw [← named,← same]
    exact here
  | softwareTask name =>
    have named : items.module_.name = name := by simpa using List.find?_some found
    obtain ⟨origin,_,here⟩ := mapM_origin software (List.mem_of_find?_eq_some found)
    have same : origin.1 = items.module_.name := Option.some.inj (contextItems_parts here).2.2
    rw [← named,← same]
    exact here

theorem generated_origin {target : Target} {backend : Option RiscvSlic.BackendArgs} {generated : Generated}
    (made : codegen target backend app analysis = some generated) {b : Borrow Static}
    (member : b ∈ generated.borrows ctxt) : ∃ args, ctxt.args app = some args ∧ Origin app args b := by
  unfold Generated.borrows at member
  cases found : generated.items ctxt with
  | none =>
    rw [found] at member
    cases member
  | some items =>
    rw [found] at member
    exact items_origin (items_context made found) member

theorem generated_separate {target : Target} {backend : Option RiscvSlic.BackendArgs} {generated : Generated}
    (made : codegen target backend app analysis = some generated) (keyed : app.Keyed) :
    Separate (generated.borrows ctxt) := by
  unfold Generated.borrows
  cases found : generated.items ctxt with
  | none => exact List.Pairwise.nil
  | some items => exact items_separate keyed (items_context made found)

-- main allocates the executors of the software tasks, in their order.
theorem main_executors {target : Target} {backend : Option RiscvSlic.BackendArgs} {main_ : Main}
    (made : main target backend app analysis = some main_) :
    main_.executors.map Prod.fst = app.softwareTasks.map Prod.fst := by
  obtain ⟨extra,_,rest⟩ := Option.bind_eq_some_iff.mp made
  obtain ⟨executors,mapped,built⟩ := Option.bind_eq_some_iff.mp rest
  cases built
  refine mapM_names mapped fun task _ image found => ?_
  obtain ⟨_,_,rfl⟩ := Option.map_eq_some_iff.mp found
  rfl

end

end Rtic.Codegen
