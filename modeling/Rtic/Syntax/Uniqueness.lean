import Mathlib.Data.List.Nodup
import Rtic.Library.Accumulate
import Rtic.Syntax.ParseApp
namespace Rtic.Syntax.Syn
open Accumulate

-- What a module declares, one part for each item, and for each function of an extern block. An item that has several
-- of the attributes is what the first of them says, in the order of the parser.
inductive Part where
  | init (name : Ident)
  | idle (name : Ident)
  | task (name : Ident)
  | shared (item : ItemStruct)
  | local_ (item : ItemStruct)
  | import_ (item : ItemUse)
  | code (item : Item)

def fnParts (attrs : List Attribute) (ident : Ident) (otherwise : List Part) : List Part :=
  if attrs.any (attrEq · "init") then [.init ident]
  else if attrs.any (attrEq · "idle") then [.idle ident]
  else if attrs.any (attrEq · "task") then [.task ident]
  else otherwise

def structParts (item : ItemStruct) : List Part :=
  if item.attrs.any (attrEq · "shared") then [.shared item]
  else if item.attrs.any (attrEq · "local") then [.local_ item]
  else [.code (.struct_ item)]

def ForeignItem.parts : ForeignItem → List Part
  | .fn item => fnParts item.attrs item.sig.ident []
  | .other _ => []

def Item.parts : Item → List Part
  | .fn item => fnParts item.attrs item.sig.ident [.code (.fn item)]
  | .struct_ item => structParts item
  | .foreignMod mod => mod.items.flatMap ForeignItem.parts
  | .use_ item => [.import_ item]
  | .other tokens => [.code (.other tokens)]

namespace Part

def init? : Part → Option Ident
  | .init name => some name
  | _ => none
def idle? : Part → Option Ident
  | .idle name => some name
  | _ => none
def task? : Part → Option Ident
  | .task name => some name
  | _ => none
def shared? : Part → Option ItemStruct
  | .shared item => some item
  | _ => none
def local? : Part → Option ItemStruct
  | .local_ item => some item
  | _ => none
def import? : Part → Option ItemUse
  | .import_ item => some item
  | _ => none
def code? : Part → Option Item
  | .code item => some item
  | _ => none

end Part

def ItemStruct.named (self : ItemStruct) : List Field :=
  match self.fields with
  | .named fields => fields
  | _ => []

def ItemStruct.resources {A : Type} (parse : Field → A) (self : ItemStruct) : Map A :=
  self.named.map fun field => (field.ident,parse field)

-- What the variables for one kind of resource tell of its structs: only the last may have fields.
structure Collected {A : Type} (parse : Field → A) (structs : List ItemStruct) (ident : Option Ident) (vis : Visibility)
    (resources : Map A) : Prop where
  last : ident = structs.getLast?.map ItemStruct.ident
  visible : ∀ item ∈ structs.getLast?, vis = item.vis
  fields : resources = structs.flatMap (ItemStruct.resources parse)
  empty : ∀ item ∈ structs.dropLast, item.named = []
  distinct : (resources.map Prod.fst).Nodup

-- And those for the functions, of their names and of the arguments of the tasks.
structure Named (parsers : ArgsParsers) (inits idles tasks : List Ident) (init : Option Init) (idle : Option Idle)
    (hardwareTasks : Map HardwareTask) (softwareTasks : Map SoftwareTask) (seenIdents bindings : List Ident) : Prop where
  initName : init.toList.map Init.name = inits
  idleName : idle.toList.map Idle.name = idles
  taskNames : (hardwareTasks.map Prod.fst++softwareTasks.map Prod.fst).Perm tasks
  distinct : seenIdents.Nodup
  all : seenIdents.Perm (inits++idles++tasks)
  bound : bindings.Nodup
  binds : hardwareTasks.map (fun task => task.2.args.binds) = bindings
  hardwareArgs : ∀ task ∈ hardwareTasks, ∃ tokens, parsers.taskArgs tokens = .ok (.inl task.2.args)
  softwareArgs : ∀ task ∈ softwareTasks, ∃ tokens, parsers.taskArgs tokens = .ok (.inr task.2.args)

-- What the variables of the parser tell of the parts that it has seen.
structure Tells (parsers : ArgsParsers) (parts : List Part) (s : ParseState) : Prop where
  names : Named parsers (parts.filterMap Part.init?) (parts.filterMap Part.idle?) (parts.filterMap Part.task?)
    s.init s.idle s.hardwareTasks s.softwareTasks s.seenIdents s.bindings
  shared : Collected SharedResource.parse (parts.filterMap Part.shared?)
    s.sharedResourcesIdent s.sharedResourcesVis s.sharedResources
  local_ : Collected LocalResource.parse (parts.filterMap Part.local?)
    s.localResourcesIdent s.localResourcesVis s.localResources
  imports : s.userImports = parts.filterMap Part.import?
  code : s.userCode = parts.filterMap Part.code?

section
variable {parsers : ArgsParsers} {parts : List Part} {s t : ParseState} {attrs : List Attribute} {attr : Attribute}
  {ident : Ident}

theorem takeAttr_isSome {name : String} : (takeAttr name attrs).isSome = attrs.any (attrEq · name) := by
  induction attrs with
  | nil => rfl
  | cons attr attrs ih =>
    unfold takeAttr
    rw [List.any_cons]
    cases attrEq attr name with
    | true => rfl
    | false => simpa using ih

theorem checkUnused_ok {message : String} {seen next : List Ident} (checked : checkUnused message seen ident = .ok next) :
    ident ∉ seen ∧ next = seen++[ident] := by
  unfold checkUnused at checked
  split at checked
  · cases checked
  · rename_i fresh
    cases checked
    exact ⟨fresh,rfl⟩

section
variable {inits idles tasks seen bindings : List Ident} {init : Option Init} {idle : Option Idle} {hardware : Map HardwareTask}
  {software : Map SoftwareTask}

theorem filterMap_snoc {α : Type} (f : Part → Option α) (part : Part) : (parts++[part]).filterMap f =
    match f part with
    | some a => parts.filterMap f++[a]
    | none => parts.filterMap f := by
  rw [List.filterMap_append]
  cases found : f part <;> simp [found]

theorem nodup_concat (distinct : seen.Nodup) (fresh : ident ∉ seen) : (seen++[ident]).Nodup :=
  List.nodup_append.mpr ⟨distinct,by simp,fun a old b new same => by
    cases List.mem_singleton.mp new
    exact fresh (same ▸ old)⟩

theorem Named.addInit (named : Named parsers inits idles tasks none idle hardware software seen bindings) (fresh : ident ∉ seen)
    {made : Init} (name : made.name = ident) :
    Named parsers (inits++[ident]) idles tasks (some made) idle hardware software (seen++[ident]) bindings := by
  have first : inits = [] := named.initName.symm
  refine ⟨?_,named.idleName,named.taskNames,nodup_concat named.distinct fresh,?_,named.bound,named.binds,
    named.hardwareArgs,named.softwareArgs⟩
  · rw [first,← name]
    rfl
  · have all := named.all
    rw [first] at all ⊢
    exact (List.perm_append_singleton ident seen).trans (all.cons ident)

theorem Named.addIdle (named : Named parsers inits idles tasks init none hardware software seen bindings) (fresh : ident ∉ seen)
    {made : Idle} (name : made.name = ident) :
    Named parsers inits (idles++[ident]) tasks init (some made) hardware software (seen++[ident]) bindings := by
  have first : idles = [] := named.idleName.symm
  refine ⟨named.initName,?_,named.taskNames,nodup_concat named.distinct fresh,?_,named.bound,named.binds,
    named.hardwareArgs,named.softwareArgs⟩
  · rw [first,← name]
    rfl
  · have all := named.all
    rw [first,List.append_nil] at all
    rw [first,List.nil_append,List.append_assoc]
    exact (List.perm_append_singleton ident seen).trans ((all.cons ident).trans List.perm_middle.symm)

theorem Named.addHardware (named : Named parsers inits idles tasks init idle hardware software seen bindings)
    (fresh : ident ∉ seen) {made : HardwareTask} (absent : Ordered.containsKey hardware ident = false)
    (unbound : made.args.binds ∉ bindings) (answered : ∃ tokens, parsers.taskArgs tokens = .ok (.inl made.args)) :
    Named parsers inits idles (tasks++[ident]) init idle (Ordered.insert hardware ident made) software (seen++[ident])
      (bindings++[made.args.binds]) := by
  rw [Ordered.insert_absent absent]
  refine ⟨named.initName,named.idleName,?_,nodup_concat named.distinct fresh,?_,nodup_concat named.bound unbound,?_,?_,
    named.softwareArgs⟩
  · rw [List.map_append,List.append_assoc]
    exact List.perm_middle.trans ((named.taskNames.cons ident).trans (List.perm_append_singleton ident tasks).symm)
  · rw [← List.append_assoc]
    exact named.all.append_right [ident]
  · rw [List.map_append,named.binds]
    rfl
  · exact List.forall_mem_append.mpr ⟨named.hardwareArgs,List.forall_mem_singleton.mpr answered⟩

theorem Named.addSoftware (named : Named parsers inits idles tasks init idle hardware software seen bindings)
    (fresh : ident ∉ seen) {made : SoftwareTask} (absent : Ordered.containsKey software ident = false)
    (answered : ∃ tokens, parsers.taskArgs tokens = .ok (.inr made.args)) :
    Named parsers inits idles (tasks++[ident]) init idle hardware (Ordered.insert software ident made) (seen++[ident])
      bindings := by
  rw [Ordered.insert_absent absent]
  refine ⟨named.initName,named.idleName,?_,nodup_concat named.distinct fresh,?_,named.bound,named.binds,named.hardwareArgs,?_⟩
  · rw [List.map_append,← List.append_assoc]
    exact named.taskNames.append_right [ident]
  · rw [← List.append_assoc]
    exact named.all.append_right [ident]
  · exact List.forall_mem_append.mpr ⟨named.softwareArgs,List.forall_mem_singleton.mpr answered⟩
end

-- A function leaves all that is not about names as it is.
theorem Tells.function {part : Part} (tells : Tells parsers parts s)
    (other : part.shared? = none ∧ part.local? = none ∧ part.import? = none ∧ part.code? = none)
    (frame : t = {s with
      init := t.init
      idle := t.idle
      hardwareTasks := t.hardwareTasks
      softwareTasks := t.softwareTasks
      seenIdents := t.seenIdents
      bindings := t.bindings})
    (names : Named parsers ((parts++[part]).filterMap Part.init?) ((parts++[part]).filterMap Part.idle?)
      ((parts++[part]).filterMap Part.task?) t.init t.idle t.hardwareTasks t.softwareTasks t.seenIdents t.bindings) :
    Tells parsers (parts++[part]) t := by
  obtain ⟨shared,local_,import_,code⟩ := other
  refine ⟨names,?_,?_,?_,?_⟩
  · rw [frame,filterMap_snoc,shared]
    exact tells.shared
  · rw [frame,filterMap_snoc,local_]
    exact tells.local_
  · rw [frame,filterMap_snoc,import_]
    exact tells.imports
  · rw [frame,filterMap_snoc,code]
    exact tells.code

theorem initFn_tells {parse : InitArgs → Except ParseError Init} (tells : Tells parsers parts s)
    (named : ∀ args init, parse args = .ok init → init.name = ident) (result : s.initFn parsers attr ident parse = .ok t) :
    Tells parsers (parts++[.init ident]) t := by
  unfold ParseState.initFn at result
  obtain ⟨args,_,result⟩ := bind_ok.mp result
  obtain ⟨none_,result⟩ := guard_ok.mp result
  obtain ⟨seen,checked,result⟩ := bind_ok.mp result
  obtain ⟨init,parsed,result⟩ := bind_ok.mp result
  obtain ⟨fresh,rfl⟩ := checkUnused_ok checked
  cases result
  have names := tells.names
  rw [Option.not_isSome_iff_eq_none.mp none_] at names
  refine tells.function ⟨rfl,rfl,rfl,rfl⟩ rfl ?_
  simp only [filterMap_snoc]
  exact names.addInit fresh (named args init parsed)

theorem idleFn_tells {parse : IdleArgs → Except ParseError Idle} (tells : Tells parsers parts s)
    (named : ∀ args idle, parse args = .ok idle → idle.name = ident) (result : s.idleFn parsers attr ident parse = .ok t) :
    Tells parsers (parts++[.idle ident]) t := by
  unfold ParseState.idleFn at result
  obtain ⟨args,_,result⟩ := bind_ok.mp result
  obtain ⟨none_,result⟩ := guard_ok.mp result
  obtain ⟨seen,checked,result⟩ := bind_ok.mp result
  obtain ⟨idle,parsed,result⟩ := bind_ok.mp result
  obtain ⟨fresh,rfl⟩ := checkUnused_ok checked
  cases result
  have names := tells.names
  rw [Option.not_isSome_iff_eq_none.mp none_] at names
  refine tells.function ⟨rfl,rfl,rfl,rfl⟩ rfl ?_
  simp only [filterMap_snoc]
  exact names.addIdle fresh (named args idle parsed)

theorem hardwareTask_tells {args : HardwareTaskArgs} {parse : HardwareTaskArgs → Except ParseError HardwareTask}
    (tells : Tells parsers parts s) (free : s.isTask ident = false)
    (answered : ∃ tokens, parsers.taskArgs tokens = .ok (.inl args))
    (kept : ∀ task, parse args = .ok task → task.args = args) (result : s.hardwareTask ident args parse = .ok t) :
    Tells parsers (parts++[.task ident]) t := by
  unfold ParseState.hardwareTask at result
  obtain ⟨bindings,bound,result⟩ := bind_ok.mp result
  obtain ⟨seen,checked,result⟩ := bind_ok.mp result
  obtain ⟨task,parsed,result⟩ := bind_ok.mp result
  obtain ⟨unbound,rfl⟩ := checkUnused_ok bound
  obtain ⟨fresh,rfl⟩ := checkUnused_ok checked
  cases result
  have absent := (Bool.or_eq_false_iff.mp free).1
  cases kept task parsed
  refine tells.function ⟨rfl,rfl,rfl,rfl⟩ rfl ?_
  simp only [filterMap_snoc]
  exact tells.names.addHardware fresh absent unbound answered

theorem softwareTask_tells {args : SoftwareTaskArgs} {parse : SoftwareTaskArgs → Except ParseError SoftwareTask}
    (tells : Tells parsers parts s) (free : s.isTask ident = false)
    (answered : ∃ tokens, parsers.taskArgs tokens = .ok (.inr args))
    (kept : ∀ task, parse args = .ok task → task.args = args) (result : s.softwareTask ident args parse = .ok t) :
    Tells parsers (parts++[.task ident]) t := by
  unfold ParseState.softwareTask at result
  obtain ⟨seen,checked,result⟩ := bind_ok.mp result
  obtain ⟨task,parsed,result⟩ := bind_ok.mp result
  obtain ⟨fresh,rfl⟩ := checkUnused_ok checked
  cases result
  have absent := (Bool.or_eq_false_iff.mp free).2
  cases kept task parsed
  refine tells.function ⟨rfl,rfl,rfl,rfl⟩ rfl ?_
  simp only [filterMap_snoc]
  exact tells.names.addSoftware fresh absent answered

theorem namedFields_ok {A : Type} {parse : Field → A} {fields : List Field} {resources next : Map A}
    (distinct : (resources.map Prod.fst).Nodup)
    (result : fields.foldlM (ParseState.namedField parse) resources = .ok next) :
    next = resources++(fields.map fun field => (field.ident,parse field)) ∧ (next.map Prod.fst).Nodup := by
  induction fields generalizing resources with
  | nil =>
    cases result
    exact ⟨(List.append_nil _).symm,distinct⟩
  | cons field fields ih =>
    rw [List.foldlM_cons] at result
    obtain ⟨between,first,result⟩ := bind_ok.mp result
    obtain ⟨absent,first⟩ := guard_ok.mp first
    cases first
    have absent := eq_false_of_ne_true absent
    have fresh : field.ident ∉ resources.map Prod.fst := fun member =>
      Bool.false_ne_true (absent.symm.trans (Ordered.containsKey_iff.mpr member))
    rw [Ordered.insert_absent absent] at result
    have kept : ((resources++[(field.ident,parse field)]).map Prod.fst).Nodup := by
      rw [List.map_append]
      exact nodup_concat distinct fresh
    obtain ⟨rfl,all⟩ := ih kept result
    exact ⟨by simp,all⟩

theorem Collected.add {A : Type} {parse : Field → A} {structs : List ItemStruct} {last : Option Ident} {vis : Visibility}
    {resources next : Map A} {item : ItemStruct} {fields : List Field} (collected : Collected parse structs last vis resources)
    (empty : resources.isEmpty = true) (named : item.fields = .named fields)
    (result : fields.foldlM (ParseState.namedField parse) resources = .ok next) :
    Collected parse (structs++[item]) (some item.ident) item.vis next := by
  obtain ⟨rfl,distinct⟩ := namedFields_ok collected.distinct result
  have nothing : resources = [] := List.isEmpty_iff.mp empty
  have own : item.named = fields := by rw [ItemStruct.named,named]
  have before := collected.fields
  rw [nothing] at before
  refine ⟨by simp,by simp,?_,?_,distinct⟩
  · rw [List.flatMap_append,← before,nothing,List.flatMap_singleton,ItemStruct.resources,own]
  · rw [List.dropLast_concat]
    intro other member
    exact List.map_eq_nil_iff.mp (List.flatMap_eq_nil_iff.mp before.symm other member)

-- The two kinds of struct are collected alike.
theorem resourceStruct_ok {A B : Type} {parse : Field → A} {resources : Map A} {item : ItemStruct} {made : Map A → B}
    {unnamed again : ParseError} {b : B}
    (result : (if resources.isEmpty then
        match item.fields with
        | .named fields => do
          let next ← fields.foldlM (ParseState.namedField parse) resources
          return made next
        | _ => throw unnamed
      else throw again) = .ok b) :
    resources.isEmpty = true ∧ ∃ fields next, item.fields = .named fields ∧
      fields.foldlM (ParseState.namedField parse) resources = .ok next ∧ b = made next := by
  split at result
  · rename_i empty
    split at result
    · rename_i fields named
      obtain ⟨next,collected,result⟩ := bind_ok.mp result
      cases result
      exact ⟨empty,fields,next,named,collected,rfl⟩
    · cases result
  · cases result

theorem sharedStruct_tells {item : ItemStruct} (tells : Tells parsers parts s) (result : s.sharedStruct item = .ok t) :
    Tells parsers (parts++[.shared item]) t := by
  unfold ParseState.sharedStruct at result
  obtain ⟨empty,fields,next,named,collected,rfl⟩ := resourceStruct_ok result
  have shared := tells.shared.add empty named collected
  refine ⟨?_,?_,?_,?_,?_⟩ <;> simp only [filterMap_snoc]
  · exact tells.names
  · exact shared
  · exact tells.local_
  · exact tells.imports
  · exact tells.code

theorem localStruct_tells {item : ItemStruct} (tells : Tells parsers parts s) (result : s.localStruct item = .ok t) :
    Tells parsers (parts++[.local_ item]) t := by
  unfold ParseState.localStruct at result
  obtain ⟨empty,fields,next,named,collected,rfl⟩ := resourceStruct_ok result
  have local_ := tells.local_.add empty named collected
  refine ⟨?_,?_,?_,?_,?_⟩ <;> simp only [filterMap_snoc]
  · exact tells.names
  · exact tells.shared
  · exact local_
  · exact tells.imports
  · exact tells.code

theorem Tells.import_ {item : ItemUse} (tells : Tells parsers parts s) :
    Tells parsers (parts++[.import_ item]) {s with userImports := s.userImports++[item]} := by
  refine ⟨?_,?_,?_,?_,?_⟩ <;> simp only [filterMap_snoc]
  · exact tells.names
  · exact tells.shared
  · exact tells.local_
  · exact congrArg (·++[item]) tells.imports
  · exact tells.code

theorem Tells.code_ {item : Item} (tells : Tells parsers parts s) :
    Tells parsers (parts++[.code item]) {s with userCode := s.userCode++[item]} := by
  refine ⟨?_,?_,?_,?_,?_⟩ <;> simp only [filterMap_snoc]
  · exact tells.names
  · exact tells.shared
  · exact tells.local_
  · exact tells.imports
  · exact congrArg (·++[item]) tells.code

theorem struct_tells {item : ItemStruct} (tells : Tells parsers parts s) (result : s.struct_ item = .ok t) :
    Tells parsers (parts++(Item.struct_ item).parts) t := by
  unfold ParseState.struct_ at result
  change Tells parsers (parts++structParts item) t
  unfold structParts
  split at result
  · rename_i shared
    rw [if_pos shared]
    exact sharedStruct_tells tells result
  · rename_i notShared
    rw [if_neg notShared]
    split at result
    · rename_i local_
      rw [if_pos local_]
      exact localStruct_tells tells result
    · rename_i neither
      rw [if_neg neither]
      cases result
      exact tells.code_

-- The attributes are looked for in the order that fnParts has.
theorem fnParts_of {A : Type} {p : List Part → Prop} {otherwise : List Part}
    {init idle task : Attribute → List Attribute → Except ParseError A} {neither : Except ParseError A} {a : A}
    (result : (match takeAttr "init" attrs,takeAttr "idle" attrs,takeAttr "task" attrs with
      | some (attr,attrs),_,_ => init attr attrs
      | none,some (attr,attrs),_ => idle attr attrs
      | none,none,some (attr,attrs) => task attr attrs
      | none,none,none => neither) = .ok a)
    (isInit : ∀ attr attrs, init attr attrs = .ok a → p [.init ident])
    (isIdle : ∀ attr attrs, idle attr attrs = .ok a → p [.idle ident])
    (isTask : ∀ attr attrs, task attr attrs = .ok a → p [.task ident])
    (isNeither : neither = .ok a → p otherwise) : p (fnParts attrs ident otherwise) := by
  unfold fnParts
  simp only [← takeAttr_isSome]
  cases first : takeAttr "init" attrs with
  | some taken =>
    rw [first] at result
    exact isInit _ _ result
  | none =>
    cases second : takeAttr "idle" attrs with
    | some taken =>
      rw [first,second] at result
      exact isIdle _ _ result
    | none =>
      cases third : takeAttr "task" attrs with
      | some taken =>
        rw [first,second,third] at result
        exact isTask _ _ result
      | none =>
        rw [first,second,third] at result
        exact isNeither result

theorem initOf_made {args : InitArgs} {sig : Signature} {stmts : List Stmt} {isExtern valid : Bool} {init : Init}
    (parsed : initOf args attrs sig stmts isExtern valid = .ok init) : init.name = sig.ident ∧ init.args = args := by
  unfold initOf at parsed
  dsimp only at parsed
  split at parsed
  · split at parsed
    · cases parsed
      exact ⟨rfl,rfl⟩
    · cases parsed
  · cases parsed

theorem idleOf_made {args : IdleArgs} {sig : Signature} {stmts : List Stmt} {isExtern valid : Bool} {idle : Idle}
    (parsed : idleOf args attrs sig stmts isExtern valid = .ok idle) : idle.name = sig.ident ∧ idle.args = args := by
  unfold idleOf at parsed
  dsimp only at parsed
  split at parsed
  · split at parsed
    · cases parsed
      exact ⟨rfl,rfl⟩
    · cases parsed
  · cases parsed

theorem hardwareTaskOf_args {args : HardwareTaskArgs} {sig : Signature} {stmts : List Stmt} {isExtern valid : Bool}
    {task : HardwareTask} (parsed : hardwareTaskOf args attrs sig stmts isExtern valid = .ok task) : task.args = args := by
  unfold hardwareTaskOf at parsed
  dsimp only at parsed
  split at parsed
  · split at parsed
    · cases parsed
      rfl
    · cases parsed
  · cases parsed

theorem softwareTaskOf_args {args : SoftwareTaskArgs} {sig : Signature} {stmts : List Stmt} {isExtern valid : Bool}
    {task : SoftwareTask} (parsed : softwareTaskOf args attrs sig stmts isExtern valid = .ok task) : task.args = args := by
  unfold softwareTaskOf at parsed
  dsimp only at parsed
  split at parsed
  · split at parsed
    · cases parsed
      rfl
    · cases parsed
  · cases parsed

theorem taskFn_tells {hardware : HardwareTaskArgs → Except ParseError HardwareTask}
    {software : SoftwareTaskArgs → Except ParseError SoftwareTask} (tells : Tells parsers parts s)
    (free : ¬ s.isTask ident = true)
    (hardwareKept : ∀ args task, hardware args = .ok task → task.args = args)
    (softwareKept : ∀ args task, software args = .ok task → task.args = args)
    (result : (do
      match ← parsers.taskArgs attr.parseArgs with
      | .inl args => s.hardwareTask ident args hardware
      | .inr args => s.softwareTask ident args software) = .ok t) : Tells parsers (parts++[.task ident]) t := by
  have free := eq_false_of_ne_true free
  obtain ⟨args,answer,result⟩ := bind_ok.mp result
  cases args with
  | inl args => exact hardwareTask_tells tells free ⟨_,answer⟩ (hardwareKept args) result
  | inr args => exact softwareTask_tells tells free ⟨_,answer⟩ (softwareKept args) result

theorem fn_tells {item : ItemFn} (tells : Tells parsers parts s) (result : s.fn parsers item = .ok t) :
    Tells parsers (parts++(Item.fn item).parts) t := by
  unfold ParseState.fn at result
  refine fnParts_of (p:=fun own => Tells parsers (parts++own) t) result ?_ ?_ ?_ ?_
  · exact fun _ _ result => initFn_tells tells (fun _ _ parsed => (initOf_made parsed).1) result
  · exact fun _ _ result => idleFn_tells tells (fun _ _ parsed => (idleOf_made parsed).1) result
  · intro _ _ result
    obtain ⟨free,result⟩ := guard_ok.mp result
    exact taskFn_tells tells free (fun _ _ parsed => hardwareTaskOf_args parsed) (fun _ _ parsed => softwareTaskOf_args parsed)
      result
  · intro result
    cases result
    exact tells.code_

theorem foreignItem_tells (seen : List Part) (s : ParseState) (item : ForeignItem) (t : ParseState)
    (tells : Tells parsers seen s) (result : s.foreignItem parsers item = .ok t) : Tells parsers (seen++item.parts) t := by
  cases item with
  | other tokens => cases result
  | fn item =>
    change s.foreignFn parsers item = _ at result
    unfold ParseState.foreignFn at result
    refine fnParts_of (p:=fun own => Tells parsers (seen++own) t) result ?_ ?_ ?_ ?_
    · exact fun _ _ result => initFn_tells tells (fun _ _ parsed => (initOf_made parsed).1) result
    · exact fun _ _ result => idleFn_tells tells (fun _ _ parsed => (idleOf_made parsed).1) result
    · intro _ _ result
      obtain ⟨free,result⟩ := guard_ok.mp result
      obtain ⟨_,result⟩ := guard_ok.mp result
      exact taskFn_tells tells free (fun _ _ parsed => hardwareTaskOf_args parsed) (fun _ _ parsed => softwareTaskOf_args parsed)
        result
    · exact nofun

theorem item_tells (seen : List Part) (s : ParseState) (item : Item) (t : ParseState) (tells : Tells parsers seen s)
    (result : s.item parsers item = .ok t) : Tells parsers (seen++item.parts) t := by
  cases item with
  | fn item => exact fn_tells tells result
  | struct_ item => exact struct_tells tells result
  | foreignMod mod =>
    change (if abiIsRust mod.abi = true then mod.items.foldlM (ParseState.foreignItem parsers) s else throw _) = _ at result
    split at result
    · exact foldlM_parts foreignItem_tells tells result
    · cases result
  | use_ item =>
    cases result
    exact tells.import_
  | other tokens =>
    cases result
    exact tells.code_

theorem new_tells : Tells parsers [] ParseState.new :=
  ⟨⟨rfl,rfl,.nil,.nil,.nil,.nil,rfl,nofun,nofun⟩,⟨rfl,nofun,rfl,nofun,.nil⟩,⟨rfl,nofun,rfl,nofun,.nil⟩,rfl,rfl⟩

theorem foreignItem_declares {item : ForeignItem} (result : s.foreignItem parsers item = .ok t) : item.parts ≠ [] := by
  cases item with
  | other tokens => cases result
  | fn item =>
    change s.foreignFn parsers item = _ at result
    unfold ParseState.foreignFn at result
    refine fnParts_of (p:=(· ≠ [])) result ?_ ?_ ?_ nofun
    all_goals exact fun _ _ _ => List.cons_ne_nil _ _
end

section
variable (items : List Item)

def declaredParts : List Part := items.flatMap Item.parts
def initFns : List Ident := (declaredParts items).filterMap Part.init?
def idleFns : List Ident := (declaredParts items).filterMap Part.idle?
def taskFns : List Ident := (declaredParts items).filterMap Part.task?
def sharedStructs : List ItemStruct := (declaredParts items).filterMap Part.shared?
def localStructs : List ItemStruct := (declaredParts items).filterMap Part.local?
end

def App.Has (self : App) : Part → Prop
  | .init name => name = self.init.name
  | .idle name => some name = self.idle.map Idle.name
  | .task name => name ∈ self.hardwareTasks.map Prod.fst++self.softwareTasks.map Prod.fst
  | .shared item => item.ident = self.init.userSharedStruct ∧ item.vis = self.sharedResourcesVis ∧
    item.resources SharedResource.parse = self.sharedResources
  | .local_ item => item.ident = self.init.userLocalStruct ∧ item.vis = self.localResourcesVis ∧
    item.resources LocalResource.parse = self.localResources
  | .import_ item => item ∈ self.userImports
  | .code item => item ∈ self.userCode

-- An extern block is accounted for by its functions, of which it has to have some.
def App.Accounts (self : App) : Item → Prop
  | .foreignMod mod => mod.items ≠ [] ∧ ∀ item ∈ mod.items, item.parts ≠ [] ∧ ∀ part ∈ item.parts, self.Has part
  | item => item.parts ≠ [] ∧ ∀ part ∈ item.parts, self.Has part

structure Enforced (items : List Item) (app : App) : Prop where
  init : (initFns items).length = 1
  idle : (idleFns items).length ≤ 1
  shared : (sharedStructs items).length = 1
  local_ : (localStructs items).length = 1
  names : (initFns items++idleFns items++taskFns items).Nodup
  binds : (app.hardwareTasks.map fun task => task.2.args.binds).Nodup
  sharedFields : ∀ item ∈ sharedStructs items, (item.named.map Field.ident).Nodup
  localFields : ∀ item ∈ localStructs items, (item.named.map Field.ident).Nodup
  accounts : ∀ item ∈ items, app.Accounts item

-- No struct without fields comes before another of its kind, and no extern block is empty.
structure Undiscarded (items : List Item) : Prop where
  shared : (sharedStructs items).Pairwise fun earlier _ => earlier.named ≠ []
  local_ : (localStructs items).Pairwise fun earlier _ => earlier.named ≠ []
  blocks : ∀ mod, .foreignMod mod ∈ items → mod.items ≠ []

section
variable {parsers : ArgsParsers} {args : AppArgs} {input : Input} {app : App} {s : ParseState} {parts : List Part}

-- What App::parse returns is what the variables hold.
structure Finished (s : ParseState) (app : App) : Prop where
  init : s.init = some app.init
  idle : app.idle = s.idle
  shared : s.sharedResourcesIdent = some app.init.userSharedStruct
  sharedVis : app.sharedResourcesVis = s.sharedResourcesVis
  sharedResources : app.sharedResources = s.sharedResources
  local_ : s.localResourcesIdent = some app.init.userLocalStruct
  localVis : app.localResourcesVis = s.localResourcesVis
  localResources : app.localResources = s.localResources
  imports : app.userImports = s.userImports
  code : app.userCode = s.userCode
  hardware : app.hardwareTasks = s.hardwareTasks
  software : app.softwareTasks = s.softwareTasks

theorem finish_finished (result : s.finish args input = some (.ok app)) : Finished s app := by
  unfold ParseState.finish at result
  obtain ⟨shared,shared_,result⟩ := Option.bind_eq_some_iff.mp result
  obtain ⟨local_,local__,result⟩ := Option.bind_eq_some_iff.mp result
  obtain ⟨init,init_,result⟩ := Option.bind_eq_some_iff.mp result
  split at result
  · cases result
  · rename_i sharedSame
    split at result
    · cases result
    · rename_i localSame
      cases result
      exact ⟨init_,rfl,not_not.mp sharedSame ▸ shared_,rfl,rfl,not_not.mp localSame ▸ local__,rfl,rfl,rfl,rfl,rfl,rfl⟩

theorem parse_finished (parsed : App.parse parsers args input = some (.ok app)) : ∃ s,
    Tells parsers (declaredParts input.items) s ∧ Finished s app ∧ ∀ item ∈ input.items, ∃ before after, ParseState.item parsers before item = .ok after := by
  unfold App.parse at parsed
  split at parsed
  · cases parsed
  · rename_i state loop
    have tells : Tells parsers (declaredParts input.items) state := foldlM_parts item_tells new_tells loop
    exact ⟨state,tells,finish_finished parsed,foldlM_each loop⟩

section
variable {A : Type} {parse : Field → A} {structs : List ItemStruct} {name : Ident} {vis : Visibility} {resources : Map A}

theorem Collected.single_iff (collected : Collected parse structs (some name) vis resources) :
    structs.length = 1 ↔ structs.Pairwise fun earlier _ => earlier.named ≠ [] := by
  match structs with
  | [] => cases collected.last
  | [item] => exact iff_of_true rfl (List.pairwise_singleton _ _)
  | first::second::rest =>
    refine iff_of_false (by simp) fun pairwise => ?_
    have empty := collected.empty first (by simp)
    exact (List.pairwise_cons.mp pairwise).1 second List.mem_cons_self empty

theorem Collected.of_single {item : ItemStruct} (collected : Collected parse [item] (some name) vis resources) :
    item.ident = name ∧ item.vis = vis ∧ item.resources parse = resources := by
  refine ⟨(Option.some.inj collected.last).symm,(collected.visible item rfl).symm,?_⟩
  rw [collected.fields,List.flatMap_singleton]

theorem Collected.fields_distinct {last : Option Ident} (collected : Collected parse structs last vis resources) :
    ∀ item ∈ structs, (item.named.map Field.ident).Nodup := by
  intro item member
  have names : (item.resources parse).map Prod.fst = item.named.map Field.ident := by simp [ItemStruct.resources]
  have distinct := collected.distinct
  rw [collected.fields,List.map_flatMap] at distinct
  exact names ▸ (List.nodup_flatMap.mp distinct).1 item member
end

theorem app_has (tells : Tells parsers parts s) (finished : Finished s app) (shared : (parts.filterMap Part.shared?).length = 1)
    (local_ : (parts.filterMap Part.local?).length = 1) : ∀ part ∈ parts, app.Has part := by
  intro part member
  have names := tells.names
  cases part with
  | init name =>
    have found : name ∈ parts.filterMap Part.init? := List.mem_filterMap.mpr ⟨_,member,rfl⟩
    rw [← names.initName,finished.init] at found
    exact List.mem_singleton.mp found
  | idle name =>
    have found : name ∈ parts.filterMap Part.idle? := List.mem_filterMap.mpr ⟨_,member,rfl⟩
    rw [← names.idleName,← finished.idle] at found
    change some name = app.idle.map Idle.name
    cases idle : app.idle with
    | none =>
      rw [idle] at found
      cases found
    | some idle_ =>
      rw [idle] at found
      exact congrArg some (List.mem_singleton.mp found)
  | task name =>
    have found : name ∈ parts.filterMap Part.task? := List.mem_filterMap.mpr ⟨_,member,rfl⟩
    have found := names.taskNames.mem_iff.mpr found
    rwa [← finished.hardware,← finished.software] at found
  | shared item =>
    have found : item ∈ parts.filterMap Part.shared? := List.mem_filterMap.mpr ⟨_,member,rfl⟩
    obtain ⟨only,single⟩ := List.length_eq_one_iff.mp shared
    have collected := tells.shared
    rw [single] at found collected
    cases List.mem_singleton.mp found
    rw [finished.shared,← finished.sharedVis,← finished.sharedResources] at collected
    exact collected.of_single
  | local_ item =>
    have found : item ∈ parts.filterMap Part.local? := List.mem_filterMap.mpr ⟨_,member,rfl⟩
    obtain ⟨only,single⟩ := List.length_eq_one_iff.mp local_
    have collected := tells.local_
    rw [single] at found collected
    cases List.mem_singleton.mp found
    rw [finished.local_,← finished.localVis,← finished.localResources] at collected
    exact collected.of_single
  | import_ item =>
    have found : item ∈ parts.filterMap Part.import? := List.mem_filterMap.mpr ⟨_,member,rfl⟩
    rwa [← tells.imports,← finished.imports] at found
  | code item =>
    have found : item ∈ parts.filterMap Part.code? := List.mem_filterMap.mpr ⟨_,member,rfl⟩
    rwa [← tells.code,← finished.code] at found

theorem fnParts_ne {attrs : List Attribute} {ident : Ident} {otherwise : List Part} (some_ : otherwise ≠ []) :
    fnParts attrs ident otherwise ≠ [] := by
  unfold fnParts
  split_ifs
  · exact List.cons_ne_nil _ _
  · exact List.cons_ne_nil _ _
  · exact List.cons_ne_nil _ _
  · exact some_

theorem structParts_ne {item : ItemStruct} : structParts item ≠ [] := by
  unfold structParts
  split_ifs <;> exact List.cons_ne_nil _ _

-- What of the items themselves, where all parts are in the App.
theorem accounts_iff {item : Item} {before after : ParseState} (result : ParseState.item parsers before item = .ok after)
    (has : ∀ part ∈ item.parts, app.Has part) : app.Accounts item ↔ ∀ mod, item = .foreignMod mod → mod.items ≠ [] := by
  cases item with
  | fn item => exact iff_of_true ⟨fnParts_ne (List.cons_ne_nil _ _),has⟩ nofun
  | struct_ item => exact iff_of_true ⟨structParts_ne,has⟩ nofun
  | use_ item => exact iff_of_true ⟨List.cons_ne_nil _ _,has⟩ nofun
  | other tokens => exact iff_of_true ⟨List.cons_ne_nil _ _,has⟩ nofun
  | foreignMod mod =>
    change (if abiIsRust mod.abi = true then mod.items.foldlM (ParseState.foreignItem parsers) before else throw _) = _ at result
    split at result
    · have each := foldlM_each result
      refine ⟨fun accounts _ same => Item.foreignMod.inj same ▸ accounts.1,fun some_ => ⟨some_ mod rfl,fun item member => ?_⟩⟩
      obtain ⟨_,_,taken⟩ := each item member
      exact ⟨foreignItem_declares taken,fun part here => has part (List.mem_flatMap.mpr ⟨item,member,here⟩)⟩
    · cases result
end

-- The rules are enforced if and only if no struct without fields comes before another of its kind and no extern block
-- is empty.
theorem app_enforced_iff (parsers : ArgsParsers) (args : AppArgs) (input : Input) (app : App)
    (parsed : App.parse parsers args input = some (.ok app)) : Enforced input.items app ↔ Undiscarded input.items := by
  obtain ⟨s,tells,finished,each⟩ := parse_finished parsed
  have shared := tells.shared
  have local_ := tells.local_
  rw [finished.shared] at shared
  rw [finished.local_] at local_
  have accounted : (sharedStructs input.items).length = 1 → (localStructs input.items).length = 1 →
      ∀ item ∈ input.items, app.Accounts item ↔ ∀ mod, item = .foreignMod mod → mod.items ≠ [] := by
    intro oneShared oneLocal item member
    obtain ⟨_,_,taken⟩ := each item member
    have has := app_has tells finished oneShared oneLocal
    exact accounts_iff taken fun part here => has part (List.mem_flatMap.mpr ⟨item,member,here⟩)
  refine ⟨fun enforced => ⟨shared.single_iff.mp enforced.shared,local_.single_iff.mp enforced.local_,fun mod member => ?_⟩,
    fun kept => ?_⟩
  · exact (accounted enforced.shared enforced.local_ _ member).mp (enforced.accounts _ member) mod rfl
  · have oneShared : (sharedStructs input.items).length = 1 := shared.single_iff.mpr kept.shared
    have oneLocal : (localStructs input.items).length = 1 := local_.single_iff.mpr kept.local_
    have names := tells.names
    refine ⟨?_,?_,oneShared,oneLocal,names.all.nodup_iff.mp names.distinct,?_,shared.fields_distinct,local_.fields_distinct,
      fun item member => (accounted oneShared oneLocal item member).mpr fun mod same => kept.blocks mod (same ▸ member)⟩
    · have name := names.initName
      rw [finished.init] at name
      exact congrArg List.length name.symm
    · have name := names.idleName
      rw [← finished.idle] at name
      refine le_of_eq_of_le (congrArg List.length name.symm) ?_
      cases app.idle with
      | none => exact Nat.zero_le 1
      | some idle => exact Nat.le_refl 1
    · rw [finished.hardware,names.binds]
      exact names.bound

-- What the checks and the analysis read of an App, where a type is its text.
section
variable (text : Type_ → Ty)

def TaskLocal.erase : TaskLocal → Syntax.TaskLocal
  | .external => .external
  | .declared local_ => .declared (text local_.ty)

def LocalResources.erase (self : LocalResources) : Syntax.LocalResources :=
  self.map fun entry => (entry.1,entry.2.erase text)

def App.erase (self : App) : Syntax.App where
  dispatchers := self.args.dispatchers.map Prod.fst
  init := ⟨self.init.name,self.init.args.localResources.erase text⟩
  idle := self.idle.map fun idle => ⟨idle.name,idle.args.localResources.erase text,idle.args.sharedResources⟩
  sharedResources := self.sharedResources.map fun entry => (entry.1,⟨text entry.2.ty,entry.2.lockFree⟩)
  localResources := self.localResources.map fun entry => (entry.1,⟨text entry.2.ty⟩)
  hardwareTasks := self.hardwareTasks.map fun task =>
    (task.1,⟨task.2.args.binds,task.2.args.priority,task.2.args.localResources.erase text,task.2.args.sharedResources⟩)
  softwareTasks := self.softwareTasks.map fun task =>
    (task.1,⟨task.2.args.priority,task.2.args.localResources.erase text,task.2.args.sharedResources,task.2.args.localTask,
      task.2.inputs.map fun input => text input.ty⟩)
end

-- A priority is a u8, and task_args refuses a hardware task at 0.
structure ArgsParsers.Bounded (parsers : ArgsParsers) : Prop where
  hardware : ∀ tokens args, parsers.taskArgs tokens = .ok (.inl args) → 1 ≤ args.priority ∧ args.priority < 256
  software : ∀ tokens args, parsers.taskArgs tokens = .ok (.inr args) → args.priority < 256

theorem parse_parsed {parsers : ArgsParsers} {args : AppArgs} {input : Input} {app : App} (text : Type_ → Ty)
    (bounded : parsers.Bounded) (parsed : App.parse parsers args input = some (.ok app)) : (app.erase text).Parsed := by
  obtain ⟨s,tells,finished,_⟩ := parse_finished parsed
  have names := tells.names
  refine ⟨?_,?_,?_,?_,?_,?_⟩
  · have distinct := names.all.nodup_iff.mp names.distinct
    rw [← names.initName,← names.idleName,finished.init,← finished.idle] at distinct
    have tasks := names.taskNames.append_left ([app.init.name]++app.idle.toList.map Idle.name)
    rw [← finished.hardware,← finished.software] at tasks
    have all := tasks.nodup_iff.mpr distinct
    have same : (app.erase text).taskNames = [app.init.name]++app.idle.toList.map Idle.name++
        (app.hardwareTasks.map Prod.fst++app.softwareTasks.map Prod.fst) := by
      simp only [Syntax.App.taskNames,App.erase,List.map_map]
      cases app.idle <;> simp [Function.comp_def]
    rw [same]
    exact all
  · simp only [App.erase,List.map_map,Function.comp_def]
    rw [finished.hardware,names.binds]
    exact names.bound
  · simp only [App.erase,List.map_map,Function.comp_def]
    exact finished.sharedResources ▸ tells.shared.distinct
  · simp only [App.erase,List.map_map,Function.comp_def]
    exact finished.localResources ▸ tells.local_.distinct
  · intro task member
    obtain ⟨own,listed,rfl⟩ := List.mem_map.mp member
    obtain ⟨tokens,answer⟩ := names.hardwareArgs own (finished.hardware ▸ listed)
    exact bounded.hardware tokens _ answer
  · intro task member
    obtain ⟨own,listed,rfl⟩ := List.mem_map.mp member
    obtain ⟨tokens,answer⟩ := names.softwareArgs own (finished.software ▸ listed)
    exact bounded.software tokens _ answer

-- The smallest module that is accepted, whose attributes have no arguments, and what may stand before it.
def bareArgs : ArgsParsers := ⟨fun _ => .ok ⟨[]⟩,fun _ => .ok ⟨[],[]⟩,fun _ => .ok (.inr ⟨0,[],[],false⟩)⟩
def bareAppArgs : AppArgs := ⟨.ofIdent "device",true,true,[],none⟩

def bareAttr (name : Ident) : Attribute := ⟨.outer,.ofIdent name,none⟩
def emptyStruct (attr name : Ident) : Item := .struct_ ⟨[bareAttr attr],.inherited,name,.named []⟩

def bareModule : List Item :=
  [emptyStruct "shared" "Shared",emptyStruct "local" "Local",
    .fn ⟨[bareAttr "init"],.inherited,
      { constness := false
        asyncness := false
        unsafety := false
        abi := none
        ident := "init"
        generics := ⟨[],none⟩
        inputs := [.typed ⟨[.ident "_"],.path false ⟨false,[⟨"init",.none⟩,⟨"Context",.none⟩]⟩⟩]
        variadic := false
        output := .type_ (.tuple [.path false (.ofIdent "Shared"),.path false (.ofIdent "Local")])},[]⟩]

theorem bare_enforced :
    ∃ app, App.parse bareArgs bareAppArgs ⟨[],"app",bareModule⟩ = some (.ok app) ∧ Enforced bareModule app := by
  refine ⟨_,rfl,(app_enforced_iff bareArgs bareAppArgs ⟨[],"app",bareModule⟩ _ rfl).mpr ⟨?_,?_,?_⟩⟩
  · exact List.pairwise_singleton _ _
  · exact List.pairwise_singleton _ _
  · intro mod member
    simp [bareModule,emptyStruct] at member

-- Another #[shared] struct before it, another #[local] one, and an extern block with nothing in it.
theorem discarded_accepted :
    (∃ app, App.parse bareArgs bareAppArgs ⟨[],"app",emptyStruct "shared" "Old"::bareModule⟩ = some (.ok app) ∧
      ¬ Enforced (emptyStruct "shared" "Old"::bareModule) app) ∧
    (∃ app, App.parse bareArgs bareAppArgs ⟨[],"app",emptyStruct "local" "Old"::bareModule⟩ = some (.ok app) ∧
      ¬ Enforced (emptyStruct "local" "Old"::bareModule) app) ∧
    ∃ app, App.parse bareArgs bareAppArgs ⟨[],"app",.foreignMod ⟨⟨none⟩,[]⟩::bareModule⟩ = some (.ok app) ∧
      ¬ Enforced (.foreignMod ⟨⟨none⟩,[]⟩::bareModule) app := by
  refine ⟨⟨_,rfl,fun enforced => ?_⟩,⟨_,rfl,fun enforced => ?_⟩,⟨_,rfl,fun enforced => ?_⟩⟩
  · exact absurd enforced.shared (by decide)
  · exact absurd enforced.local_ (by decide)
  · exact (enforced.accounts _ List.mem_cons_self).1 rfl

end Rtic.Syntax.Syn
