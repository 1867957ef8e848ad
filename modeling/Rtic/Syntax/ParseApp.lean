import Rtic.Syntax.ParseLocals
namespace Rtic.Syntax.Syn

abbrev SharedResources := Map Access

structure AppArgs where
  device : Path
  core : Bool
  peripherals : Bool
  dispatchers : Map (List Attribute)
  backend : Option (List Token)
  deriving Repr

structure InitArgs where
  localResources : LocalResources
  deriving Repr

structure IdleArgs where
  localResources : LocalResources
  sharedResources : SharedResources
  deriving Repr

structure HardwareTaskArgs where
  binds : Ident
  priority : Nat
  localResources : LocalResources
  sharedResources : SharedResources
  deriving Repr

structure SoftwareTaskArgs where
  priority : Nat
  localResources : LocalResources
  sharedResources : SharedResources
  localTask : Bool
  deriving Repr

structure Init where
  args : InitArgs
  attrs : List Attribute
  name : Ident
  context : Pat
  stmts : List Stmt
  userSharedStruct : Ident
  userLocalStruct : Ident
  isExtern : Bool
  deriving Repr

structure Idle where
  args : IdleArgs
  attrs : List Attribute
  name : Ident
  context : Pat
  stmts : List Stmt
  isExtern : Bool
  deriving Repr

structure HardwareTask where
  args : HardwareTaskArgs
  cfgs : List Attribute
  attrs : List Attribute
  context : Pat
  stmts : List Stmt
  isExtern : Bool
  deriving Repr

structure SoftwareTask where
  args : SoftwareTaskArgs
  cfgs : List Attribute
  attrs : List Attribute
  context : Pat
  inputs : List PatType
  stmts : List Stmt
  isExtern : Bool
  isBottom : Bool
  deriving Repr

structure SharedResource where
  cfgs : List Attribute
  docs : List Attribute
  attrs : List Attribute
  ty : Type_
  lockFree : Bool
  vis : Visibility
  deriving Repr

structure LocalResource where
  cfgs : List Attribute
  docs : List Attribute
  attrs : List Attribute
  ty : Type_
  vis : Visibility
  deriving Repr

structure App where
  args : AppArgs
  attributeMetas : List (List Token)
  name : Ident
  init : Init
  idle : Option Idle
  sharedResources : Map SharedResource
  sharedResourcesVis : Visibility
  localResources : Map LocalResource
  localResourcesVis : Visibility
  userImports : List ItemUse
  userCode : List Item
  hardwareTasks : Map HardwareTask
  softwareTasks : Map SoftwareTask
  deriving Repr

structure Input where
  attributeMetas : List (List Token)
  ident : Ident
  items : List Item
  deriving Repr

-- An ItemFn and a ForeignItemFn are parsed alike, the one with its statements, the other as extern.
def initOf (args : InitArgs) (attrs : List Attribute) (sig : Signature) (stmts : List Stmt) (isExtern valid : Bool) :
    Except ParseError Init :=
  let name := sig.ident
  let signature := "the `#[init]` function must have signature `fn("++name++
    "::Context) -> (Shared resources struct, Local resources struct)`"
  if valid && sig.inputs.length == 1 then
    match typeIsInitReturn sig.output,parseInputs sig.inputs name with
    | some (userSharedStruct,userLocalStruct),some (context,.ok []) =>
      .ok ⟨args,attrs,name,context,stmts,userSharedStruct,userLocalStruct,isExtern⟩
    | _,_ => .error ⟨.ident name,signature⟩
  else .error ⟨.ident name,signature⟩

def Init.parse (args : InitArgs) (item : ItemFn) : Except ParseError Init :=
  initOf args item.attrs item.sig item.stmts false (checkFnSignature item false)
def Init.parseForeign (args : InitArgs) (item : ForeignItemFn) : Except ParseError Init :=
  initOf args item.attrs item.sig [] true (checkForeignFnSignature item false)

def idleOf (args : IdleArgs) (attrs : List Attribute) (sig : Signature) (stmts : List Stmt) (isExtern valid : Bool) :
    Except ParseError Idle :=
  let name := sig.ident
  let signature := "this `#[idle]` function must have signature `fn("++name++"::Context) -> !`"
  if valid && sig.inputs.length == 1 && typeIsBottom sig.output then
    match parseInputs sig.inputs name with
    | some (context,.ok []) => .ok ⟨args,attrs,name,context,stmts,isExtern⟩
    | _ => .error ⟨.ident name,signature⟩
  else .error ⟨.ident name,signature⟩

def Idle.parse (args : IdleArgs) (item : ItemFn) : Except ParseError Idle :=
  idleOf args item.attrs item.sig item.stmts false (checkFnSignature item false)
def Idle.parseForeign (args : IdleArgs) (item : ForeignItemFn) : Except ParseError Idle :=
  idleOf args item.attrs item.sig [] true (checkForeignFnSignature item false)

def hardwareTaskOf (args : HardwareTaskArgs) (attrs : List Attribute) (sig : Signature) (stmts : List Stmt)
    (isExtern valid : Bool) : Except ParseError HardwareTask :=
  let name := sig.ident
  let signature := "this task handler must have type signature `fn("++name++"::Context)`"
  if valid && sig.inputs.length == 1 && typeIsUnit sig.output then
    match parseInputs sig.inputs name with
    | some (context,.ok []) =>
      let ⟨cfgs,_,attrs⟩ := filterAttributes attrs
      .ok ⟨args,cfgs,attrs,context,stmts,isExtern⟩
    | _ => .error ⟨.ident name,signature⟩
  else .error ⟨.ident name,signature⟩

def HardwareTask.parse (args : HardwareTaskArgs) (item : ItemFn) : Except ParseError HardwareTask :=
  hardwareTaskOf args item.attrs item.sig item.stmts false (checkFnSignature item false)
def HardwareTask.parseForeign (args : HardwareTaskArgs) (item : ForeignItemFn) : Except ParseError HardwareTask :=
  hardwareTaskOf args item.attrs item.sig [] true (checkForeignFnSignature item false)

def softwareTaskOf (args : SoftwareTaskArgs) (attrs : List Attribute) (sig : Signature) (stmts : List Stmt)
    (isExtern valid : Bool) : Except ParseError SoftwareTask :=
  let name := sig.ident
  let isBottom := typeIsBottom sig.output
  let signature := "this task handler must have type signature `async fn("++name++"::Context, ..)` or `async fn("++name++
    "::Context, ..) -> !`"
  if valid && (typeIsUnit sig.output || isBottom) && sig.asyncness then
    match parseInputs sig.inputs name with
    | some (context,.ok inputs) =>
      let ⟨cfgs,_,attrs⟩ := filterAttributes attrs
      .ok ⟨args,cfgs,attrs,context,inputs,stmts,isExtern,isBottom⟩
    | _ => .error ⟨.ident name,signature⟩
  else .error ⟨.ident name,signature⟩

def SoftwareTask.parse (args : SoftwareTaskArgs) (item : ItemFn) : Except ParseError SoftwareTask :=
  softwareTaskOf args item.attrs item.sig item.stmts false (checkFnSignature item true)
def SoftwareTask.parseForeign (args : SoftwareTaskArgs) (item : ForeignItemFn) : Except ParseError SoftwareTask :=
  softwareTaskOf args item.attrs item.sig [] true (checkForeignFnSignature item true)

def SharedResource.parse (item : Field) : SharedResource :=
  let ⟨cfgs,docs,attrs⟩ := filterAttributes item.attrs
  let (lockFree,attrs) := extractLockFree attrs
  ⟨cfgs,docs,attrs,item.ty,lockFree,item.vis⟩

def LocalResource.parse (item : Field) : LocalResource :=
  let ⟨cfgs,docs,attrs⟩ := filterAttributes item.attrs
  ⟨cfgs,docs,attrs,item.ty,item.vis⟩

-- init_args, idle_args and task_args, of the tokens in the parentheses of the attribute.
structure ArgsParsers where
  initArgs : List Token → Except ParseError InitArgs
  idleArgs : List Token → Except ParseError IdleArgs
  taskArgs : List Token → Except ParseError (HardwareTaskArgs ⊕ SoftwareTaskArgs)

def Attribute.parseArgs (self : Attribute) : List Token := self.args.getD []

-- `position` of an attribute of that name, and `remove`
def takeAttr (name : String) : List Attribute → Option (Attribute × List Attribute)
  | [] => none
  | attr::attrs =>
    if attrEq attr name then some (attr,attrs) else (takeAttr name attrs).map fun taken => (taken.1,attr::taken.2)

-- The variables of App::parse.
structure ParseState where
  init : Option Init
  idle : Option Idle
  sharedResourcesIdent : Option Ident
  sharedResourcesVis : Visibility
  sharedResources : Map SharedResource
  localResourcesIdent : Option Ident
  localResourcesVis : Visibility
  localResources : Map LocalResource
  hardwareTasks : Map HardwareTask
  softwareTasks : Map SoftwareTask
  userImports : List ItemUse
  userCode : List Item
  seenIdents : List Ident
  bindings : List Ident
  deriving Repr

def checkUnused (message : String) (seen : List Ident) (ident : Ident) : Except ParseError (List Ident) :=
  if ident ∈ seen then .error ⟨.ident ident,message⟩ else .ok (seen++[ident])

def checkBinding : List Ident → Ident → Except ParseError (List Ident) := checkUnused "this interrupt is already bound"
def checkIdent : List Ident → Ident → Except ParseError (List Ident) := checkUnused "this identifier has already been used"

namespace ParseState
variable (parsers : ArgsParsers)

def new : ParseState := ⟨none,none,none,.inherited,[],none,.inherited,[],[],[],[],[],[],[]⟩

def initFn (self : ParseState) (attr : Attribute) (ident : Ident) (parse : InitArgs → Except ParseError Init) :
    Except ParseError ParseState := do
  let args ← parsers.initArgs attr.parseArgs
  if self.init.isSome then throw ⟨.ident ident,"`#[init]` function must appear at most once"⟩
  else
    let seenIdents ← checkIdent self.seenIdents ident
    let init ← parse args
    return {self with seenIdents := seenIdents,init := some init}

def idleFn (self : ParseState) (attr : Attribute) (ident : Ident) (parse : IdleArgs → Except ParseError Idle) :
    Except ParseError ParseState := do
  let args ← parsers.idleArgs attr.parseArgs
  if self.idle.isSome then throw ⟨.ident ident,"`#[idle]` function must appear at most once"⟩
  else
    let seenIdents ← checkIdent self.seenIdents ident
    let idle ← parse args
    return {self with seenIdents := seenIdents,idle := some idle}

def isTask (self : ParseState) (ident : Ident) : Bool :=
  Ordered.containsKey self.hardwareTasks ident || Ordered.containsKey self.softwareTasks ident

def hardwareTask (self : ParseState) (ident : Ident) (args : HardwareTaskArgs)
    (parse : HardwareTaskArgs → Except ParseError HardwareTask) : Except ParseError ParseState := do
  let bindings ← checkBinding self.bindings args.binds
  let seenIdents ← checkIdent self.seenIdents ident
  let task ← parse args
  return {self with bindings := bindings,seenIdents := seenIdents,hardwareTasks := Ordered.insert self.hardwareTasks ident task}

def softwareTask (self : ParseState) (ident : Ident) (args : SoftwareTaskArgs)
    (parse : SoftwareTaskArgs → Except ParseError SoftwareTask) : Except ParseError ParseState := do
  let seenIdents ← checkIdent self.seenIdents ident
  let task ← parse args
  return {self with seenIdents := seenIdents,softwareTasks := Ordered.insert self.softwareTasks ident task}

def fn (self : ParseState) (item : ItemFn) : Except ParseError ParseState :=
  let ident := item.sig.ident
  match takeAttr "init" item.attrs,takeAttr "idle" item.attrs,takeAttr "task" item.attrs with
  | some (attr,attrs),_,_ => self.initFn parsers attr ident fun args => Init.parse args {item with attrs := attrs}
  | none,some (attr,attrs),_ => self.idleFn parsers attr ident fun args => Idle.parse args {item with attrs := attrs}
  | none,none,some (attr,attrs) =>
    if self.isTask ident then throw ⟨.ident ident,"this task is defined multiple times"⟩
    else do
      match ← parsers.taskArgs attr.parseArgs with
      | .inl args => self.hardwareTask ident args fun args => HardwareTask.parse args {item with attrs := attrs}
      | .inr args => self.softwareTask ident args fun args => SoftwareTask.parse args {item with attrs := attrs}
  | none,none,none => return {self with userCode := self.userCode++[.fn item]}

def foreignFn (self : ParseState) (item : ForeignItemFn) : Except ParseError ParseState :=
  let ident := item.sig.ident
  match takeAttr "init" item.attrs,takeAttr "idle" item.attrs,takeAttr "task" item.attrs with
  | some (attr,attrs),_,_ => self.initFn parsers attr ident fun args => Init.parseForeign args {item with attrs := attrs}
  | none,some (attr,attrs),_ => self.idleFn parsers attr ident fun args => Idle.parseForeign args {item with attrs := attrs}
  | none,none,some (attr,attrs) =>
    if self.isTask ident then throw ⟨.ident ident,"this task is defined multiple times"⟩
    else if item.attrs.length ≠ 1 then throw ⟨.ident ident,"`extern` task required `#[task(..)]` attribute"⟩
    else do
      match ← parsers.taskArgs attr.parseArgs with
      | .inl args => self.hardwareTask ident args fun args => HardwareTask.parseForeign args {item with attrs := attrs}
      | .inr args => self.softwareTask ident args fun args => SoftwareTask.parseForeign args {item with attrs := attrs}
  | none,none,none =>
    throw ⟨.ident ident,"`extern` task, init or idle must have either `#[task(..)]`,
                                    `#[init(..)]` or `#[idle(..)]` attribute"⟩

def foreignItem (self : ParseState) : ForeignItem → Except ParseError ParseState
  | .fn item => self.foreignFn parsers item
  | .other tokens => throw ⟨.tokens tokens,"this item must live outside the `#[app]` module"⟩

-- The loop over the fields of a struct.
def namedField {A : Type} (parse : Field → A) (resources : Map A) (field : Field) : Except ParseError (Map A) :=
  if Ordered.containsKey resources field.ident then throw ⟨.ident field.ident,"this resource is listed more than once"⟩
  else return Ordered.insert resources field.ident (parse field)

def sharedStruct (self : ParseState) (item : ItemStruct) : Except ParseError ParseState :=
  if self.sharedResources.isEmpty then
    match item.fields with
    | .named fields => do
      let sharedResources ← fields.foldlM (namedField SharedResource.parse) self.sharedResources
      return {self with
        sharedResourcesIdent := some item.ident
        sharedResourcesVis := item.vis
        sharedResources := sharedResources}
    | _ => throw ⟨.struct_ item,"this `struct` must have named fields"⟩
  else throw ⟨.ident item.ident,"`#[shared]` struct must appear at most once"⟩

def localStruct (self : ParseState) (item : ItemStruct) : Except ParseError ParseState :=
  if self.localResources.isEmpty then
    match item.fields with
    | .named fields => do
      let localResources ← fields.foldlM (namedField LocalResource.parse) self.localResources
      return {self with
        localResourcesIdent := some item.ident
        localResourcesVis := item.vis
        localResources := localResources}
    | _ => throw ⟨.struct_ item,"this `struct` must have named fields"⟩
  else throw ⟨.ident item.ident,"`#[local]` struct must appear at most once"⟩

def struct_ (self : ParseState) (item : ItemStruct) : Except ParseError ParseState :=
  if item.attrs.any (attrEq · "shared") then self.sharedStruct item
  else if item.attrs.any (attrEq · "local") then self.localStruct item
  else return {self with userCode := self.userCode++[.struct_ item]}

def item (self : ParseState) : Item → Except ParseError ParseState
  | .fn item => self.fn parsers item
  | .struct_ item => self.struct_ item
  | .foreignMod mod =>
    if abiIsRust mod.abi then mod.items.foldlM (foreignItem parsers) self
    else throw ⟨.externToken mod.abi,"this `extern` block must use the \"Rust\" ABI"⟩
  | .use_ item => return {self with userImports := self.userImports++[item]}
  | item => return {self with userCode := self.userCode++[item]}

def notTheSame (struct_ : String) (ident : Ident) : String :=
  "This name and the one defined on `#["++struct_++"]` are not the same. Should this be `"++ident++"`?"

-- After the loop. none: the panics where there is no init, or no resource struct.
def finish (self : ParseState) (args : AppArgs) (input : Input) : Option (Except ParseError App) := do
  let sharedResourcesIdent ← self.sharedResourcesIdent
  let localResourcesIdent ← self.localResourcesIdent
  let init ← self.init
  if sharedResourcesIdent ≠ init.userSharedStruct then
    return .error ⟨.ident init.userSharedStruct,notTheSame "shared" sharedResourcesIdent⟩
  else if localResourcesIdent ≠ init.userLocalStruct then
    return .error ⟨.ident init.userLocalStruct,notTheSame "local" localResourcesIdent⟩
  else return .ok {
      args := args
      attributeMetas := input.attributeMetas
      name := input.ident
      init := init
      idle := self.idle
      sharedResources := self.sharedResources
      sharedResourcesVis := self.sharedResourcesVis
      localResources := self.localResources
      localResourcesVis := self.localResourcesVis
      userImports := self.userImports
      userCode := self.userCode
      hardwareTasks := self.hardwareTasks
      softwareTasks := self.softwareTasks}

end ParseState

def App.parse (parsers : ArgsParsers) (args : AppArgs) (input : Input) : Option (Except ParseError App) :=
  match input.items.foldlM (ParseState.item parsers) ParseState.new with
  | .error e => some (.error e)
  | .ok state => state.finish args input

end Rtic.Syntax.Syn
