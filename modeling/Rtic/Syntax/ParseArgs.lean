import Rtic.Syntax.ParseApp
namespace Rtic.Syntax.Syn
open TokenParser

-- As much of an expression's tree as the parser of `shared` matches on.
inductive ExprTree where
  | path (path : Path)
  | reference (mutability : Bool) (expr : ExprTree)
  | other
  deriving Repr

def argumentNames : List Ident := ["binds","priority","shared","local","local_task"]

-- What syn makes of an expression, of a name that may be a keyword, and of a literal: the value of an integer and its
-- suffix. The names of the arguments are no keywords.
structure ArgParsers extends Parsers where
  tree : Expr → ExprTree
  acceptAsIdent : Ident → Bool
  intLit : String → Option (Nat × String)
  names_accepted : ∀ name ∈ argumentNames, acceptAsIdent name = true

structure LitInt where
  span : Span
  negative : Bool
  digits : Nat
  suffix : String
  deriving Repr

-- base10_parse::<u8>
def LitInt.base10Parse (self : LitInt) : Option Nat :=
  if self.negative then none else if self.digits < 256 then some self.digits else none

section
variable (syn : ArgParsers)

def ident : ParseStream Ident := fun ts =>
  match ts with
  | .ident name::rest =>
    if syn.acceptAsIdent name then .ok (name,rest)
    else .error ⟨.tokens ts,"expected identifier, found keyword `"++name++"`"⟩
  | _ => .error ⟨.tokens ts,"expected identifier"⟩

def litInt : ParseStream LitInt := fun ts =>
  match ts with
  | .literal text::rest =>
    match syn.intLit text with
    | some (digits,suffix) => .ok (⟨.tokens [.literal text],false,digits,suffix⟩,rest)
    | none => .error ⟨.tokens ts,"expected integer literal"⟩
  | .punct '-' joint::.literal text::rest =>
    match syn.intLit text with
    | some (digits,suffix) => .ok (⟨.tokens [.punct '-' joint,.literal text],true,digits,suffix⟩,rest)
    | none => .error ⟨.tokens ts,"expected integer literal"⟩
  | _ => .error ⟨.tokens ts,"expected integer literal"⟩

def litBool : ParseStream Bool := fun ts =>
  match ts with
  | .ident "true"::rest => .ok (true,rest)
  | .ident "false"::rest => .ok (false,rest)
  | _ => .error ⟨.tokens ts,"expected boolean literal"⟩

-- syn's Parser::parse2
def Parser.parse2 {A : Type} (x : ParseStream A) (tokens : List Token) : Except ParseError A :=
  match x tokens with
  | .error e => .error e
  | .ok (node,[]) => .ok node
  | .ok (_,rest) => .error ⟨.tokens rest,"unexpected token"⟩

-- Where a value, or a value and its comma, was taken: whether more may follow.
def untilComma {A : Type} (a : A) : ParseStream (A × Bool) := do
  if ← isEmpty then return (a,false)
  else
    let _ ← punct ','
    return (a,true)

-- One pass of Punctuated::parse_terminated.
def terminatedExpr (exprs : List Expr) : ParseStream (List Expr × Bool) := do
  if ← isEmpty then return (exprs,false)
  else
    let expr ← syn.expr
    untilComma (exprs++[expr])

section
variable {syn} {A : Type} {a b : A} {name : Ident} {more : Bool} {ts rest : List Token}

theorem ident_ok : ident syn ts = .ok (name,rest) ↔ ts = .ident name::rest ∧ syn.acceptAsIdent name = true := by
  cases ts with
  | nil => exact iff_of_false nofun nofun
  | cons token after =>
    cases token with
    | ident other =>
      change (if syn.acceptAsIdent other = true then Except.ok (other,after) else _) = _ ↔ _
      split
      · rename_i accepted
        simp only [Except.ok.injEq,Prod.mk.injEq,List.cons.injEq,Token.ident.injEq]
        exact ⟨fun ⟨same,here⟩ => ⟨⟨same,here⟩,same ▸ accepted⟩,And.left⟩
      · rename_i keyword
        simp only [reduceCtorEq,List.cons.injEq,Token.ident.injEq,false_iff]
        exact fun ⟨⟨same,_⟩,accepted⟩ => keyword (same ▸ accepted)
    | _ => exact iff_of_false nofun nofun

theorem untilComma_ok : untilComma a ts = .ok ((b,more),rest) ↔
    b = a ∧ ((more = false ∧ ts = [] ∧ rest = []) ∨ (more = true ∧ ∃ joint, ts = .punct ',' joint::rest)) := by
  unfold untilComma
  rw [ifEmpty_ok,punct_bind_ok]
  simp only [pure_ok,Prod.mk.injEq]
  refine ⟨?_,?_⟩
  · rintro (⟨rfl,⟨rfl,rfl⟩,rfl⟩ | ⟨_,joint,middle,rfl,⟨rfl,rfl⟩,rfl⟩)
    · exact ⟨rfl,.inl ⟨rfl,rfl,rfl⟩⟩
    · exact ⟨rfl,.inr ⟨rfl,joint,rfl⟩⟩
  · rintro ⟨rfl,⟨rfl,rfl,rfl⟩ | ⟨rfl,joint,rfl⟩⟩
    · exact .inl ⟨rfl,⟨rfl,rfl⟩,rfl⟩
    · exact .inr ⟨List.cons_ne_nil _ _,joint,rest,rfl,⟨rfl,rfl⟩,rfl⟩

theorem untilComma_keeps : Keeps (untilComma a) := by
  rintro ts ⟨b,more⟩ rest result
  rcases (untilComma_ok.mp result).2 with ⟨_,rfl,rfl⟩ | ⟨_,joint,rfl⟩
  · exact Nat.le_refl _
  · exact Nat.le_succ _

theorem terminatedExpr_advances (exprs : List Expr) : Advances (terminatedExpr syn exprs) := by
  intro ts next rest result
  unfold terminatedExpr at result
  rcases ifEmpty_ok.mp result with ⟨_,stopped⟩ | ⟨_,result⟩
  · cases (pure_ok.mp stopped).1
  · obtain ⟨expr,middle,first,result⟩ := bind_ok.mp result
    exact Nat.lt_of_le_of_lt (untilComma_keeps _ _ _ result) (syn.expr_consumes _ _ _ first)
end

-- The loop over the expressions: how each accesses its resource, and which that is.
def sharedAccess (expr : Expr) : Except ParseError (Access × Path) :=
  match syn.tree expr with
  | .path path => .ok (.exclusive,path)
  | .reference false (.path path) => .ok (.shared,path)
  | _ => .error ⟨.tokens expr,"identifier appears more than once in list"⟩

def sharedResource (resources : SharedResources) (expr : Expr) : Except ParseError SharedResources := do
  let result ← sharedAccess syn expr
  let ident ← extractResourceNameIdent result.2
  if Ordered.containsKey resources ident then throw ⟨.ident ident,"resource appears more than once in list"⟩
  else return Ordered.insert resources ident result.1

def sharedResources (inner : List Token) : Except ParseError SharedResources := do
  let (exprs,_) ← untilBreak (terminatedExpr syn) terminatedExpr_advances [] inner
  exprs.foldlM (sharedResource syn) []

def parseSharedResources : ParseStream SharedResources := do
  let inner ← bracketed
  sharedResources syn inner

-- The check of an argument that is already there.
def once {A : Type} (ident : Ident) (given : Option A) : Except ParseError Unit :=
  if given.isSome then .error ⟨.ident ident,"argument appears more than once"⟩ else .ok ()

def sharedArgument (ident : Ident) (given : Option SharedResources) : ParseStream (Option SharedResources) := do
  once ident given
  let resources ← parseSharedResources syn
  return some resources

def localArgument (ident : Ident) (given : Option LocalResources) : ParseStream (Option LocalResources) := do
  once ident given
  let resources ← parseLocalResources syn.toParsers
  return some resources

-- One pass of the loop of init_args.
def initArg (localResources : Option LocalResources) : ParseStream (Option LocalResources × Bool) := do
  let name ← ident syn
  let _ ← punct '='
  match name with
  | "local" =>
    let localResources ← localArgument syn name localResources
    untilComma localResources
  | _ => throw ⟨.ident name,"unexpected argument"⟩

-- What init_args refuses of the list.
def externalError (entry : Ident × TaskLocal) : Option ParseError :=
  match entry.2 with
  | .external => some ⟨.ident entry.1,"only declared local resources are allowed in init"⟩
  | .declared _ => none

def onlyDeclared (localResources : LocalResources) : Except ParseError Unit :=
  match localResources.findSome? externalError with
  | some error => .error error
  | none => .ok ()

structure IdleVars where
  sharedResources : Option SharedResources
  localResources : Option LocalResources
  deriving Repr

def idleArg (self : IdleVars) : ParseStream (IdleVars × Bool) := do
  let name ← ident syn
  let _ ← punct '='
  match name with
  | "shared" =>
    let sharedResources ← sharedArgument syn name self.sharedResources
    untilComma {self with sharedResources := sharedResources}
  | "local" =>
    let localResources ← localArgument syn name self.localResources
    untilComma {self with localResources := localResources}
  | _ => throw ⟨.ident name,"unexpected argument"⟩

-- The variables of task_args. A priority comes with its span.
structure TaskVars where
  binds : Option Ident
  priority : Option (Nat × Span)
  sharedResources : Option SharedResources
  localResources : Option LocalResources
  localTask : Option Bool
  deriving Repr

def TaskVars.new : TaskVars := ⟨none,none,none,none,none⟩

def priorityArgument (ident : Ident) (given : Option (Nat × Span)) : ParseStream (Option (Nat × Span)) := do
  once ident given
  let lit ← litInt syn
  if lit.suffix ≠ "" then throw ⟨lit.span,"this literal must be unsuffixed"⟩
  else match lit.base10Parse with
    | none => throw ⟨lit.span,"this literal must be in the range 0...255"⟩
    | some value => return some (value,lit.span)

-- The match on the name, whose arms have the equal sign behind them.
def taskValue (self : TaskVars) (name : Ident) : ParseStream TaskVars :=
  match name with
  | "binds" => do
    once name self.binds
    let binds ← ident syn
    return {self with binds := some binds}
  | "priority" => do
    let priority ← priorityArgument syn name self.priority
    return {self with priority := priority}
  | "shared" => do
    let sharedResources ← sharedArgument syn name self.sharedResources
    return {self with sharedResources := sharedResources}
  | "local" => do
    let localResources ← localArgument syn name self.localResources
    return {self with localResources := localResources}
  | _ => throw ⟨.ident name,"unexpected argument"⟩

-- Only local_task may be without a value.
def localTaskValue (eq : Except ParseError Token) : ParseStream Bool :=
  match eq with
  | .ok _ => litBool
  | .error _ => return true

def taskArg (self : TaskVars) : ParseStream (TaskVars × Bool) := do
  if ← isEmpty then return (self,false)
  else
    let name ← ident syn
    let eq ← attempt (punct '=')
    if name = "local_task" then
      once name self.localTask
      let localTask ← localTaskValue eq
      -- The source breaks here, before the comma is looked for.
      return ({self with localTask := some localTask},false)
    else
      let _ ← eq
      let self ← taskValue syn self name
      untilComma self

-- After the loop. Hardware tasks are not at priority 0, which is where software tasks start.
def TaskVars.finish (self : TaskVars) : Except ParseError (HardwareTaskArgs ⊕ SoftwareTaskArgs) :=
  let sharedResources := self.sharedResources.getD []
  let localResources := self.localResources.getD []
  let localTask := self.localTask.getD false
  match self.binds with
  | some binds =>
    match self.priority with
    | some (0,span) => .error ⟨span,"hardware tasks are not allowed to be at priority 0"⟩
    | priority => .ok (.inl ⟨binds,(priority.map Prod.fst).getD 1,localResources,sharedResources⟩)
  | none => .ok (.inr ⟨(self.priority.map Prod.fst).getD 0,localResources,sharedResources,localTask⟩)
section
variable {syn} {A : Type}

theorem punct_consumes {c : Char} : Consumes (punct c) := by
  intro ts t rest result
  rw [(next_ok.mp result).1]
  exact Nat.lt_succ_self _

theorem bracketed_consumes : Consumes bracketed := by
  intro ts stream rest result
  unfold bracketed at result
  split at result <;> cases result
  exact Nat.lt_succ_self _

theorem ident_consumes : Consumes (ident syn) := by
  intro ts name rest result
  rw [(ident_ok.mp result).1]
  exact Nat.lt_succ_self _

theorem litInt_keeps : Keeps (litInt syn) := by
  intro ts lit rest result
  unfold litInt at result
  split at result <;> (try split at result) <;> cases result
  · exact Nat.le_succ _
  · exact Nat.le_add_right _ 2

theorem litBool_keeps : Keeps litBool := by
  intro ts value rest result
  unfold litBool at result
  split at result <;> cases result <;> exact Nat.le_succ _

theorem sharedArgument_keeps {name : Ident} {given : Option SharedResources} : Keeps (sharedArgument syn name given) :=
  keeps_lift.bind fun _ => (bracketed_consumes.keeps.bind fun _ => keeps_lift).bind fun _ => keeps_pure

theorem localArgument_keeps {name : Ident} {given : Option LocalResources} : Keeps (localArgument syn name given) :=
  keeps_lift.bind fun _ => (bracketed_consumes.keeps.bind fun _ => keeps_lift).bind fun _ => keeps_pure

theorem priorityArgument_keeps {name : Ident} {given : Option (Nat × Span)} : Keeps (priorityArgument syn name given) := by
  refine keeps_lift.bind fun _ => litInt_keeps.bind fun lit => ?_
  split
  · exact keeps_throw
  · split
    · exact keeps_throw
    · exact keeps_pure

theorem taskValue_keeps {self : TaskVars} {name : Ident} : Keeps (taskValue syn self name) := by
  unfold taskValue
  split
  · exact keeps_lift.bind fun _ => ident_consumes.keeps.bind fun _ => keeps_pure
  · exact priorityArgument_keeps.bind fun _ => keeps_pure
  · exact sharedArgument_keeps.bind fun _ => keeps_pure
  · exact localArgument_keeps.bind fun _ => keeps_pure
  · exact keeps_throw

theorem initArg_advances (localResources : Option LocalResources) : Advances (initArg syn localResources) := by
  refine fun ts next rest => (ident_consumes.bind fun name => punct_consumes.keeps.bind fun _ => ?_) ts (next,true) rest
  split
  · exact localArgument_keeps.bind fun _ => untilComma_keeps
  · exact keeps_throw

theorem idleArg_advances (self : IdleVars) : Advances (idleArg syn self) := by
  refine fun ts next rest => (ident_consumes.bind fun name => punct_consumes.keeps.bind fun _ => ?_) ts (next,true) rest
  split
  · exact sharedArgument_keeps.bind fun _ => untilComma_keeps
  · exact localArgument_keeps.bind fun _ => untilComma_keeps
  · exact keeps_throw

theorem localTaskValue_keeps {eq : Except ParseError Token} : Keeps (localTaskValue eq) := by
  unfold localTaskValue
  split
  · exact litBool_keeps
  · exact keeps_pure

theorem taskArg_advances (self : TaskVars) : Advances (taskArg syn self) := by
  intro ts next rest result
  unfold taskArg at result
  rcases ifEmpty_ok.mp result with ⟨_,stopped⟩ | ⟨_,result⟩
  · cases (pure_ok.mp stopped).1
  · refine (ident_consumes.bind fun name => punct_consumes.keeps.attempt.bind fun eq => ?_) _ _ _ result
    split
    · exact keeps_lift.bind fun _ => localTaskValue_keeps.bind fun _ => keeps_pure
    · exact keeps_lift.bind fun _ => taskValue_keeps.bind fun _ => untilComma_keeps
end

-- The source asks again whether the input is empty, which it is not.
def initArgs : List Token → Except ParseError InitArgs := Parser.parse2 do
  if ← isEmpty then return ⟨[]⟩
  else
    let localResources ← untilBreak (initArg syn) initArg_advances none
    onlyDeclared (localResources.getD [])
    return ⟨localResources.getD []⟩

def idleArgs : List Token → Except ParseError IdleArgs := Parser.parse2 do
  if ← isEmpty then return ⟨[],[]⟩
  else
    let self ← untilBreak (idleArg syn) idleArg_advances ⟨none,none⟩
    return ⟨self.localResources.getD [],self.sharedResources.getD []⟩

def taskArgs : List Token → Except ParseError (HardwareTaskArgs ⊕ SoftwareTaskArgs) := Parser.parse2 do
  if ← isEmpty then return .inr ⟨0,[],[],false⟩
  else
    let self ← untilBreak (taskArg syn) taskArg_advances .new
    self.finish

def argsParsers : ArgsParsers := ⟨initArgs syn,idleArgs syn,taskArgs syn⟩
end
end Rtic.Syntax.Syn
