import Rtic.Syntax.Syn
namespace Rtic.Syntax.Syn

-- Only the text of the one segment is looked at, not whether colons come before it.
def attrEq (attr : Attribute) (name : String) : Bool :=
  match attr.style,attr.path.segments with
  | .outer,[⟨ident,.none⟩] => ident == name
  | _,_ => false

structure FilterAttrs where
  cfgs : List Attribute
  docs : List Attribute
  attrs : List Attribute
  deriving Repr

def filterAttributes : List Attribute → FilterAttrs
  | [] => ⟨[],[],[]⟩
  | attr::inputAttrs =>
    let ⟨cfgs,docs,attrs⟩ := filterAttributes inputAttrs
    if attrEq attr "cfg" then ⟨attr::cfgs,docs,attrs⟩
    else if attrEq attr "doc" then ⟨cfgs,attr::docs,attrs⟩
    else ⟨cfgs,docs,attr::attrs⟩

def extractLockFree (attrs : List Attribute) : Bool × List Attribute :=
  match attrs.findIdx? (attrEq · "lock_free") with
  | some pos => (true,attrs.eraseIdx pos)
  | none => (false,attrs)

def abiIsRust (abi : Abi) : Bool :=
  match abi.name with
  | none => true
  | some s => s == "Rust"

def checkSignature (vis : Visibility) (sig : Signature) (allowAsync : Bool) : Bool :=
  (match vis with
    | .inherited => true
    | .restricted _ => false) &&
    !sig.constness && (!sig.asyncness || allowAsync) && sig.abi.isNone && !sig.unsafety && sig.generics.params.isEmpty &&
    sig.generics.whereClause.isNone && !sig.variadic

def checkFnSignature (item : ItemFn) (allowAsync : Bool) : Bool := checkSignature item.vis item.sig allowAsync
def checkForeignFnSignature (item : ForeignItemFn) (allowAsync : Bool) : Bool := checkSignature item.vis item.sig allowAsync

-- `segments` says nothing of arguments, or of colons before the first.
def typeIsPath (ty : Type_) (segments : List String) : Bool :=
  match ty with
  | .path false path =>
    path.segments.length == segments.length && (path.segments.zip segments).all fun (lhs,rhs) => lhs.ident == rhs
  | _ => false

-- The context argument and what is left, which is an error where it has a receiver.
def parseInputs (inputs : List FnArg) (name : String) : Option (Pat × Except FnArg (List PatType)) :=
  match inputs with
  | .typed first::inputs =>
    if typeIsPath first.ty [name,"Context"] then
      let rest := inputs.mapM fun arg =>
        match arg with
        | .typed arg => .ok arg
        | _ => .error arg
      some (first.pat,rest)
    else none
  | _ => none

def typeIsBottom : ReturnType → Bool
  | .type_ .never => true
  | _ => false

def typeIsUnit : ReturnType → Bool
  | .type_ (.tuple elems) => elems.isEmpty
  | .type_ _ => false
  | .default => true

def extractInitResourceNameIdent : Type_ → Option Ident
  | .path _ ⟨false,[⟨ident,.none⟩]⟩ => some ident
  | _ => none

def typeIsInitReturn : ReturnType → Option (Ident × Ident)
  | .type_ (.tuple [first,second]) => do
    let shared ← extractInitResourceNameIdent first
    let local_ ← extractInitResourceNameIdent second
    return (shared,local_)
  | _ => none

def extractResourceNameIdent (path : Path) : Except ParseError Ident :=
  match path with
  | ⟨false,[⟨ident,.none⟩]⟩ => .ok ident
  | _ => .error ⟨.path path,"resource must be an identifier, not a path"⟩

theorem extractResourceNameIdent_ok {path : Path} {name : Ident} :
    extractResourceNameIdent path = .ok name ↔ path = Path.ofIdent name := by
  unfold extractResourceNameIdent Path.ofIdent
  split
  · simp
  · rename_i other
    refine ⟨nofun,?_⟩
    rintro rfl
    exact absurd rfl (other name)

end Rtic.Syntax.Syn
