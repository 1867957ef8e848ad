import Rtic.Syntax.ArgumentOrder
import Rtic.Syntax.Uniqueness
namespace Rtic.Syntax.Syn
open TokenParser

-- As much of an element of an array as the parser of `dispatchers` matches on.
inductive ElemTree where
  | path (path : ExprPath)
  | other (tokens : Expr)
  deriving Repr

def appArgumentNames : List Ident := ["device","core","peripherals","dispatchers","backend"]

-- The other parsers of syn that the arguments of #[app] need.
structure AppParsers extends ArgParsers where
  path : ParseStream Path
  exprArray : ParseStream (List ElemTree)
  path_keeps : Keeps path
  exprArray_keeps : Keeps exprArray
  appNames_accepted : ∀ name ∈ appArgumentNames, acceptAsIdent name = true

-- syntax::backend, by feature
inductive BackendFeature where
  | cortex
  | esp32c3
  | esp32c6
  | riscvClint
  | riscvMecall
  deriving DecidableEq, Repr

-- The variables of AppArgs::parse.
structure AppVars where
  custom : List Ident
  device : Option Path
  core : Bool
  peripherals : Bool
  dispatchers : Map (List Attribute)
  backend : Option (List Token)
  deriving Repr

def AppVars.new : AppVars := ⟨[],none,true,true,[],none⟩

section
variable (syn : AppParsers) (feature : BackendFeature)

-- BackendArgs::parse, which keeps the tokens of the hart.
def backendArgs : ParseStream (List Token) := fun ts =>
  match feature with
  | .cortex => .error ⟨.tokens ts,"cortex backend does not accept any arguments"⟩
  | .esp32c3 => .error ⟨.tokens ts,"esp32c3 backend does not accept any arguments"⟩
  | .esp32c6 => .error ⟨.tokens ts,"esp32c6 backend does not accept any arguments"⟩
  | .riscvMecall => .error ⟨.tokens ts,"riscv-mecall backend does not accept any arguments"⟩
  | .riscvClint =>
    match ident syn.toArgParsers ts with
    | .error e => .error e
    | .ok (hartId,rest) => .ok ([.ident hartId],rest)

-- `if let Ok(p) = input.parse()`, with the error of its else branch
def valueOr {A : Type} (name : Ident) (message : String) (x : ParseStream A) : ParseStream A := do
  match ← attempt x with
  | .ok p => return p
  | .error _ => throw ⟨.ident name,message⟩

-- The loop over the elements of the array.
def dispatcher (dispatchers : Map (List Attribute)) : ElemTree → Except ParseError (Map (List Attribute))
  | .path ep =>
    match ep.path.leadingColon,ep.path.segments with
    | false,[segment] =>
      if Ordered.containsKey dispatchers segment.ident then
        throw ⟨.ident segment.ident,"this extern interrupt is listed more than once"⟩
      else return Ordered.insert dispatchers segment.ident ep.attrs
    | _,_ => throw ⟨.path ep.path,"interrupt must be an identifier, not a path"⟩
  | .other e => throw ⟨.tokens e,"interrupt must be an identifier"⟩

def addDispatchers (dispatchers : Map (List Attribute)) (elems : List ElemTree) :
    Except ParseError (Map (List Attribute)) := elems.foldlM dispatcher dispatchers

-- The match on the name, which is in `custom` already.
def appValue (self : AppVars) (name : Ident) : ParseStream AppVars :=
  match name with
  | "device" => do
    let p ← valueOr name "unexpected argument value; this should be a path" syn.path
    return {self with device := some p}
  | "core" => do
    let p ← valueOr name "unexpected argument value; this should be a boolean" litBool
    return {self with core := p}
  | "peripherals" => do
    let p ← valueOr name "unexpected argument value; this should be a boolean" litBool
    return {self with peripherals := p}
  | "dispatchers" => do
    let p ← valueOr name "unexpected argument value; expected an array" syn.exprArray
    let dispatchers ← addDispatchers self.dispatchers p
    return {self with dispatchers := dispatchers}
  | "backend" => do
    let p ← valueOr name "unable to parse backend configuration" (backendArgs syn feature)
    return {self with backend := some p}
  | _ => throw ⟨.ident name,"unexpected argument"⟩

def appArg (self : AppVars) : ParseStream (AppVars × Bool) := do
  if ← isEmpty then return (self,false)
  else
    let name ← ident syn.toArgParsers
    let _ ← punct '='
    if name ∈ self.custom then throw ⟨.ident name,"argument appears more than once"⟩
    else
      let self ← appValue syn feature {self with custom := self.custom++[name]} name
      untilComma self

def AppVars.finish (self : AppVars) : ParseStream AppArgs := fun ts =>
  match self.device with
  | some device => .ok (⟨device,self.core,self.peripherals,self.dispatchers,self.backend⟩,ts)
  | none => .error ⟨.tokens ts,"missing `device = ...`"⟩

section
variable {syn feature} {A : Type} {a : A} {name : Ident} {message : String} {x : ParseStream A} {ts rest : List Token}

theorem valueOr_ok : valueOr name message x ts = .ok (a,rest) ↔ x ts = .ok (a,rest) := by
  unfold valueOr
  rw [bind_ok]
  simp only [attempt_ok]
  refine ⟨?_,fun parsed => ⟨.ok a,rest,.inl ⟨a,parsed,rfl⟩,rfl⟩⟩
  rintro ⟨_,middle,⟨b,parsed,rfl⟩ | ⟨e,_,rfl,_⟩,result⟩
  · obtain ⟨rfl,rfl⟩ := pure_ok.mp result
    exact parsed
  · cases result

theorem valueOr_keeps (keeps : Keeps x) : Keeps (valueOr name message x) :=
  fun ts a rest result => keeps ts a rest (valueOr_ok.mp result)

theorem backendArgs_ok {tokens : List Token} : backendArgs syn feature ts = .ok (tokens,rest) ↔
    feature = .riscvClint ∧ ∃ hartId, ident syn.toArgParsers ts = .ok (hartId,rest) ∧ tokens = [.ident hartId] := by
  unfold backendArgs
  cases feature with
  | riscvClint =>
    cases read : ident syn.toArgParsers ts with
    | error e => exact iff_of_false nofun fun ⟨_,_,impossible,_⟩ => nomatch impossible
    | ok taken =>
      obtain ⟨hartId,left⟩ := taken
      simp only [Except.ok.injEq,Prod.mk.injEq,true_and]
      refine ⟨?_,?_⟩
      · rintro ⟨rfl,rfl⟩
        exact ⟨hartId,⟨rfl,rfl⟩,rfl⟩
      · rintro ⟨_,⟨rfl,rfl⟩,rfl⟩
        exact ⟨rfl,rfl⟩
  | _ => exact iff_of_false nofun nofun

theorem appValue_keeps {self : AppVars} : Keeps (appValue syn feature self name) := by
  have backend : Keeps (backendArgs syn feature) := by
    intro ts tokens rest result
    obtain ⟨_,hartId,read,_⟩ := backendArgs_ok.mp result
    exact ident_consumes.keeps _ _ _ read
  unfold appValue
  split
  · exact (valueOr_keeps syn.path_keeps).bind fun _ => keeps_pure
  · exact (valueOr_keeps litBool_keeps).bind fun _ => keeps_pure
  · exact (valueOr_keeps litBool_keeps).bind fun _ => keeps_pure
  · exact (valueOr_keeps syn.exprArray_keeps).bind fun _ => keeps_lift.bind fun _ => keeps_pure
  · exact (valueOr_keeps backend).bind fun _ => keeps_pure
  · exact keeps_throw

theorem appArg_advances (self : AppVars) : Advances (appArg syn feature self) := by
  intro ts next rest result
  unfold appArg at result
  rcases ifEmpty_ok.mp result with ⟨_,stopped⟩ | ⟨_,result⟩
  · cases (pure_ok.mp stopped).1
  · refine (ident_consumes.bind fun name => punct_consumes.keeps.bind fun _ => ?_) _ _ _ result
    split
    · exact keeps_throw
    · exact appValue_keeps.bind fun _ => untilComma_keeps
end

def AppArgs.parse : List Token → Except ParseError AppArgs := Parser.parse2 do
  let self ← untilBreak (appArg syn feature) appArg_advances .new
  self.finish
end
end Rtic.Syntax.Syn
