import Rtic.Syntax.AcceptedApp
import Rtic.Syntax.AppArguments
namespace Rtic.Syntax.Syn
open TokenParser

-- What the module is read with: the attributes as their metas, and the items.
structure SynParsers extends AppParsers where
  parseOuter : ParseStream (List (List Token))
  parseInner : ParseStream (List (List Token))
  item : ParseStream Item
  item_consumes : Consumes item

def keyword (name : String) : ParseStream Unit := fun ts =>
  match ts with
  | .ident other::rest => if other = name then .ok ((),rest) else .error ⟨.tokens ts,"expected `"++name++"`"⟩
  | _ => .error ⟨.tokens ts,"expected `"++name++"`"⟩

def braced : ParseStream (List Token) := fun ts =>
  match ts with
  | .group .brace stream::rest => .ok (stream,rest)
  | _ => .error ⟨.tokens ts,"expected curly braces"⟩

section
variable (syn : SynParsers)

-- One pass of the loop of parse_items.
def pushItem (items : List Item) : ParseStream (List Item) := do
  let item ← syn.item
  return items++[item]

theorem pushItem_consumes (items : List Item) : Consumes (pushItem syn items) :=
  syn.item_consumes.bind fun _ => keeps_pure

def parseItems (content : List Token) : Except ParseError (List Item) :=
  untilEmpty (pushItem syn) (pushItem_consumes syn) [] content

-- What stands in the braces.
def moduleContent (content : List Token) : Except ParseError (List (List Token) × List Item) := do
  let (innerAttributes,rest) ← syn.parseInner content
  let items ← parseItems syn rest
  return (innerAttributes,items)

def Input.parse : ParseStream Input := do
  let attributes ← syn.parseOuter
  let _ ← keyword "mod"
  let ident ← Syn.ident syn.toArgParsers
  let content ← braced
  let inner ← moduleContent syn content
  return ⟨attributes++inner.1,ident,inner.2⟩

-- syntax::parse, of the tokens of the attribute and of the module
def parse (feature : BackendFeature) (text : Type_ → Ty) (args input : List Token) :
    Option (Except Failure (App × Analyze.Analysis)) :=
  match AppArgs.parse syn.toAppParsers feature args with
  | .error e => some (.error (.parse e))
  | .ok args =>
    match Parser.parse2 (Input.parse syn) input with
    | .error e => some (.error (.parse e))
    | .ok input => parse2 syn.toArgParsers text args input
end

-- What App::parse expects of a module: it has one of each.
def Furnished (items : List Item) : Prop := sharedStructs items ≠ [] ∧ localStructs items ≠ [] ∧ initFns items ≠ []

section
variable {syn : SynParsers} {feature : BackendFeature} {text : Type_ → Ty} {ts input : List Token} {args : AppArgs}
  {read : Input} {parsers : ArgsParsers} {s : ParseState} {app : App} {analysis : Analyze.Analysis}

theorem Collected.none_iff {A : Type} {parse : Field → A} {structs : List ItemStruct} {ident : Option Ident}
    {vis : Visibility} {resources : Map A} (collected : Collected parse structs ident vis resources) :
    ident = none ↔ structs = [] := by
  rw [collected.last,Option.map_eq_none_iff,List.getLast?_eq_none_iff]

-- After the loop only what is missing is a panic.
theorem finish_panics (tells : Tells parsers (declaredParts read.items) s) :
    s.finish args read = none ↔ ¬Furnished read.items := by
  have init : s.init = none ↔ initFns read.items = [] := by
    unfold initFns
    rw [← tells.names.initName]
    cases s.init <;> simp
  have shared : s.sharedResourcesIdent = none ↔ sharedStructs read.items = [] := tells.shared.none_iff
  have local_ : s.localResourcesIdent = none ↔ localStructs read.items = [] := tells.local_.none_iff
  unfold Furnished ParseState.finish
  rw [← not_iff_not,not_not]
  simp only [ne_eq,← init,← shared,← local_]
  cases s.sharedResourcesIdent with
  | none => simp
  | some sharedIdent =>
    cases s.localResourcesIdent with
    | none => simp
    | some localIdent =>
      cases s.init with
      | none => simp
      | some made =>
        simp only [Option.bind_eq_bind,Option.bind_some]
        split
        · simp
        · split <;> simp

theorem parse_panics : App.parse parsers args read = none ↔
    (∃ s, read.items.foldlM (ParseState.item parsers) ParseState.new = .ok s) ∧ ¬Furnished read.items := by
  unfold App.parse
  cases loop : read.items.foldlM (ParseState.item parsers) ParseState.new with
  | error e => simp
  | ok s =>
    have tells : Tells parsers (declaredParts read.items) s := Accumulate.foldlM_parts item_tells new_tells loop
    simp only [Except.ok.injEq,exists_eq',true_and]
    exact finish_panics tells

theorem parse_state (parsed : App.parse parsers args read = some (.ok app)) :
    ∃ s, read.items.foldlM (ParseState.item parsers) ParseState.new = .ok s ∧ s.finish args read = some (.ok app) := by
  unfold App.parse at parsed
  split at parsed
  · cases parsed
  · rename_i s loop
    exact ⟨s,loop,parsed⟩

theorem finish_args (result : s.finish args read = some (.ok app)) : app.args = args := by
  unfold ParseState.finish at result
  obtain ⟨shared,_,result⟩ := Option.bind_eq_some_iff.mp result
  obtain ⟨local_,_,result⟩ := Option.bind_eq_some_iff.mp result
  obtain ⟨init,_,result⟩ := Option.bind_eq_some_iff.mp result
  split at result
  · cases result
  · split at result
    · cases result
    · cases result
      rfl

theorem initArgs_declared {initArgs_ : InitArgs} (parsed : initArgs syn.toArgParsers ts = .ok initArgs_) :
    ∀ entry ∈ initArgs_.localResources, ∃ local_, entry.2 = .declared local_ := by
  unfold initArgs at parsed
  rcases ifEmpty_ok.mp (parse2_ok.mp parsed) with ⟨_,default_⟩ | ⟨_,result⟩
  · cases (pure_ok.mp default_).1
    exact nofun
  · obtain ⟨given,_,_,result⟩ := bind_ok.mp result
    obtain ⟨_,_,checked,result⟩ := bind_ok.mp result
    obtain ⟨checked,_⟩ := lift_ok.mp checked
    cases (pure_ok.mp result).1
    intro entry member
    unfold onlyDeclared at checked
    split at checked
    · cases checked
    · rename_i none_
      have refused := List.findSome?_eq_none_iff.mp none_ entry member
      cases own : entry.2 with
      | external => simp [externalError,own] at refused
      | declared local_ => exact ⟨local_,rfl⟩

theorem parse_parts (accepted : parse syn feature text ts input = some (.ok (app,analysis))) :
    ∃ args read, AppArgs.parse syn.toAppParsers feature ts = .ok args ∧
      Parser.parse2 (Input.parse syn) input = .ok read ∧ parse2 syn.toArgParsers text args read = some (.ok (app,analysis)) := by
  unfold parse at accepted
  split at accepted
  · cases accepted
  · rename_i args parsedArgs
    split at accepted
    · cases accepted
    · rename_i read parsedInput
      exact ⟨args,read,parsedArgs,parsedInput,accepted⟩

-- What is accepted is well-formed, and init has only declared local resources.
theorem parse_wellFormed (accepted : parse syn feature text ts input = some (.ok (app,analysis))) :
    (app.erase text).Parsed ∧ (app.erase text).Keyed ∧
      ∀ entry ∈ (app.erase text).init.localResources, isExternal entry = false := by
  obtain ⟨args,read,parsedArgs,_,accepted⟩ := parse_parts accepted
  obtain ⟨parsed,_,_⟩ := parse2_parts accepted
  have kept : app.args = args := by
    obtain ⟨s,_,finished⟩ := parse_state parsed
    exact finish_args finished
  have dispatchers : Keyed app.args.dispatchers := kept ▸ appArgs_keyed parsedArgs
  obtain ⟨basic,keyed⟩ := parse2_wellFormed accepted dispatchers
  refine ⟨basic,keyed,fun entry member => ?_⟩
  obtain ⟨own,listed,rfl⟩ := List.mem_map.mp member
  obtain ⟨tokens,answer⟩ := (parse_given parsed).initArgs _ rfl
  obtain ⟨local_,declared⟩ := initArgs_declared answer own listed
  simp [isExternal,declared,TaskLocal.erase]

end
end Rtic.Syntax.Syn
