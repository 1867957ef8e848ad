import Rtic.Syntax.ArgumentOrder
import Rtic.Syntax.Exclusivity
import Rtic.Syntax.Uniqueness
namespace Rtic.Syntax.Syn
open Accumulate
open TokenParser (Breaks untilBreak_ok untilBreak)

section
variable {syn : ArgParsers} {ts : List Token}

theorem localResources_keyed {resources : LocalResources} (parsed : localResources syn.toParsers ts = .ok resources) :
    Keyed resources := by
  obtain ⟨items,_,_,distinct,rfl⟩ := localResources_ok.mp parsed
  have same : (resourcesOf (items.map Prod.fst)).map Prod.fst = items.map fun item => item.1.name := by
    simp [resourcesOf]
  unfold Keyed
  rwa [same]

theorem sharedResource_keyed (resources : SharedResources) (expr : Expr) (next : SharedResources) (keyed : Keyed resources)
    (result : sharedResource syn resources expr = .ok next) : Keyed next := by
  unfold sharedResource at result
  obtain ⟨access,_,result⟩ := bind_ok.mp result
  obtain ⟨ident,_,result⟩ := bind_ok.mp result
  obtain ⟨absent,result⟩ := guard_ok.mp result
  cases result
  have absent := eq_false_of_ne_true absent
  rw [Ordered.insert_absent absent]
  unfold Keyed
  rw [List.map_append]
  exact nodup_concat keyed fun member => Bool.false_ne_true (absent.symm.trans (Ordered.containsKey_iff.mpr member))

theorem sharedResources_keyed {resources : SharedResources} (parsed : sharedResources syn ts = .ok resources) :
    Keyed resources := by
  unfold sharedResources at parsed
  obtain ⟨⟨exprs,_⟩,_,loop⟩ := bind_ok.mp parsed
  exact foldlM_keeps sharedResource_keyed (show Keyed [] from List.nodup_nil) loop

-- What the lists of an attribute hold, each name once.
structure Lists (localResources : LocalResources) (sharedResources : SharedResources) : Prop where
  local_ : Keyed localResources
  shared : Keyed sharedResources

theorem getD_keyed {A : Type} {given : Option (Map A)} (each : ∀ m ∈ given, Keyed m) : Keyed (given.getD []) := by
  cases given with
  | none => exact List.nodup_nil
  | some m => exact each m rfl

theorem localArgument_keyed {name : Ident} {given next : Option LocalResources} {rest : List Token}
    (result : localArgument syn name given ts = .ok (next,rest)) : ∀ m ∈ next, Keyed m := by
  obtain ⟨_,stream,list,rfl,parsed,rfl⟩ := localArgument_ok.mp result
  exact fun m same => Option.some.inj same ▸ localResources_keyed parsed

theorem sharedArgument_keyed {name : Ident} {given next : Option SharedResources} {rest : List Token}
    (result : sharedArgument syn name given ts = .ok (next,rest)) : ∀ m ∈ next, Keyed m := by
  obtain ⟨_,stream,list,rfl,parsed,rfl⟩ := sharedArgument_ok.mp result
  exact fun m same => Option.some.inj same ▸ sharedResources_keyed parsed

theorem initArg_keyed (given : Option LocalResources) (ts : List Token) (next : Option LocalResources) (more : Bool)
    (rest : List Token) (_ : ∀ m ∈ given, Keyed m) (result : initArg syn given ts = .ok ((next,more),rest)) :
    ∀ m ∈ next, Keyed m := by
  unfold initArg at result
  obtain ⟨name,after,_,_,result⟩ := ident_bind_ok.mp result
  obtain ⟨_,behind,_,result⟩ := punct_bind_ok.mp result
  split at result
  · obtain ⟨given,left,list,comma⟩ := TokenParser.bind_ok.mp result
    cases (untilComma_ok.mp comma).1
    exact localArgument_keyed list
  · cases result

theorem initArgs_keyed {args : InitArgs} (parsed : initArgs syn ts = .ok args) : Keyed args.localResources := by
  unfold initArgs at parsed
  rcases TokenParser.ifEmpty_ok.mp (parse2_ok.mp parsed) with ⟨_,default_⟩ | ⟨_,result⟩
  · cases (TokenParser.pure_ok.mp default_).1
    exact List.nodup_nil
  · obtain ⟨given,_,looped,result⟩ := TokenParser.bind_ok.mp result
    obtain ⟨_,_,_,result⟩ := TokenParser.bind_ok.mp result
    cases (TokenParser.pure_ok.mp result).1
    exact getD_keyed ((untilBreak_ok.mp looped).keeps initArg_keyed nofun)

theorem idleArg_keyed (self : IdleVars) (ts : List Token) (next : IdleVars) (more : Bool) (rest : List Token)
    (keyed : (∀ m ∈ self.localResources, Keyed m) ∧ ∀ m ∈ self.sharedResources, Keyed m)
    (result : idleArg syn self ts = .ok ((next,more),rest)) :
    (∀ m ∈ next.localResources, Keyed m) ∧ ∀ m ∈ next.sharedResources, Keyed m := by
  unfold idleArg at result
  obtain ⟨name,after,_,_,result⟩ := ident_bind_ok.mp result
  obtain ⟨_,behind,_,result⟩ := punct_bind_ok.mp result
  split at result
  · obtain ⟨given,left,list,comma⟩ := TokenParser.bind_ok.mp result
    cases (untilComma_ok.mp comma).1
    exact ⟨keyed.1,sharedArgument_keyed list⟩
  · obtain ⟨given,left,list,comma⟩ := TokenParser.bind_ok.mp result
    cases (untilComma_ok.mp comma).1
    exact ⟨localArgument_keyed list,keyed.2⟩
  · cases result

theorem idleArgs_lists {args : IdleArgs} (parsed : idleArgs syn ts = .ok args) :
    Lists args.localResources args.sharedResources := by
  unfold idleArgs at parsed
  rcases TokenParser.ifEmpty_ok.mp (parse2_ok.mp parsed) with ⟨_,default_⟩ | ⟨_,result⟩
  · cases (TokenParser.pure_ok.mp default_).1
    exact ⟨List.nodup_nil,List.nodup_nil⟩
  · obtain ⟨self,_,looped,result⟩ := TokenParser.bind_ok.mp result
    cases (TokenParser.pure_ok.mp result).1
    obtain ⟨local_,shared⟩ := (untilBreak_ok.mp looped).keeps idleArg_keyed ⟨nofun,nofun⟩
    exact ⟨getD_keyed local_,getD_keyed shared⟩

-- The arguments that a list is read as have been read one by one.
theorem Reading.valued {args : List Argument} {rest : List Token} (reading : Reading syn ts args rest) :
    ∀ arg ∈ args, (∃ token, Valued syn arg token) ∨ arg = .localTask true := by
  have taken : ∀ ts arg more rest, Takes syn ts arg more rest → (∃ token, Valued syn arg token) ∨ arg = .localTask true := by
    intro ts arg more rest takes
    cases takes with
    | bare => exact .inr rfl
    | localTask valued => exact .inl ⟨_,valued⟩
    | last _ _ valued => exact .inl ⟨_,valued⟩
    | comma _ _ valued => exact .inl ⟨_,valued⟩
  induction reading with
  | none => exact nofun
  | stop takes => exact List.forall_mem_singleton.mpr (taken _ _ _ _ takes)
  | more takes _ ih => exact List.forall_mem_cons.mpr ⟨taken _ _ _ _ takes,ih⟩

theorem argument_found {A : Type} {f : Argument → Option A} {p : A → Prop} {args : List Argument} {rest : List Token}
    (reading : Reading syn ts args rest) (bare : f (.localTask true) = none)
    (each : ∀ arg token, Valued syn arg token → ∀ a ∈ f arg, p a) : ∀ a ∈ args.findSome? f, p a := by
  intro a found
  obtain ⟨arg,member,given⟩ := List.exists_of_findSome?_eq_some found
  rcases reading.valued arg member with ⟨token,valued⟩ | rfl
  · exact each arg token valued a given
  · rw [bare] at given
    cases given

theorem reading_lists {args : List Argument} {rest : List Token} (reading : Reading syn ts args rest) :
    Lists ((args.findSome? Argument.local?).getD []) ((args.findSome? Argument.shared?).getD []) := by
  refine ⟨getD_keyed (argument_found reading rfl ?_),getD_keyed (argument_found reading rfl ?_)⟩
  · intro arg token valued m given
    cases valued with
    | local_ list => exact Option.some.inj given ▸ localResources_keyed list
    | _ => cases given
  · intro arg token valued m given
    cases valued with
    | shared list => exact Option.some.inj given ▸ sharedResources_keyed list
    | _ => cases given

theorem reading_priority {args : List Argument} {rest : List Token} (reading : Reading syn ts args rest) :
    ∀ priority ∈ (args.findSome? Argument.priority?).map Prod.fst, priority < 256 := by
  intro priority given
  obtain ⟨found,here,rfl⟩ := Option.mem_map.mp given
  refine argument_found (p:=fun found => found.1 < 256) reading rfl ?_ found here
  intro arg token valued found given
  cases valued with
  | priority _ small => exact Option.some.inj given ▸ small
  | _ => cases given

theorem getD_lt {given : Option Nat} {default_ bound : Nat} (small : default_ < bound) (each : ∀ n ∈ given, n < bound) :
    given.getD default_ < bound := by
  cases given with
  | none => exact small
  | some n => exact each n rfl

-- The priority of a hardware task is not 0, where it has one.
theorem hardware_positive {args : List Argument} {ident : Ident} (valid : ∀ arg ∈ args, arg.Valid args)
    (bound : args.findSome? Argument.binds? = some ident) :
    1 ≤ ((args.findSome? Argument.priority?).map Prod.fst).getD 1 := by
  obtain ⟨own,here,named⟩ := List.exists_of_findSome?_eq_some bound
  cases found : args.findSome? Argument.priority? with
  | none => exact Nat.le_refl 1
  | some priority =>
    obtain ⟨arg,member,given⟩ := List.exists_of_findSome?_eq_some found
    cases arg with
    | priority text value =>
      cases given
      exact Nat.pos_of_ne_zero (valid _ member ⟨own,here,by simp [named]⟩)
    | _ => cases given

theorem hardwareArgs_facts {args : HardwareTaskArgs} (parsed : taskArgs syn ts = .ok (.inl args)) :
    (1 ≤ args.priority ∧ args.priority < 256) ∧ Lists args.localResources args.sharedResources := by
  obtain ⟨given,reading,distinct,finished⟩ := taskArgs_ok.mp parsed
  obtain ⟨valid,same⟩ := (finish_iff distinct).mp finished
  unfold taskArgsOf at same
  split at same
  · rename_i ident bound
    cases same
    exact ⟨⟨hardware_positive valid bound,getD_lt (by decide) (reading_priority reading)⟩,reading_lists reading⟩
  · cases same

theorem softwareArgs_facts {args : SoftwareTaskArgs} (parsed : taskArgs syn ts = .ok (.inr args)) :
    args.priority < 256 ∧ Lists args.localResources args.sharedResources := by
  obtain ⟨given,reading,distinct,finished⟩ := taskArgs_ok.mp parsed
  obtain ⟨_,same⟩ := (finish_iff distinct).mp finished
  unfold taskArgsOf at same
  split at same
  · cases same
  · cases same
    exact ⟨getD_lt (by decide) (reading_priority reading),reading_lists reading⟩

theorem argsParsers_bounded : (argsParsers syn).Bounded :=
  ⟨fun _ _ parsed => (hardwareArgs_facts parsed).1,fun _ _ parsed => (softwareArgs_facts parsed).1⟩
end

-- Where the arguments of init and of idle come from.
structure Given (parsers : ArgsParsers) (init : Option Init) (idle : Option Idle) : Prop where
  initArgs : ∀ made ∈ init, ∃ tokens, parsers.initArgs tokens = .ok made.args
  idleArgs : ∀ made ∈ idle, ∃ tokens, parsers.idleArgs tokens = .ok made.args

section
variable {parsers : ArgsParsers} {s t : ParseState} {attr : Attribute} {ident : Ident}

theorem initFn_given {parse : InitArgs → Except ParseError Init} (given : Given parsers s.init s.idle)
    (kept : ∀ args init, parse args = .ok init → init.args = args) (result : s.initFn parsers attr ident parse = .ok t) :
    Given parsers t.init t.idle := by
  unfold ParseState.initFn at result
  obtain ⟨args,answer,result⟩ := bind_ok.mp result
  obtain ⟨_,result⟩ := guard_ok.mp result
  obtain ⟨_,_,result⟩ := bind_ok.mp result
  obtain ⟨init,parsed,result⟩ := bind_ok.mp result
  cases result
  cases kept args init parsed
  refine ⟨fun _ own => ?_,given.idleArgs⟩
  cases own
  exact ⟨_,answer⟩

theorem idleFn_given {parse : IdleArgs → Except ParseError Idle} (given : Given parsers s.init s.idle)
    (kept : ∀ args idle, parse args = .ok idle → idle.args = args) (result : s.idleFn parsers attr ident parse = .ok t) :
    Given parsers t.init t.idle := by
  unfold ParseState.idleFn at result
  obtain ⟨args,answer,result⟩ := bind_ok.mp result
  obtain ⟨_,result⟩ := guard_ok.mp result
  obtain ⟨_,_,result⟩ := bind_ok.mp result
  obtain ⟨idle,parsed,result⟩ := bind_ok.mp result
  cases result
  cases kept args idle parsed
  refine ⟨given.initArgs,fun _ own => ?_⟩
  cases own
  exact ⟨_,answer⟩

-- The tasks leave init and idle as they are.
theorem taskFn_given {hardware : HardwareTaskArgs → Except ParseError HardwareTask}
    {software : SoftwareTaskArgs → Except ParseError SoftwareTask} (given : Given parsers s.init s.idle)
    (result : (do
      match ← parsers.taskArgs attr.parseArgs with
      | .inl args => s.hardwareTask ident args hardware
      | .inr args => s.softwareTask ident args software) = .ok t) : Given parsers t.init t.idle := by
  obtain ⟨args,_,result⟩ := bind_ok.mp result
  cases args with
  | inl args =>
    change s.hardwareTask ident args hardware = _ at result
    unfold ParseState.hardwareTask at result
    obtain ⟨_,_,result⟩ := bind_ok.mp result
    obtain ⟨_,_,result⟩ := bind_ok.mp result
    obtain ⟨_,_,result⟩ := bind_ok.mp result
    cases result
    exact given
  | inr args =>
    change s.softwareTask ident args software = _ at result
    unfold ParseState.softwareTask at result
    obtain ⟨_,_,result⟩ := bind_ok.mp result
    obtain ⟨_,_,result⟩ := bind_ok.mp result
    cases result
    exact given

theorem foreignItem_given (s : ParseState) (item : ForeignItem) (t : ParseState) (given : Given parsers s.init s.idle)
    (result : s.foreignItem parsers item = .ok t) : Given parsers t.init t.idle := by
  cases item with
  | other tokens => cases result
  | fn item =>
    change s.foreignFn parsers item = _ at result
    unfold ParseState.foreignFn at result
    refine @fnParts_of item.attrs item.sig.ident _ (fun _ => Given parsers t.init t.idle) [] _ _ _ _ t result ?_ ?_ ?_ nofun
    · exact fun _ _ result => initFn_given given (fun _ _ parsed => (initOf_made parsed).2) result
    · exact fun _ _ result => idleFn_given given (fun _ _ parsed => (idleOf_made parsed).2) result
    · intro _ _ result
      obtain ⟨_,result⟩ := guard_ok.mp result
      obtain ⟨_,result⟩ := guard_ok.mp result
      exact taskFn_given given result

theorem fn_given {item : ItemFn} (given : Given parsers s.init s.idle) (result : s.fn parsers item = .ok t) :
    Given parsers t.init t.idle := by
  unfold ParseState.fn at result
  refine @fnParts_of item.attrs item.sig.ident _ (fun _ => Given parsers t.init t.idle) [] _ _ _ _ t result ?_ ?_ ?_ ?_
  · exact fun _ _ result => initFn_given given (fun _ _ parsed => (initOf_made parsed).2) result
  · exact fun _ _ result => idleFn_given given (fun _ _ parsed => (idleOf_made parsed).2) result
  · intro _ _ result
    obtain ⟨_,result⟩ := guard_ok.mp result
    exact taskFn_given given result
  · intro result
    cases result
    exact given

theorem struct_given {item : ItemStruct} (given : Given parsers s.init s.idle) (result : s.struct_ item = .ok t) :
    Given parsers t.init t.idle := by
  unfold ParseState.struct_ at result
  split at result
  · obtain ⟨_,_,_,_,_,rfl⟩ := resourceStruct_ok result
    exact given
  · split at result
    · obtain ⟨_,_,_,_,_,rfl⟩ := resourceStruct_ok result
      exact given
    · cases result
      exact given

theorem item_given (s : ParseState) (item : Item) (t : ParseState) (given : Given parsers s.init s.idle)
    (result : s.item parsers item = .ok t) : Given parsers t.init t.idle := by
  cases item with
  | fn item => exact fn_given given result
  | struct_ item => exact struct_given given result
  | foreignMod mod =>
    change (if abiIsRust mod.abi = true then mod.items.foldlM (ParseState.foreignItem parsers) s else throw _) = _ at result
    split at result
    · exact foldlM_keeps (p:=fun s => Given parsers s.init s.idle) foreignItem_given given result
    · cases result
  | use_ item =>
    cases result
    exact given
  | other tokens =>
    cases result
    exact given

theorem parse_given {args : AppArgs} {input : Input} {app : App} (parsed : App.parse parsers args input = some (.ok app)) :
    Given parsers (some app.init) app.idle := by
  unfold App.parse at parsed
  split at parsed
  · cases parsed
  · rename_i state loop
    have finished := finish_finished parsed
    rw [← finished.init,finished.idle]
    have start : Given parsers none none := ⟨nofun,nofun⟩
    exact foldlM_keeps (p:=fun s => Given parsers s.init s.idle) item_given start loop
end

-- syntax::parse2, of the arguments and the module as they are parsed. What an error tells.
inductive Failure where
  | parse (error : ParseError)
  | check (error : Error)
  | analyze (errors : List Error)
  deriving Repr

-- none is a panic of App::parse.
def parse2 (syn : ArgParsers) (text : Type_ → Ty) (args : AppArgs) (input : Input) :
    Option (Except Failure (App × Analyze.Analysis)) :=
  match App.parse (argsParsers syn) args input with
  | none => none
  | some (.error e) => some (.error (.parse e))
  | some (.ok app) =>
    match Check.app (app.erase text) with
    | .error e => some (.error (.check e))
    | .ok _ =>
      match Analyze.app (app.erase text) with
      | .error errors => some (.error (.analyze errors))
      | .ok analysis => some (.ok (app,analysis))

section
variable {syn : ArgParsers} {text : Type_ → Ty} {args : AppArgs} {input : Input} {app : App} {analysis : Analyze.Analysis}

theorem parse2_parts (accepted : parse2 syn text args input = some (.ok (app,analysis))) :
    App.parse (argsParsers syn) args input = some (.ok app) ∧ Check.app (app.erase text) = .ok () ∧
      Analyze.app (app.erase text) = .ok analysis := by
  unfold parse2 at accepted
  split at accepted
  · cases accepted
  · cases accepted
  · rename_i parsed
    split at accepted
    · cases accepted
    · rename_i checked
      split at accepted
      · cases accepted
      · rename_i analyzed
        cases accepted
        exact ⟨parsed,checked,analyzed⟩

@[simp] theorem erase_keyed {m : LocalResources} : Keyed (m.erase text) ↔ Keyed m := by
  unfold Keyed LocalResources.erase
  rw [List.map_map]
  rfl

-- Each list of an attribute names a resource once.
structure App.Listed (app : App) : Prop where
  init : Keyed app.init.args.localResources
  idle : ∀ idle ∈ app.idle, Lists idle.args.localResources idle.args.sharedResources
  hardware : ∀ task ∈ app.hardwareTasks, Lists task.2.args.localResources task.2.args.sharedResources
  software : ∀ task ∈ app.softwareTasks, Lists task.2.args.localResources task.2.args.sharedResources

theorem parse_listed (parsed : App.parse (argsParsers syn) args input = some (.ok app)) : app.Listed := by
  have given := parse_given parsed
  obtain ⟨s,tells,finished,_⟩ := parse_finished parsed
  refine ⟨?_,fun idle own => ?_,fun task member => ?_,fun task member => ?_⟩
  · obtain ⟨tokens,answer⟩ := given.initArgs _ rfl
    exact initArgs_keyed answer
  · obtain ⟨tokens,answer⟩ := given.idleArgs idle own
    exact idleArgs_lists answer
  · obtain ⟨tokens,answer⟩ := tells.names.hardwareArgs task (finished.hardware ▸ member)
    exact (hardwareArgs_facts answer).2
  · obtain ⟨tokens,answer⟩ := tells.names.softwareArgs task (finished.software ▸ member)
    exact (softwareArgs_facts answer).2

-- What is accepted is as the checks and the analysis take it to be.
theorem parse2_wellFormed (accepted : parse2 syn text args input = some (.ok (app,analysis)))
    (dispatchers : Keyed app.args.dispatchers) : (app.erase text).Parsed ∧ (app.erase text).Keyed := by
  obtain ⟨parsed,_,_⟩ := parse2_parts accepted
  have basic := parse_parsed text argsParsers_bounded parsed
  have listed := parse_listed parsed
  have tasks := basic.names
  unfold Syntax.App.taskNames at tasks
  refine ⟨basic,dispatchers,basic.shared,basic.local_,?_,?_,erase_keyed.mpr listed.init,?_,?_,?_,?_,?_,?_⟩
  · exact ((List.nodup_append.mp (List.nodup_append.mp tasks).1).2).1
  · exact (List.nodup_append.mp tasks).2.1
  · intro idle own
    obtain ⟨made,here,rfl⟩ := Option.mem_map.mp own
    exact (listed.idle made here).shared
  · intro idle own
    obtain ⟨made,here,rfl⟩ := Option.mem_map.mp own
    exact erase_keyed.mpr (listed.idle made here).local_
  all_goals
    intro task member
    obtain ⟨made,here,rfl⟩ := List.mem_map.mp member
  · exact (listed.hardware made here).shared
  · exact erase_keyed.mpr (listed.hardware made here).local_
  · exact (listed.software made here).shared
  · exact erase_keyed.mpr (listed.software made here).local_
end
end Rtic.Syntax.Syn
