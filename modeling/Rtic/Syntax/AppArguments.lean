import Rtic.Syntax.ParseAppArgs
namespace Rtic.Syntax.Syn
open TokenParser

-- An argument of #[app] and what it gives.
inductive AppArgument where
  | device (path : Path)
  | core (value : Bool)
  | peripherals (value : Bool)
  | dispatchers (list : Map (List Attribute))
  | backend (tokens : List Token)
  deriving Repr

namespace AppArgument

def name : AppArgument → Ident
  | .device _ => "device"
  | .core _ => "core"
  | .peripherals _ => "peripherals"
  | .dispatchers _ => "dispatchers"
  | .backend _ => "backend"

def device? : AppArgument → Option Path
  | .device path => some path
  | _ => none
def core? : AppArgument → Option Bool
  | .core value => some value
  | _ => none
def peripherals? : AppArgument → Option Bool
  | .peripherals value => some value
  | _ => none
def dispatchers? : AppArgument → Option (Map (List Attribute))
  | .dispatchers list => some list
  | _ => none
def backend? : AppArgument → Option (List Token)
  | .backend tokens => some tokens
  | _ => none

end AppArgument

def DistinctArgs (args : List AppArgument) : Prop := (args.map AppArgument.name).Nodup

-- What the arguments mean, in no order. none: there is no device.
def appArgsOf (args : List AppArgument) : Option AppArgs :=
  (args.findSome? AppArgument.device?).map fun device =>
    ⟨device,(args.findSome? AppArgument.core?).getD true,(args.findSome? AppArgument.peripherals?).getD true,
      (args.findSome? AppArgument.dispatchers?).getD [],args.findSome? AppArgument.backend?⟩

section
variable (syn : AppParsers) (feature : BackendFeature)

-- What stands behind the equal sign, with what is left behind it.
def Gives (ts rest : List Token) : AppArgument → Prop
  | .device path => syn.path ts = .ok (path,rest)
  | .core value => litBool ts = .ok (value,rest)
  | .peripherals value => litBool ts = .ok (value,rest)
  | .dispatchers list => ∃ elems, syn.exprArray ts = .ok (elems,rest) ∧ addDispatchers [] elems = .ok list
  | .backend tokens => backendArgs syn feature ts = .ok (tokens,rest)

-- The arguments as the loop comes to them.
inductive ReadsArgs : List Token → List AppArgument → Prop where
  | none : ReadsArgs [] []
  | last (gives : Gives syn feature ts [] arg) : ReadsArgs (.ident arg.name::.punct '=' eq::ts) [arg]
  | comma (gives : Gives syn feature ts (.punct ',' joint::rest) arg) (more : ReadsArgs rest args) :
      ReadsArgs (.ident arg.name::.punct '=' eq::ts) (arg::args)

-- An argument that reads the same at the end and before any comma.
def WrittenArg (arg : AppArgument) (ts : List Token) : Prop :=
  ∃ eq value, ts = .ident arg.name::.punct '=' eq::value ∧ Gives syn feature value [] arg ∧
    ∀ joint rest, Gives syn feature (value++.punct ',' joint::rest) (.punct ',' joint::rest) arg

-- A list of arguments, with or without a comma at its end.
inductive ListsArgs : List AppArgument → List Token → Prop where
  | none : ListsArgs [] []
  | last (written : WrittenArg syn feature arg ts) : ListsArgs [arg] ts
  | comma (written : WrittenArg syn feature arg ts) (more : ListsArgs args rest) :
      ListsArgs (arg::args) (ts++.punct ',' joint::rest)
end

-- The variables of AppArgs::parse once it has read the arguments.
def appVarsOf (args : List AppArgument) : AppVars where
  custom := args.map AppArgument.name
  device := args.findSome? AppArgument.device?
  core := (args.findSome? AppArgument.core?).getD true
  peripherals := (args.findSome? AppArgument.peripherals?).getD true
  dispatchers := (args.findSome? AppArgument.dispatchers?).getD []
  backend := args.findSome? AppArgument.backend?

def AppVars.add (self : AppVars) : AppArgument → AppVars
  | .device path => {self with device := some path}
  | .core value => {self with core := value}
  | .peripherals value => {self with peripherals := value}
  | .dispatchers list => {self with dispatchers := list}
  | .backend tokens => {self with backend := some tokens}

section
variable {syn : AppParsers} {feature : BackendFeature} {seen args order : List AppArgument} {arg other : AppArgument}
  {ts rest after : List Token} {name : Ident} {next : AppVars} {more : Bool}

theorem found_none {A : Type} {f : AppArgument → Option A} (fresh : name ∉ seen.map AppArgument.name)
    (reads : ∀ arg, (f arg).isSome = true → arg.name = name) : seen.findSome? f = none := by
  refine List.findSome?_eq_none_iff.mpr fun arg member => ?_
  cases given : f arg with
  | none => rfl
  | some a => exact absurd (reads arg (by simp [given]) ▸ List.mem_map_of_mem member) fresh

-- Which name an argument has, by what it gives.
theorem device?_named (arg : AppArgument) : arg.device?.isSome = true → arg.name = "device" := by
  cases arg <;> simp [AppArgument.device?,AppArgument.name]
theorem core?_named (arg : AppArgument) : arg.core?.isSome = true → arg.name = "core" := by
  cases arg <;> simp [AppArgument.core?,AppArgument.name]
theorem peripherals?_named (arg : AppArgument) : arg.peripherals?.isSome = true → arg.name = "peripherals" := by
  cases arg <;> simp [AppArgument.peripherals?,AppArgument.name]
theorem dispatchers?_named (arg : AppArgument) : arg.dispatchers?.isSome = true → arg.name = "dispatchers" := by
  cases arg <;> simp [AppArgument.dispatchers?,AppArgument.name]
theorem backend?_named (arg : AppArgument) : arg.backend?.isSome = true → arg.name = "backend" := by
  cases arg <;> simp [AppArgument.backend?,AppArgument.name]

theorem appVarsOf_snoc (fresh : arg.name ∉ seen.map AppArgument.name) :
    appVarsOf (seen++[arg]) = {appVarsOf seen with custom := (appVarsOf seen).custom++[arg.name]}.add arg := by
  have grown : ∀ {A : Type} (f : AppArgument → Option A), (seen++[arg]).findSome? f = (seen.findSome? f).or (f arg) := by
    intro A f
    simp [List.findSome?_append]
  unfold appVarsOf
  rw [grown,grown,grown,grown,grown,List.map_append]
  cases arg with
  | device path =>
    simp [AppVars.add,found_none fresh device?_named,AppArgument.device?,AppArgument.core?,AppArgument.peripherals?,
      AppArgument.dispatchers?,AppArgument.backend?]
  | core value =>
    simp [AppVars.add,found_none fresh core?_named,AppArgument.device?,AppArgument.core?,AppArgument.peripherals?,
      AppArgument.dispatchers?,AppArgument.backend?]
  | peripherals value =>
    simp [AppVars.add,found_none fresh peripherals?_named,AppArgument.device?,AppArgument.core?,
      AppArgument.peripherals?,AppArgument.dispatchers?,AppArgument.backend?]
  | dispatchers list =>
    simp [AppVars.add,found_none fresh dispatchers?_named,AppArgument.device?,AppArgument.core?,
      AppArgument.peripherals?,AppArgument.dispatchers?,AppArgument.backend?]
  | backend tokens =>
    simp [AppVars.add,found_none fresh backend?_named,AppArgument.device?,AppArgument.core?,AppArgument.peripherals?,
      AppArgument.dispatchers?,AppArgument.backend?]

-- The match on the name takes the value of the argument of that name. Before it no dispatchers were listed.
theorem appValue_ok {self : AppVars} (empty : name = "dispatchers" → self.dispatchers = []) :
    appValue syn feature self name ts = .ok (next,rest) ↔
      ∃ arg : AppArgument, arg.name = name ∧ Gives syn feature ts rest arg ∧ next = self.add arg := by
  unfold appValue
  split
  · rw [bind_ok]
    simp only [valueOr_ok,pure_ok]
    refine ⟨?_,?_⟩
    · rintro ⟨path,_,read,rfl,rfl⟩
      exact ⟨.device path,rfl,read,rfl⟩
    · rintro ⟨arg,named,gives,rfl⟩
      cases arg with
      | device path => exact ⟨path,rest,gives,rfl,rfl⟩
      | _ => simp [AppArgument.name] at named
  · rw [bind_ok]
    simp only [valueOr_ok,pure_ok]
    refine ⟨?_,?_⟩
    · rintro ⟨value,_,read,rfl,rfl⟩
      exact ⟨.core value,rfl,read,rfl⟩
    · rintro ⟨arg,named,gives,rfl⟩
      cases arg with
      | core value => exact ⟨value,rest,gives,rfl,rfl⟩
      | _ => simp [AppArgument.name] at named
  · rw [bind_ok]
    simp only [valueOr_ok,pure_ok]
    refine ⟨?_,?_⟩
    · rintro ⟨value,_,read,rfl,rfl⟩
      exact ⟨.peripherals value,rfl,read,rfl⟩
    · rintro ⟨arg,named,gives,rfl⟩
      cases arg with
      | peripherals value => exact ⟨value,rest,gives,rfl,rfl⟩
      | _ => simp [AppArgument.name] at named
  · rw [bind_ok,empty rfl]
    simp only [valueOr_ok]
    refine ⟨?_,?_⟩
    · rintro ⟨elems,_,read,result⟩
      obtain ⟨list,_,added,result⟩ := bind_ok.mp result
      obtain ⟨added_,rfl⟩ := lift_ok.mp added
      obtain ⟨rfl,rfl⟩ := pure_ok.mp result
      exact ⟨.dispatchers list,rfl,⟨elems,read,added_⟩,rfl⟩
    · rintro ⟨arg,named,gives,rfl⟩
      cases arg with
      | dispatchers list =>
        obtain ⟨elems,read,added⟩ := gives
        exact ⟨elems,rest,read,bind_ok.mpr ⟨list,rest,lift_ok.mpr ⟨added,rfl⟩,rfl⟩⟩
      | _ => simp [AppArgument.name] at named
  · rw [bind_ok]
    simp only [valueOr_ok,pure_ok]
    refine ⟨?_,?_⟩
    · rintro ⟨tokens,_,read,rfl,rfl⟩
      exact ⟨.backend tokens,rfl,read,rfl⟩
    · rintro ⟨arg,named,gives,rfl⟩
      cases arg with
      | backend tokens => exact ⟨tokens,rest,gives,rfl,rfl⟩
      | _ => simp [AppArgument.name] at named
  · rename_i notDevice notCore notPeripherals notDispatchers notBackend
    refine iff_of_false (fun failed => by cases failed) ?_
    rintro ⟨arg,named,_⟩
    cases arg with
    | device => exact notDevice named.symm
    | core => exact notCore named.symm
    | peripherals => exact notPeripherals named.symm
    | dispatchers => exact notDispatchers named.symm
    | backend => exact notBackend named.symm

theorem appName_accepted (arg : AppArgument) : syn.acceptAsIdent arg.name = true :=
  syn.appNames_accepted _ (by cases arg <;> simp [appArgumentNames,AppArgument.name])

-- One pass of the loop: there is nothing left, or one more argument is read, with the comma behind it.
theorem appArg_ok : appArg syn feature (appVarsOf seen) ts = .ok ((next,more),rest) ↔
    (ts = [] ∧ next = appVarsOf seen ∧ more = false ∧ rest = []) ∨
    ∃ (arg : AppArgument) (eq : Bool) (value left : List Token), ts = .ident arg.name::.punct '=' eq::value ∧
      arg.name ∉ seen.map AppArgument.name ∧ next = appVarsOf (seen++[arg]) ∧ Gives syn feature value left arg ∧
      ((more = false ∧ left = [] ∧ rest = []) ∨ (more = true ∧ ∃ joint, left = .punct ',' joint::rest)) := by
  unfold appArg
  rw [ifEmpty_ok]
  refine or_congr ?_ ?_
  · rw [pure_ok]
    simp only [Prod.mk.injEq]
    exact ⟨fun ⟨empty,⟨same,stops⟩,here⟩ => ⟨empty,same.symm,stops.symm,here.symm.trans empty⟩,
      fun ⟨empty,same,stops,here⟩ => ⟨empty,⟨same.symm,stops.symm⟩,empty.trans here.symm⟩⟩
  · rw [ident_bind_ok]
    simp only [punct_bind_ok]
    have empty : ∀ {name}, name ∉ seen.map AppArgument.name → name = "dispatchers" →
        {appVarsOf seen with custom := (appVarsOf seen).custom++[name]}.dispatchers = [] := by
      rintro name fresh rfl
      simp [appVarsOf,found_none fresh dispatchers?_named]
    refine ⟨?_,?_⟩
    · rintro ⟨_,name,_,rfl,_,eq,value,rfl,result⟩
      split at result
      · cases result
      · rename_i fresh
        obtain ⟨self,left,taken,comma⟩ := bind_ok.mp result
        obtain ⟨arg,rfl,gives,rfl⟩ := (appValue_ok (empty fresh)).mp taken
        obtain ⟨rfl,rest_⟩ := untilComma_ok.mp comma
        exact ⟨arg,eq,value,left,rfl,fresh,(appVarsOf_snoc fresh).symm,gives,rest_⟩
    · rintro ⟨arg,eq,value,left,rfl,fresh,rfl,gives,rest_⟩
      refine ⟨List.cons_ne_nil _ _,_,_,rfl,appName_accepted arg,eq,value,rfl,?_⟩
      rw [if_neg (show arg.name ∉ (appVarsOf seen).custom from fresh),bind_ok]
      exact ⟨_,left,(appValue_ok (empty fresh)).mpr ⟨arg,rfl,gives,rfl⟩,
        untilComma_ok.mpr ⟨appVarsOf_snoc fresh,rest_⟩⟩

theorem distinct_cons : DistinctArgs (seen++arg::args) ↔ DistinctArgs (seen++[arg]++args) := by
  rw [List.append_assoc]
  exact Iff.rfl

theorem distinct_snoc (distinct : DistinctArgs seen) : DistinctArgs (seen++[arg]) ↔ arg.name ∉ seen.map AppArgument.name := by
  unfold DistinctArgs at *
  rw [List.map_append,List.nodup_append]
  refine ⟨fun ⟨_,_,apart⟩ member => apart _ member _ (by simp) rfl,fun fresh => ⟨distinct,List.nodup_singleton _,?_⟩⟩
  rintro name member _ last rfl
  exact fresh (List.mem_singleton.mp last ▸ member)

-- The loop reads arguments to the end, none of which has a name that was seen.
theorem appVars_read (distinct : DistinctArgs seen) :
    Breaks (appArg syn feature) (appVarsOf seen) ts next rest ↔
      ∃ args, ReadsArgs syn feature ts args ∧ DistinctArgs (seen++args) ∧ next = appVarsOf (seen++args) ∧ rest = [] := by
  refine ⟨fun breaks => ?_,?_⟩
  · generalize start : appVarsOf seen = self at breaks
    induction breaks generalizing seen with
    | done last =>
      subst start
      rcases appArg_ok.mp last with ⟨rfl,rfl,_,rfl⟩ | ⟨arg,eq,value,left,rfl,fresh,rfl,gives,⟨_,rfl,rfl⟩ | ⟨impossible,_⟩⟩
      · exact ⟨[],.none,by simpa using distinct,by rw [List.append_nil],rfl⟩
      · exact ⟨[arg],.last gives,(distinct_snoc distinct).mpr fresh,rfl,rfl⟩
      · cases impossible
    | pass first more ih =>
      subst start
      rcases appArg_ok.mp first with ⟨_,_,impossible,_⟩ |
        ⟨arg,eq,value,left,rfl,fresh,rfl,gives,⟨impossible,_⟩ | ⟨_,joint,rfl⟩⟩
      · cases impossible
      · cases impossible
      · obtain ⟨args,reads,distinct',rfl,rfl⟩ := ih ((distinct_snoc distinct).mpr fresh) rfl
        exact ⟨arg::args,.comma gives reads,distinct_cons.mpr distinct',by rw [List.append_assoc]; rfl,rfl⟩
  · rintro ⟨args,reads,distinct',rfl,rfl⟩
    induction reads generalizing seen with
    | none =>
      rw [List.append_nil]
      exact .done (appArg_ok.mpr (.inl ⟨rfl,rfl,rfl,rfl⟩))
    | last gives =>
      have fresh := (distinct_snoc distinct).mp distinct'
      exact .done (appArg_ok.mpr (.inr ⟨_,_,_,_,rfl,fresh,rfl,gives,.inl ⟨rfl,rfl,rfl⟩⟩))
    | @comma ts joint rest arg args eq gives more ih =>
      have split := distinct_cons.mp distinct'
      have first : DistinctArgs (seen++[arg]) := by
        refine split.sublist ?_
        exact (List.sublist_append_left (seen++[arg]) args).map _
      have fresh := (distinct_snoc distinct).mp first
      have loop := ih first split
      rw [List.append_assoc] at loop
      exact .pass (appArg_ok.mpr (.inr ⟨_,_,_,_,rfl,fresh,rfl,gives,.inr ⟨rfl,joint,rfl⟩⟩)) loop

theorem no_names : DistinctArgs [] := List.nodup_nil

theorem finish_ok {self : AppVars} {args : AppArgs} : self.finish ts = .ok (args,rest) ↔ ts = rest ∧
    self.device.map (fun device => (⟨device,self.core,self.peripherals,self.dispatchers,self.backend⟩ : AppArgs)) = some args := by
  unfold AppVars.finish
  cases self.device with
  | none => exact iff_of_false nofun nofun
  | some device =>
    simp only [Except.ok.injEq,Prod.mk.injEq,Option.map_some,Option.some.injEq]
    exact and_comm

-- What AppArgs::parse accepts, and as what.
theorem appArgs_ok {result : AppArgs} : AppArgs.parse syn feature ts = .ok result ↔
    ∃ args, ReadsArgs syn feature ts args ∧ DistinctArgs args ∧ appArgsOf args = some result := by
  unfold AppArgs.parse
  rw [parse2_ok,bind_ok]
  refine ⟨?_,?_⟩
  · rintro ⟨self,left,looped,finished⟩
    obtain ⟨args,reads,distinct,rfl,rfl⟩ := (appVars_read no_names).mp (untilBreak_ok.mp looped)
    exact ⟨args,reads,distinct,(finish_ok.mp finished).2⟩
  · rintro ⟨args,reads,distinct,means⟩
    refine ⟨appVarsOf args,[],untilBreak_ok.mpr ?_,finish_ok.mpr ⟨rfl,means⟩⟩
    exact (appVars_read no_names).mpr ⟨args,reads,distinct,rfl,rfl⟩

-- The tokens tell the value that the name asks for, and where it ends.
theorem gives_unique (gives : Gives syn feature ts rest arg) (gives' : Gives syn feature ts after other)
    (named : arg.name = other.name) : arg = other ∧ rest = after := by
  have answer : ∀ {A : Type} {x : Except ParseError (A × List Token)} {a b : A}, x = .ok (a,rest) → x = .ok (b,after) →
      a = b ∧ rest = after := by
    rintro A x a b first second
    cases first.symm.trans second
    exact ⟨rfl,rfl⟩
  cases arg <;> cases other <;> first | (simp [AppArgument.name] at named; done) | skip
  case dispatchers =>
    obtain ⟨elems,read,added⟩ := gives
    obtain ⟨elems',read',added'⟩ := gives'
    obtain ⟨rfl,same⟩ := answer read read'
    cases added.symm.trans added'
    exact ⟨rfl,same⟩
  all_goals
    obtain ⟨rfl,same⟩ := answer gives gives'
    exact ⟨rfl,same⟩

theorem ReadsArgs.headed {eq : Bool} (reads : ReadsArgs syn feature (.ident name::.punct '=' eq::ts) args) :
    ∃ arg : AppArgument, arg.name = name ∧ ((Gives syn feature ts [] arg ∧ args = [arg]) ∨
      ∃ joint rest more, Gives syn feature ts (.punct ',' joint::rest) arg ∧ ReadsArgs syn feature rest more ∧
        args = arg::more) := by
  cases reads with
  | last gives => exact ⟨_,rfl,.inl ⟨gives,rfl⟩⟩
  | comma gives more => exact ⟨_,rfl,.inr ⟨_,_,_,gives,more,rfl⟩⟩

theorem readsArgs_unique (reads : ReadsArgs syn feature ts args) (reads' : ReadsArgs syn feature ts order) :
    args = order := by
  induction reads generalizing order with
  | none =>
    cases reads'
    rfl
  | last gives =>
    obtain ⟨other,named,⟨gives',rfl⟩ | ⟨joint,rest,more,gives',_,rfl⟩⟩ := reads'.headed
    · rw [(gives_unique gives gives' named.symm).1]
    · cases (gives_unique gives gives' named.symm).2
  | comma gives more ih =>
    obtain ⟨other,named,⟨gives',rfl⟩ | ⟨joint,rest,more',gives',reads',rfl⟩⟩ := reads'.headed
    · cases (gives_unique gives gives' named.symm).2
    · obtain ⟨rfl,same⟩ := gives_unique gives gives' named.symm
      cases same
      rw [ih reads']

theorem ListsArgs.reads (lists : ListsArgs syn feature args ts) : ReadsArgs syn feature ts args := by
  induction lists with
  | none => exact .none
  | last written =>
    obtain ⟨eq,value,rfl,gives,_⟩ := written
    exact .last gives
  | comma written more ih =>
    obtain ⟨eq,value,rfl,_,before⟩ := written
    exact .comma (before _ _) ih

-- With each name once, the order of the arguments does not matter.
theorem appArgsOf_perm (distinct : DistinctArgs args) (perm : order.Perm args) : appArgsOf order = appArgsOf args := by
  have same : ∀ {A : Type} {f : AppArgument → Option A} {name : Ident}, (∀ arg, (f arg).isSome = true → arg.name = name) →
      order.findSome? f = args.findSome? f := fun reads =>
    Ordered.findSome?_perm (fun item other here there => (reads item here).trans (reads other there).symm) distinct perm
  unfold appArgsOf
  rw [same device?_named,same core?_named,same peripherals?_named,same dispatchers?_named,same backend?_named]

-- The first name that was seen before is refused.
theorem appArg_again {eq : Bool} (again : arg.name ∈ seen.map AppArgument.name) :
    appArg syn feature (appVarsOf seen) (.ident arg.name::.punct '=' eq::ts) =
      .error ⟨.ident arg.name,"argument appears more than once"⟩ := by
  have read : ident syn.toArgParsers (.ident arg.name::.punct '=' eq::ts) = .ok (arg.name,.punct '=' eq::ts) :=
    ident_ok.mpr ⟨rfl,appName_accepted arg⟩
  unfold appArg
  rw [bind_run (x:=isEmpty) rfl,if_neg (by simp),bind_run read,bind_run (x:=punct '=') rfl,
    if_pos (show arg.name ∈ (appVarsOf seen).custom from again)]
  rfl

theorem appVars_again (distinct : DistinctArgs seen) (reads : ReadsArgs syn feature ts args)
    (again : ¬DistinctArgs (seen++args)) : ∃ name ∈ args.map AppArgument.name,
      untilBreak (appArg syn feature) appArg_advances (appVarsOf seen) ts =
        .error ⟨.ident name,"argument appears more than once"⟩ := by
  induction reads generalizing seen with
  | none => exact absurd (by rwa [List.append_nil]) again
  | @last ts arg eq gives =>
    have member : arg.name ∈ seen.map AppArgument.name := by
      by_contra fresh
      exact again ((distinct_snoc distinct).mpr fresh)
    exact ⟨arg.name,List.mem_cons_self,untilBreak_error (appArg_again member)⟩
  | @comma ts joint rest arg args eq gives more ih =>
    by_cases member : arg.name ∈ seen.map AppArgument.name
    · exact ⟨arg.name,List.mem_cons_self,untilBreak_error (appArg_again member)⟩
    · obtain ⟨name,listed,failed⟩ := ih ((distinct_snoc distinct).mpr member) (mt distinct_cons.mpr again)
      refine ⟨name,List.mem_cons_of_mem _ listed,?_⟩
      rw [untilBreak_pass (appArg_ok.mpr (.inr ⟨arg,eq,_,_,rfl,member,rfl,gives,.inr ⟨rfl,joint,rfl⟩⟩))]
      exact failed

-- Each dispatcher is listed once.
theorem dispatcher_keyed (dispatchers : Map (List Attribute)) (elem : ElemTree) (next : Map (List Attribute))
    (keyed : Keyed dispatchers) (result : dispatcher dispatchers elem = .ok next) : Keyed next := by
  cases elem with
  | other e => cases result
  | path ep =>
    unfold dispatcher at result
    dsimp only at result
    split at result
    · obtain ⟨absent,result⟩ := Accumulate.guard_ok.mp result
      cases result
      have absent := eq_false_of_ne_true absent
      rw [Ordered.insert_absent absent]
      unfold Keyed
      rw [List.map_append]
      exact nodup_concat keyed fun member => Bool.false_ne_true (absent.symm.trans (Ordered.containsKey_iff.mpr member))
    · cases result

theorem gives_keyed (gives : Gives syn feature ts rest arg) : ∀ list ∈ arg.dispatchers?, Keyed list := by
  intro list here
  cases arg with
  | dispatchers list' =>
    obtain ⟨elems,_,added⟩ := gives
    cases here
    exact Accumulate.foldlM_keeps dispatcher_keyed (show Keyed [] from List.nodup_nil) added
  | _ => cases here

theorem readsArgs_keyed (reads : ReadsArgs syn feature ts args) : ∀ arg ∈ args, ∀ list ∈ arg.dispatchers?, Keyed list := by
  induction reads with
  | none => exact nofun
  | last gives => exact List.forall_mem_singleton.mpr (gives_keyed gives)
  | comma gives _ ih => exact List.forall_mem_cons.mpr ⟨gives_keyed gives,ih⟩

theorem appArgs_keyed {result : AppArgs} (parsed : AppArgs.parse syn feature ts = .ok result) :
    Keyed result.dispatchers := by
  obtain ⟨args,reads,_,means⟩ := appArgs_ok.mp parsed
  obtain ⟨device,_,rfl⟩ := Option.map_eq_some_iff.mp means
  dsimp only
  cases found : args.findSome? AppArgument.dispatchers? with
  | none => exact List.nodup_nil
  | some list =>
    obtain ⟨arg,member,here⟩ := List.exists_of_findSome?_eq_some found
    exact readsArgs_keyed reads arg member list here

theorem appArgs_again (reads : ReadsArgs syn feature ts args) (again : ¬DistinctArgs args) :
    ∃ name ∈ args.map AppArgument.name,
      AppArgs.parse syn feature ts = .error ⟨.ident name,"argument appears more than once"⟩ := by
  obtain ⟨name,listed,failed⟩ := appVars_again no_names reads again
  refine ⟨name,listed,?_⟩
  unfold AppArgs.parse Parser.parse2
  rw [bind_failed (show untilBreak (appArg syn feature) appArg_advances .new ts = _ from failed)]

theorem appArgs_deviceless (reads : ReadsArgs syn feature ts args) (distinct : DistinctArgs args)
    (missing : appArgsOf args = none) : AppArgs.parse syn feature ts = .error ⟨.tokens [],"missing `device = ...`"⟩ := by
  have looped : untilBreak (appArg syn feature) appArg_advances .new ts = .ok (appVarsOf args,[]) :=
    untilBreak_ok.mpr ((appVars_read no_names).mpr ⟨args,reads,distinct,rfl,rfl⟩)
  have absent : (appVarsOf args).device = none := Option.map_eq_none_iff.mp missing
  unfold AppArgs.parse Parser.parse2
  rw [bind_run looped]
  unfold AppVars.finish
  rw [absent]
end

-- The arguments of #[app] are read as a list in which each name occurs once and `device` does, with or without a
-- comma at its end. Their order means nothing, and no dispatcher is listed twice.
theorem app_args_exact (syn : AppParsers) (feature : BackendFeature) :
    (∀ ts result, AppArgs.parse syn feature ts = .ok result ↔
      ∃ args, ReadsArgs syn feature ts args ∧ DistinctArgs args ∧ appArgsOf args = some result) ∧
    (∀ args order ts, order.Perm args → ListsArgs syn feature order ts → ∀ result,
      AppArgs.parse syn feature ts = .ok result ↔ DistinctArgs args ∧ appArgsOf args = some result) ∧
    (∀ ts args, ReadsArgs syn feature ts args → ¬DistinctArgs args → ∃ name ∈ args.map AppArgument.name,
      AppArgs.parse syn feature ts = .error ⟨.ident name,"argument appears more than once"⟩) ∧
    (∀ ts args, ReadsArgs syn feature ts args → DistinctArgs args → appArgsOf args = none →
      AppArgs.parse syn feature ts = .error ⟨.tokens [],"missing `device = ...`"⟩) ∧
    ∀ ts result, AppArgs.parse syn feature ts = .ok result → Keyed result.dispatchers := by
  refine ⟨fun _ _ => appArgs_ok,?_,fun _ _ => appArgs_again,fun _ _ => appArgs_deviceless,fun _ _ => appArgs_keyed⟩
  intro args order ts perm lists result
  have same : DistinctArgs order ↔ DistinctArgs args := (perm.map AppArgument.name).nodup_iff
  rw [appArgs_ok]
  refine ⟨?_,fun ⟨distinct,means⟩ => ⟨order,lists.reads,same.mpr distinct,?_⟩⟩
  · rintro ⟨args',reads,distinct,means⟩
    cases readsArgs_unique reads lists.reads
    exact ⟨same.mp distinct,appArgsOf_perm (same.mp distinct) perm ▸ means⟩
  · rw [appArgsOf_perm distinct perm]
    exact means

-- As much of syn as reads paths that are identifiers, and arrays of these.
def plainPath : ParseStream Path := fun ts =>
  match ts with
  | .ident name::rest => .ok (.ofIdent name,rest)
  | _ => .error ⟨.tokens ts,"expected identifier"⟩

def plainElem : Token → Option ElemTree
  | .ident name => some (.path ⟨[],.ofIdent name⟩)
  | _ => none

def plainArray : ParseStream (List ElemTree) := bracketed >>= fun stream => return stream.filterMap plainElem

def plainApp : AppParsers where
  toArgParsers := plainArgs
  path := plainPath
  exprArray := plainArray
  path_keeps := by
    intro ts path rest result
    unfold plainPath at result
    split at result <;> cases result
    exact Nat.le_succ _
  exprArray_keeps := bracketed_consumes.keeps.bind fun _ => keeps_pure
  appNames_accepted := by decide

def boardArgs : List AppArgument :=
  [.device (.ofIdent "lm3s6965"),.peripherals false,.dispatchers [("SSI0",[]),("QEI0",[])]]

-- dispatchers = [SSI0 QEI0], device = lm3s6965, peripherals = false,
def boardTokens : List Token :=
  [.ident "dispatchers",.punct '=' false,.group .bracket [.ident "SSI0",.ident "QEI0"],.punct ',' false,
    .ident "device",.punct '=' false,.ident "lm3s6965",.punct ',' false,
    .ident "peripherals",.punct '=' false,.ident "false",.punct ',' false]

theorem board_args_parsed : AppArgs.parse plainApp .cortex boardTokens =
    .ok ⟨.ofIdent "lm3s6965",true,false,[("SSI0",[]),("QEI0",[])],none⟩ := by
  have written : ∀ arg token, (∀ rest, Gives plainApp .cortex (token::rest) rest arg) →
      WrittenArg plainApp .cortex arg [.ident arg.name,.punct '=' false,token] :=
    fun arg token gives => ⟨false,[token],rfl,gives [],fun _ _ => gives _⟩
  have dispatchers := written (.dispatchers [("SSI0",[]),("QEI0",[])]) (.group .bracket [.ident "SSI0",.ident "QEI0"])
    fun _ => ⟨_,rfl,rfl⟩
  have device := written (.device (.ofIdent "lm3s6965")) (.ident "lm3s6965") fun _ => rfl
  have peripherals := written (.peripherals false) (.ident "false") fun _ => rfl
  have lists : ListsArgs plainApp .cortex _ boardTokens := .comma dispatchers (.comma device (.comma peripherals .none))
  have perm : List.Perm _ boardArgs := (List.Perm.swap _ _ _).trans (.cons _ (.swap _ _ _))
  exact ((app_args_exact plainApp .cortex).2.1 boardArgs _ _ perm lists _).mpr
    ⟨by unfold DistinctArgs; decide,rfl⟩
end Rtic.Syntax.Syn
