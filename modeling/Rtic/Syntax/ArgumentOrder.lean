import Mathlib.Data.List.Nodup
import Rtic.Syntax.ParseArgs
namespace Rtic.Syntax.Syn
open TokenParser

-- An argument of #[task] and what it gives. A priority has its literal with it, which an error points at.
inductive Argument where
  | binds (ident : Ident)
  | priority (text : String) (value : Nat)
  | shared (resources : SharedResources)
  | local_ (resources : LocalResources)
  | localTask (value : Bool)
  deriving Repr

namespace Argument

def name : Argument → Ident
  | .binds _ => "binds"
  | .priority .. => "priority"
  | .shared _ => "shared"
  | .local_ _ => "local"
  | .localTask _ => "local_task"

def binds? : Argument → Option Ident
  | .binds ident => some ident
  | _ => none
def priority? : Argument → Option (Nat × Span)
  | .priority text value => some (value,.tokens [.literal text])
  | _ => none
def shared? : Argument → Option SharedResources
  | .shared resources => some resources
  | _ => none
def local? : Argument → Option LocalResources
  | .local_ resources => some resources
  | _ => none
def localTask? : Argument → Option Bool
  | .localTask value => some value
  | _ => none

end Argument

def Distinct (args : List Argument) : Prop := (args.map Argument.name).Nodup

instance (args : List Argument) : Decidable (Distinct args) := inferInstanceAs (Decidable (args.map Argument.name).Nodup)

-- What the arguments mean, in no order.
def taskArgsOf (args : List Argument) : HardwareTaskArgs ⊕ SoftwareTaskArgs :=
  let priority := (args.findSome? Argument.priority?).map Prod.fst
  let sharedResources := (args.findSome? Argument.shared?).getD []
  let localResources := (args.findSome? Argument.local?).getD []
  match args.findSome? Argument.binds? with
  | some binds => .inl ⟨binds,priority.getD 1,localResources,sharedResources⟩
  | none => .inr ⟨priority.getD 0,localResources,sharedResources,(args.findSome? Argument.localTask?).getD false⟩

-- Valid for the kind of task that it is given to.
def Argument.Valid (args : List Argument) : Argument → Prop
  | .priority _ value => (∃ arg ∈ args, arg.binds?.isSome = true) → value ≠ 0
  | _ => True

section
variable (syn : ArgParsers)

-- What stands behind the equal sign.
inductive Valued : Argument → Token → Prop where
  | binds (accepted : syn.acceptAsIdent name = true) : Valued (.binds name) (.ident name)
  | priority (lit : syn.intLit text = some (value,"")) (small : value < 256) : Valued (.priority text value) (.literal text)
  | shared (list : sharedResources syn stream = .ok resources) : Valued (.shared resources) (.group .bracket stream)
  | local_ (list : localResources syn.toParsers stream = .ok resources) : Valued (.local_ resources) (.group .bracket stream)
  | true_ : Valued (.localTask true) (.ident "true")
  | false_ : Valued (.localTask false) (.ident "false")

inductive Written : Argument → List Token → Prop where
  | value (valued : Valued syn arg token) : Written arg [.ident arg.name,.punct '=' eq,token]
  | bare : Written (.localTask true) [.ident "local_task"]

-- A list of arguments, with or without a comma at its end.
inductive Listing : List Argument → Bool → List Token → Prop where
  | none : Listing [] false []
  | last (written : Written syn arg ts) : Listing [arg] false ts
  | trailing (written : Written syn arg ts) : Listing [arg] true (ts++[.punct ',' joint])
  | comma (written : Written syn arg ts) (more : Listing (other::args) trailing rest) :
      Listing (arg::other::args) trailing (ts++.punct ',' joint::rest)
end

-- local_task stands before no comma.
def LocalTaskLast (order : List Argument) (trailing : Bool) : Prop :=
  ∀ arg ∈ if trailing then order else order.dropLast, arg.name ≠ "local_task"

-- The names at which a list of arguments has an argument begin.
def headName : List Token → Option Ident
  | .ident name::_ => some name
  | _ => none
def listedNames (ts : List Token) : List Ident := (ts.splitOnP (isPunct ',')).filterMap headName

-- What a pass of the loop takes, and whether a comma with it.
section
variable (syn : ArgParsers)

inductive Takes : List Token → Argument → Bool → List Token → Prop where
  | bare (other : rest.head?.any (isPunct '=') = false) : Takes (.ident "local_task"::rest) (.localTask true) false rest
  | localTask (valued : Valued syn (.localTask value) token) :
      Takes (.ident "local_task"::.punct '=' eq::token::rest) (.localTask value) false rest
  | last (named : arg.name = name) (other : name ≠ "local_task") (valued : Valued syn arg token) :
      Takes [.ident name,.punct '=' eq,token] arg false []
  | comma (named : arg.name = name) (other : name ≠ "local_task") (valued : Valued syn arg token) :
      Takes (.ident name::.punct '=' eq::token::.punct ',' joint::rest) arg true rest

inductive Reading : List Token → List Argument → List Token → Prop where
  | none : Reading [] [] []
  | stop (takes : Takes syn ts arg false rest) : Reading ts [arg] rest
  | more (takes : Takes syn ts arg true between) (later : Reading between args rest) : Reading ts (arg::args) rest
end

-- The variables of task_args once it has read the arguments.
def varsOf (args : List Argument) : TaskVars where
  binds := args.findSome? Argument.binds?
  priority := args.findSome? Argument.priority?
  sharedResources := args.findSome? Argument.shared?
  localResources := args.findSome? Argument.local?
  localTask := args.findSome? Argument.localTask?

def TaskVars.add (self : TaskVars) : Argument → TaskVars
  | .binds ident => {self with binds := some ident}
  | .priority text value => {self with priority := some (value,.tokens [.literal text])}
  | .shared resources => {self with sharedResources := some resources}
  | .local_ resources => {self with localResources := some resources}
  | .localTask value => {self with localTask := some value}

section
variable {syn : ArgParsers} {seen args order : List Argument} {arg : Argument} {token : Token} {ts rest : List Token}
  {name : Ident} {more trailing : Bool} {next : TaskVars}

theorem findSome?_none_iff {A : Type} {f : Argument → Option A} (reads : ∀ arg, f arg = none ↔ arg.name ≠ name) :
    seen.findSome? f = none ↔ name ∉ seen.map Argument.name := by
  rw [List.findSome?_eq_none_iff]
  simp only [reads,List.mem_map,not_exists,not_and,ne_eq]

theorem once_ok {A : Type} {given : Option A} {u : Unit} : once name given = .ok u ↔ given = none := by
  unfold once
  cases given <;> simp

-- The parsers of the two lists, of what stands in the brackets.
theorem bracketed_bind_ok {A : Type} {f : List Token → Except ParseError A} {a : A} :
    (do let inner ← bracketed; f inner : ParseStream A) ts = .ok (a,rest) ↔
      ∃ stream, ts = .group .bracket stream::rest ∧ f stream = .ok a := by
  rw [bind_ok]
  refine ⟨?_,?_⟩
  · rintro ⟨stream,middle,opened,result⟩
    obtain ⟨answer,rfl⟩ := lift_ok.mp result
    unfold bracketed at opened
    split at opened <;> cases opened
    exact ⟨_,rfl,answer⟩
  · rintro ⟨stream,rfl,result⟩
    exact ⟨stream,rest,rfl,lift_ok.mpr ⟨result,rfl⟩⟩

theorem listArgument_ok {A : Type} {f : List Token → Except ParseError A} {given next : Option A} :
    (do
      once name given
      let resources ← (do let inner ← bracketed; f inner : ParseStream A)
      return some resources : ParseStream (Option A)) ts = .ok (next,rest) ↔
    given = none ∧ ∃ stream resources, ts = .group .bracket stream::rest ∧ f stream = .ok resources ∧ next = some resources := by
  rw [bind_ok]
  simp only [lift_ok,once_ok]
  refine ⟨?_,?_⟩
  · rintro ⟨_,_,⟨absent,rfl⟩,result⟩
    obtain ⟨resources,_,list,last⟩ := bind_ok.mp result
    obtain ⟨stream,rfl,parsed⟩ := bracketed_bind_ok.mp list
    obtain ⟨rfl,rfl⟩ := pure_ok.mp last
    exact ⟨absent,stream,resources,rfl,parsed,rfl⟩
  · rintro ⟨absent,stream,resources,rfl,parsed,rfl⟩
    exact ⟨(),_,⟨absent,rfl⟩,bind_ok.mpr ⟨resources,rest,bracketed_bind_ok.mpr ⟨stream,rfl,parsed⟩,rfl⟩⟩

theorem sharedArgument_ok {given resources : Option SharedResources} :
    sharedArgument syn name given ts = .ok (resources,rest) ↔ given = none ∧ ∃ stream list,
      ts = .group .bracket stream::rest ∧ sharedResources syn stream = .ok list ∧ resources = some list := listArgument_ok

theorem localArgument_ok {given resources : Option LocalResources} :
    localArgument syn name given ts = .ok (resources,rest) ↔ given = none ∧ ∃ stream list,
      ts = .group .bracket stream::rest ∧ localResources syn.toParsers stream = .ok list ∧ resources = some list :=
  listArgument_ok

theorem priorityArgument_ok {given priority : Option (Nat × Span)} :
    priorityArgument syn name given ts = .ok (priority,rest) ↔ given = none ∧ ∃ text value, ts = .literal text::rest ∧
      syn.intLit text = some (value,"") ∧ value < 256 ∧ priority = some (value,.tokens [.literal text]) := by
  unfold priorityArgument
  rw [bind_ok]
  simp only [lift_ok,once_ok]
  refine ⟨?_,?_⟩
  · rintro ⟨_,_,⟨absent,rfl⟩,result⟩
    obtain ⟨lit,middle,taken,last⟩ := bind_ok.mp result
    refine ⟨absent,?_⟩
    unfold litInt at taken
    split at taken
    · rename_i text after
      split at taken <;> cases taken
      rename_i digits suffix read
      by_cases bare : suffix = ""
      · subst bare
        rw [if_neg (by simp)] at last
        by_cases small : digits < 256
        · simp only [LitInt.base10Parse,Bool.false_eq_true,if_false,small,if_true] at last
          obtain ⟨rfl,rfl⟩ := pure_ok.mp last
          exact ⟨text,digits,rfl,read,small,rfl⟩
        · simp [LitInt.base10Parse,small] at last
      · rw [if_pos bare] at last
        cases last
    · split at taken <;> cases taken
      -- A negative literal is no u8.
      simp only [LitInt.base10Parse,if_true] at last
      split at last <;> cases last
    · cases taken
  · rintro ⟨absent,text,value,rfl,read,small,rfl⟩
    refine ⟨(),_,⟨absent,rfl⟩,bind_ok.mpr ⟨⟨.tokens [.literal text],false,value,""⟩,rest,?_,?_⟩⟩
    · simp [litInt,read]
    · simp [LitInt.base10Parse,small]

-- A variable is set exactly by the argument of its name.
theorem binds_none : (varsOf seen).binds = none ↔ "binds" ∉ seen.map Argument.name :=
  findSome?_none_iff fun arg => by cases arg <;> simp [Argument.binds?,Argument.name]
theorem priority_none : (varsOf seen).priority = none ↔ "priority" ∉ seen.map Argument.name :=
  findSome?_none_iff fun arg => by cases arg <;> simp [Argument.priority?,Argument.name]
theorem shared_none : (varsOf seen).sharedResources = none ↔ "shared" ∉ seen.map Argument.name :=
  findSome?_none_iff fun arg => by cases arg <;> simp [Argument.shared?,Argument.name]
theorem local_none : (varsOf seen).localResources = none ↔ "local" ∉ seen.map Argument.name :=
  findSome?_none_iff fun arg => by cases arg <;> simp [Argument.local?,Argument.name]
theorem localTask_none : (varsOf seen).localTask = none ↔ "local_task" ∉ seen.map Argument.name :=
  findSome?_none_iff fun arg => by cases arg <;> simp [Argument.localTask?,Argument.name]

theorem varsOf_snoc (fresh : arg.name ∉ seen.map Argument.name) : varsOf (seen++[arg]) = (varsOf seen).add arg := by
  have grown : varsOf (seen++[arg]) = ⟨(varsOf seen).binds.or arg.binds?,(varsOf seen).priority.or arg.priority?,
      (varsOf seen).sharedResources.or arg.shared?,(varsOf seen).localResources.or arg.local?,
      (varsOf seen).localTask.or arg.localTask?⟩ := by
    simp [varsOf,List.findSome?_append]
  rw [grown]
  cases arg with
  | binds ident => simp [TaskVars.add,binds_none.mpr fresh,Argument.binds?,Argument.priority?,Argument.shared?,
      Argument.local?,Argument.localTask?]
  | priority text value => simp [TaskVars.add,priority_none.mpr fresh,Argument.binds?,Argument.priority?,Argument.shared?,
      Argument.local?,Argument.localTask?]
  | shared resources => simp [TaskVars.add,shared_none.mpr fresh,Argument.binds?,Argument.priority?,Argument.shared?,
      Argument.local?,Argument.localTask?]
  | local_ resources => simp [TaskVars.add,local_none.mpr fresh,Argument.binds?,Argument.priority?,Argument.shared?,
      Argument.local?,Argument.localTask?]
  | localTask value => simp [TaskVars.add,localTask_none.mpr fresh,Argument.binds?,Argument.priority?,Argument.shared?,
      Argument.local?,Argument.localTask?]

theorem taskValue_ok (other : name ≠ "local_task") : taskValue syn (varsOf seen) name ts = .ok (next,rest) ↔
    name ∉ seen.map Argument.name ∧ ∃ arg token, arg.name = name ∧ Valued syn arg token ∧ ts = token::rest ∧
      next = (varsOf seen).add arg := by
  unfold taskValue
  split
  · rw [← binds_none,bind_ok]
    simp only [lift_ok,once_ok]
    refine ⟨?_,?_⟩
    · rintro ⟨_,_,⟨absent,rfl⟩,result⟩
      obtain ⟨binds,_,read,last⟩ := bind_ok.mp result
      obtain ⟨rfl,accepted⟩ := ident_ok.mp read
      obtain ⟨rfl,rfl⟩ := pure_ok.mp last
      exact ⟨absent,_,_,rfl,.binds accepted,rfl,rfl⟩
    · rintro ⟨absent,arg,token,named,valued,rfl,rfl⟩
      cases valued with
      | binds accepted => exact ⟨(),_,⟨absent,rfl⟩,bind_ok.mpr ⟨_,rest,ident_ok.mpr ⟨rfl,accepted⟩,rfl⟩⟩
      | _ => simp [Argument.name] at named
  · rw [← priority_none,bind_ok]
    simp only [priorityArgument_ok]
    refine ⟨?_,?_⟩
    · rintro ⟨_,_,⟨absent,text,value,rfl,lit,small,rfl⟩,last⟩
      obtain ⟨rfl,rfl⟩ := pure_ok.mp last
      exact ⟨absent,_,_,rfl,.priority lit small,rfl,rfl⟩
    · rintro ⟨absent,arg,token,named,valued,rfl,rfl⟩
      cases valued with
      | priority lit small => exact ⟨_,rest,⟨absent,_,_,rfl,lit,small,rfl⟩,rfl⟩
      | _ => simp [Argument.name] at named
  · rw [← shared_none,bind_ok]
    simp only [sharedArgument_ok]
    refine ⟨?_,?_⟩
    · rintro ⟨_,_,⟨absent,stream,list,rfl,parsed,rfl⟩,last⟩
      obtain ⟨rfl,rfl⟩ := pure_ok.mp last
      exact ⟨absent,_,_,rfl,.shared parsed,rfl,rfl⟩
    · rintro ⟨absent,arg,token,named,valued,rfl,rfl⟩
      cases valued with
      | shared parsed => exact ⟨_,rest,⟨absent,_,_,rfl,parsed,rfl⟩,rfl⟩
      | _ => simp [Argument.name] at named
  · rw [← local_none,bind_ok]
    simp only [localArgument_ok]
    refine ⟨?_,?_⟩
    · rintro ⟨_,_,⟨absent,stream,list,rfl,parsed,rfl⟩,last⟩
      obtain ⟨rfl,rfl⟩ := pure_ok.mp last
      exact ⟨absent,_,_,rfl,.local_ parsed,rfl,rfl⟩
    · rintro ⟨absent,arg,token,named,valued,rfl,rfl⟩
      cases valued with
      | local_ parsed => exact ⟨_,rest,⟨absent,_,_,rfl,parsed,rfl⟩,rfl⟩
      | _ => simp [Argument.name] at named
  · rename_i notBinds notPriority notShared notLocal
    refine iff_of_false (by simp) ?_
    rintro ⟨_,arg,token,named,_⟩
    cases arg with
    | binds => exact notBinds named.symm
    | priority => exact notPriority named.symm
    | shared => exact notShared named.symm
    | local_ => exact notLocal named.symm
    | localTask => exact other named.symm

theorem litBool_ok {value : Bool} : litBool ts = .ok (value,rest) ↔
    ∃ token, Valued syn (.localTask value) token ∧ ts = token::rest := by
  refine ⟨fun result => ?_,?_⟩
  · unfold litBool at result
    split at result <;> cases result
    · exact ⟨_,.true_,rfl⟩
    · exact ⟨_,.false_,rfl⟩
  · rintro ⟨token,valued,rfl⟩
    cases valued <;> rfl

theorem punct_error {c : Char} : (∃ e, punct c ts = .error e) ↔ ts.head?.any (isPunct c) = false := by
  unfold punct next
  cases ts with
  | nil => exact iff_of_true ⟨_,rfl⟩ rfl
  | cons t ts => cases headed : isPunct c t <;> simp [headed]

-- The equal sign, where there is one.
theorem equalSign_ok {eq : Except ParseError Token} : attempt (punct '=') ts = .ok (eq,rest) ↔
    (∃ joint, ts = .punct '=' joint::rest ∧ eq = .ok (.punct '=' joint)) ∨
    (ts.head?.any (isPunct '=') = false ∧ rest = ts ∧ ∃ e, punct '=' ts = .error e ∧ eq = .error e) := by
  rw [attempt_ok]
  refine or_congr ⟨?_,?_⟩ ⟨?_,?_⟩
  · rintro ⟨t,read,rfl⟩
    obtain ⟨rfl,headed⟩ := next_ok.mp read
    obtain ⟨joint,rfl⟩ := isPunct_iff.mp headed
    exact ⟨joint,rfl,rfl⟩
  · rintro ⟨joint,rfl,rfl⟩
    exact ⟨_,next_ok.mpr ⟨rfl,rfl⟩,rfl⟩
  · rintro ⟨e,failed,rfl,rfl⟩
    exact ⟨punct_error.mp ⟨e,failed⟩,rfl,e,failed,rfl⟩
  · rintro ⟨_,rfl,e,failed,rfl⟩
    exact ⟨e,failed,rfl,rfl⟩

theorem localTaskValue_ok {eq : Except ParseError Token} {value : Bool} : localTaskValue eq ts = .ok (value,rest) ↔
    (∃ t token, eq = .ok t ∧ Valued syn (.localTask value) token ∧ ts = token::rest) ∨
    (∃ e, eq = .error e) ∧ value = true ∧ ts = rest := by
  cases eq with
  | ok t => simp [localTaskValue,@litBool_ok syn]
  | error e =>
    simp only [localTaskValue,pure_ok,reduceCtorEq,false_and,exists_false,false_or,Except.error.injEq,exists_eq',true_and]
    exact and_congr_left' eq_comm

theorem ident_bind_ok {A : Type} {f : Ident → ParseStream A} {a : A} : (ident syn >>= f) ts = .ok (a,rest) ↔
    ∃ name middle, ts = .ident name::middle ∧ syn.acceptAsIdent name = true ∧ f name middle = .ok (a,rest) := by
  rw [bind_ok]
  simp only [ident_ok,and_assoc]

-- What follows the name of local_task, and what follows another name.
theorem localTask_takes {eq : Except ParseError Token} {behind left : List Token} {value : Bool}
    (sign : attempt (punct '=') ts = .ok (eq,behind)) :
    localTaskValue eq behind = .ok (value,left) ↔ Takes syn (.ident "local_task"::ts) (.localTask value) false left := by
  refine (@localTaskValue_ok syn _ _ _ _).trans ⟨?_,fun takes => ?_⟩
  · rcases equalSign_ok.mp sign with ⟨joint,rfl,rfl⟩ | ⟨other,rfl,e,_,rfl⟩
    · rintro (⟨t,token,_,valued,rfl⟩ | ⟨⟨e,failed⟩,_⟩)
      · exact .localTask valued
      · cases failed
    · rintro (⟨t,token,failed,_⟩ | ⟨_,rfl,rfl⟩)
      · cases failed
      · exact .bare other
  · rcases equalSign_ok.mp sign with ⟨joint,rfl,rfl⟩ | ⟨absent,rfl,e,_,rfl⟩
    · cases takes with
      | bare other => cases other
      | localTask valued => exact .inl ⟨_,_,rfl,valued,rfl⟩
      | last _ other => exact absurd rfl other
    · cases takes with
      | bare => exact .inr ⟨⟨e,rfl⟩,rfl,rfl⟩
      | localTask => cases absent
      | last => cases absent

theorem other_takes {eq : Except ParseError Token} {behind : List Token} {self : TaskVars}
    (sign : attempt (punct '=') ts = .ok (eq,behind)) (other : name ≠ "local_task") :
    (∃ t left, eq = .ok t ∧ taskValue syn (varsOf seen) name behind = .ok (self,left) ∧
      untilComma self left = .ok ((next,more),rest)) ↔
    name ∉ seen.map Argument.name ∧ next = self ∧ ∃ arg, arg.name = name ∧ Takes syn (.ident name::ts) arg more rest ∧
      self = (varsOf seen).add arg := by
  refine ⟨?_,?_⟩
  · rintro ⟨t,left,rfl,value,comma⟩
    obtain ⟨fresh,arg,token,named,valued,rfl,rfl⟩ := (taskValue_ok other).mp value
    rcases equalSign_ok.mp sign with ⟨joint,rfl,_⟩ | ⟨_,_,e,_,failed⟩
    · obtain ⟨rfl,⟨rfl,rfl,rfl⟩ | ⟨rfl,joint',rfl⟩⟩ := untilComma_ok.mp comma
      · exact ⟨fresh,rfl,arg,named,.last named other valued,rfl⟩
      · exact ⟨fresh,rfl,arg,named,.comma named other valued,rfl⟩
    · cases failed
  · rintro ⟨fresh,rfl,arg,named,takes,rfl⟩
    rcases equalSign_ok.mp sign with ⟨joint,rfl,rfl⟩ | ⟨absent,_⟩
    · cases takes with
      | localTask => exact absurd rfl other
      | bare => exact absurd rfl other
      | last _ _ valued =>
        exact ⟨_,[],rfl,(taskValue_ok other).mpr ⟨fresh,arg,_,named,valued,rfl,rfl⟩,
          untilComma_ok.mpr ⟨rfl,.inl ⟨rfl,rfl,rfl⟩⟩⟩
      | comma _ _ valued =>
        exact ⟨_,_,rfl,(taskValue_ok other).mpr ⟨fresh,arg,_,named,valued,rfl,rfl⟩,
          untilComma_ok.mpr ⟨rfl,.inr ⟨rfl,_,rfl⟩⟩⟩
    · cases takes with
      | localTask => exact absurd rfl other
      | bare => exact absurd rfl other
      | last => cases absent
      | comma => cases absent

theorem Takes.nonempty (takes : Takes syn ts arg more rest) : ts ≠ [] := by
  cases takes <;> exact List.cons_ne_nil _ _

theorem Takes.head (takes : Takes syn ts arg more rest) :
    ∃ after, ts = .ident arg.name::after ∧ (arg.name = "local_task" → more = false) := by
  cases takes with
  | bare => exact ⟨_,rfl,fun _ => rfl⟩
  | localTask => exact ⟨_,rfl,fun _ => rfl⟩
  | last named =>
    subst named
    exact ⟨_,rfl,fun _ => rfl⟩
  | comma named other =>
    subst named
    exact ⟨_,rfl,fun same => absurd same other⟩

theorem argument_accepted (arg : Argument) : syn.acceptAsIdent arg.name = true :=
  syn.names_accepted _ (by cases arg <;> simp [argumentNames,Argument.name])

-- One pass: nothing is left, or an argument is taken that has not been given.
theorem taskArg_ok : taskArg syn (varsOf seen) ts = .ok ((next,more),rest) ↔
    (ts = [] ∧ rest = [] ∧ more = false ∧ next = varsOf seen) ∨
    ∃ arg, Takes syn ts arg more rest ∧ arg.name ∉ seen.map Argument.name ∧ next = varsOf (seen++[arg]) := by
  unfold taskArg
  rw [ifEmpty_ok,pure_ok,ident_bind_ok]
  simp only [bind_ok]
  refine or_congr ⟨?_,?_⟩ ⟨?_,?_⟩
  · rintro ⟨rfl,same,rfl⟩
    cases same
    exact ⟨rfl,rfl,rfl,rfl⟩
  · rintro ⟨rfl,rfl,rfl,rfl⟩
    exact ⟨rfl,rfl,rfl⟩
  · rintro ⟨_,name,after,rfl,_,eq,behind,sign,result⟩
    split at result
    · rename_i named
      subst named
      simp only [bind_ok,lift_ok,once_ok,pure_ok] at result
      obtain ⟨_,_,⟨absent,rfl⟩,value,left,given,same,rfl⟩ := result
      cases same
      have fresh := localTask_none.mp absent
      have grown : varsOf (seen++[.localTask value]) = _ := varsOf_snoc fresh
      exact ⟨.localTask value,(localTask_takes sign).mp given,fresh,grown.symm⟩
    · rename_i other
      simp only [bind_ok,lift_ok] at result
      obtain ⟨t,_,⟨rfl,rfl⟩,self,left,value,comma⟩ := result
      obtain ⟨fresh,rfl,arg,rfl,takes,rfl⟩ := (other_takes sign other).mp ⟨t,left,rfl,value,comma⟩
      exact ⟨arg,takes,fresh,(varsOf_snoc fresh).symm⟩
  · rintro ⟨arg,takes,fresh,rfl⟩
    obtain ⟨after,rfl,stops⟩ := takes.head
    obtain ⟨eq,behind,sign⟩ := attempt_total (punct '=') after
    refine ⟨List.cons_ne_nil _ _,_,after,rfl,argument_accepted arg,eq,behind,sign,?_⟩
    split
    · rename_i named
      cases stops named
      simp only [bind_ok,lift_ok,once_ok,pure_ok]
      cases arg with
      | localTask value =>
        have grown : varsOf (seen++[.localTask value]) = _ := varsOf_snoc fresh
        rw [grown]
        exact ⟨(),_,⟨localTask_none.mpr fresh,rfl⟩,value,rest,(localTask_takes sign).mpr takes,rfl,rfl⟩
      | _ => simp [Argument.name] at named
    · rename_i other
      simp only [bind_ok,lift_ok]
      obtain ⟨t,left,rfl,value,comma⟩ := (other_takes sign other).mpr ⟨fresh,rfl,arg,rfl,takes,rfl⟩
      rw [varsOf_snoc fresh]
      exact ⟨t,_,⟨rfl,rfl⟩,_,left,value,comma⟩

-- The loop goes on from what it has seen, whose names may not be given again.
theorem breaks_iff : Breaks (taskArg syn) (varsOf seen) ts next rest ↔ ∃ args, Reading syn ts args rest ∧
    (∀ name ∈ args.map Argument.name, name ∉ seen.map Argument.name) ∧ Distinct args ∧ next = varsOf (seen++args) := by
  refine ⟨fun breaks => ?_,?_⟩
  · generalize start : varsOf seen = self at breaks
    induction breaks generalizing seen with
    | done last =>
      subst start
      rcases taskArg_ok.mp last with ⟨rfl,rfl,_,rfl⟩ | ⟨arg,takes,fresh,rfl⟩
      · exact ⟨[],.none,nofun,List.nodup_nil,by rw [List.append_nil]⟩
      · exact ⟨[arg],.stop takes,by simpa using fresh,List.pairwise_singleton _ _,rfl⟩
    | pass first more ih =>
      subst start
      rcases taskArg_ok.mp first with ⟨_,_,stopped,_⟩ | ⟨arg,takes,fresh,rfl⟩
      · cases stopped
      · obtain ⟨args,reading,apart,distinct,rfl⟩ := ih rfl
        refine ⟨arg::args,.more takes reading,?_,List.nodup_cons.mpr ⟨fun member => ?_,distinct⟩,by simp⟩
        · rintro name member present
          rcases List.mem_cons.mp member with rfl | later
          · exact fresh present
          · exact apart name later (by simp [present])
        · exact apart _ member (by simp)
  · rintro ⟨args,reading,apart,distinct,rfl⟩
    induction reading generalizing seen with
    | none =>
      rw [List.append_nil]
      exact .done (taskArg_ok.mpr (.inl ⟨rfl,rfl,rfl,rfl⟩))
    | stop takes => exact .done (taskArg_ok.mpr (.inr ⟨_,takes,apart _ List.mem_cons_self,rfl⟩))
    | @more ts arg between args rest takes later ih =>
      obtain ⟨absent,distinct⟩ := List.nodup_cons.mp distinct
      have fresh : arg.name ∉ seen.map Argument.name := apart _ List.mem_cons_self
      have others := @ih (seen++[arg]) (fun name member present => ?_) distinct
      · refine .pass (taskArg_ok.mpr (.inr ⟨arg,takes,fresh,rfl⟩)) ?_
        simpa using others
      · rw [List.map_append,List.mem_append] at present
        rcases present with before | here
        · exact apart name (List.mem_cons_of_mem _ member) before
        · cases List.mem_singleton.mp here
          exact absent member

theorem reads_iff : untilBreak (taskArg syn) taskArg_advances .new ts = .ok (next,rest) ↔
    ∃ args, Reading syn ts args rest ∧ Distinct args ∧ next = varsOf args := by
  rw [untilBreak_ok]
  refine (@breaks_iff syn [] ts rest next).trans ?_
  simp

theorem parse2_ok {A : Type} {x : ParseStream A} {a : A} : Parser.parse2 x ts = .ok a ↔ x ts = .ok (a,[]) := by
  unfold Parser.parse2
  split
  · rename_i e failed
    simp [failed]
  · rename_i node parsed
    simp [parsed]
  · rename_i node after some_ parsed
    simp only [parsed,reduceCtorEq,Except.ok.injEq,Prod.mk.injEq,false_iff]
    exact fun ⟨_,empty⟩ => some_ empty

theorem taskArgs_ok {result : HardwareTaskArgs ⊕ SoftwareTaskArgs} : taskArgs syn ts = .ok result ↔
    ∃ args, Reading syn ts args [] ∧ Distinct args ∧ (varsOf args).finish = .ok result := by
  unfold taskArgs
  rw [parse2_ok,ifEmpty_ok]
  refine ⟨?_,?_⟩
  · rintro (⟨rfl,default_⟩ | ⟨_,result_⟩)
    · obtain ⟨rfl,_⟩ := pure_ok.mp default_
      exact ⟨[],.none,List.nodup_nil,rfl⟩
    · obtain ⟨self,_,looped,last⟩ := bind_ok.mp result_
      obtain ⟨finished,rfl⟩ := lift_ok.mp last
      obtain ⟨args,reading,distinct,rfl⟩ := reads_iff.mp looped
      exact ⟨args,reading,distinct,finished⟩
  · rintro ⟨args,reading,distinct,finished⟩
    by_cases empty : ts = []
    · subst empty
      cases reading with
      | none => exact .inl ⟨rfl,pure_ok.mpr ⟨Except.ok.inj finished,rfl⟩⟩
      | stop takes => exact absurd rfl takes.nonempty
      | more takes => exact absurd rfl takes.nonempty
    · exact .inr ⟨empty,bind_ok.mpr ⟨_,[],reads_iff.mpr ⟨args,reading,distinct,rfl⟩,lift_ok.mpr ⟨finished,rfl⟩⟩⟩
-- Where the loop leaves tokens, they are an error, if the arguments are not one before.
theorem taskArgs_leftover {t : Token} (reading : Reading syn ts args (t::rest)) (distinct : Distinct args) :
    taskArgs syn ts = match (varsOf args).finish with
      | .error e => .error e
      | .ok _ => .error ⟨.tokens (t::rest),"unexpected token"⟩ := by
  have some_ : ts ≠ [] := by
    cases reading with
    | stop takes => exact takes.nonempty
    | more takes => exact takes.nonempty
  have looped := (@reads_iff syn ts (t::rest) (varsOf args)).mpr ⟨args,reading,distinct,rfl⟩
  unfold taskArgs Parser.parse2
  rw [bind_run (x:=isEmpty) rfl,if_neg (by simpa using some_),bind_run looped]
  cases (varsOf args).finish <;> rfl

theorem same_name {A : Type} {f : Argument → Option A} (reads : ∀ arg, f arg = none ↔ arg.name ≠ name)
    (arg other : Argument) (here : (f arg).isSome = true) (there : (f other).isSome = true) : arg.name = other.name := by
  have named : ∀ arg, (f arg).isSome = true → arg.name = name := by
    intro arg some_
    by_contra otherwise
    rw [(reads arg).mpr otherwise] at some_
    cases some_
  exact (named arg here).trans (named other there).symm

-- Which name an argument has, by what it gives.
theorem binds?_none (arg : Argument) : arg.binds? = none ↔ arg.name ≠ "binds" := by
  cases arg <;> simp [Argument.binds?,Argument.name]
theorem priority?_none (arg : Argument) : arg.priority? = none ↔ arg.name ≠ "priority" := by
  cases arg <;> simp [Argument.priority?,Argument.name]
theorem shared?_none (arg : Argument) : arg.shared? = none ↔ arg.name ≠ "shared" := by
  cases arg <;> simp [Argument.shared?,Argument.name]
theorem local?_none (arg : Argument) : arg.local? = none ↔ arg.name ≠ "local" := by
  cases arg <;> simp [Argument.local?,Argument.name]
theorem localTask?_none (arg : Argument) : arg.localTask? = none ↔ arg.name ≠ "local_task" := by
  cases arg <;> simp [Argument.localTask?,Argument.name]

-- With each name once, the order in which arguments are looked for does not matter.
theorem varsOf_perm (distinct : Distinct args) (perm : order.Perm args) : varsOf order = varsOf args := by
  unfold varsOf
  rw [Ordered.findSome?_perm (same_name binds?_none) distinct perm,
    Ordered.findSome?_perm (same_name priority?_none) distinct perm,
    Ordered.findSome?_perm (same_name shared?_none) distinct perm,
    Ordered.findSome?_perm (same_name local?_none) distinct perm,
    Ordered.findSome?_perm (same_name localTask?_none) distinct perm]

theorem finish_iff {result : HardwareTaskArgs ⊕ SoftwareTaskArgs} (distinct : Distinct args) :
    (varsOf args).finish = .ok result ↔ (∀ arg ∈ args, arg.Valid args) ∧ result = taskArgsOf args := by
  have given : ∀ value, args.findSome? Argument.priority? = some value ↔ ∃ arg ∈ args, arg.priority? = some value :=
    fun _ => Ordered.findSome?_some_iff (same_name priority?_none) distinct
  unfold TaskVars.finish taskArgsOf varsOf
  cases binds : args.findSome? Argument.binds? with
  | none =>
    have software : ∀ arg ∈ args, arg.Valid args := by
      intro arg member
      cases arg with
      | priority text value =>
        rintro ⟨other,here,hardware⟩
        rw [List.findSome?_eq_none_iff.mp binds other here] at hardware
        cases hardware
      | _ => trivial
    rw [and_iff_right software,Except.ok.injEq]
    exact eq_comm
  | some ident =>
    obtain ⟨bound,here,named⟩ := List.exists_of_findSome?_eq_some binds
    have hardware : ∃ arg ∈ args, arg.binds?.isSome = true := ⟨bound,here,by simp [named]⟩
    dsimp only
    split
    · rename_i span zero
      obtain ⟨arg,member,read⟩ := (given _).mp zero
      refine iff_of_false nofun fun ⟨valid,_⟩ => ?_
      cases arg with
      | priority text value =>
        cases read
        exact valid _ member hardware rfl
      | _ => cases read
    · rename_i notZero
      have valid : ∀ arg ∈ args, arg.Valid args := by
        intro arg member
        cases arg with
        | priority text value =>
          rintro _ rfl
          exact notZero _ ((given _).mpr ⟨_,member,rfl⟩)
        | _ => trivial
      rw [and_iff_right valid,Except.ok.injEq]
      exact eq_comm

-- Before a comma the loop goes on, unless it is at local_task.
theorem Written.takes {chunk : List Token} (written : Written syn arg chunk) (joint : Bool) (rest : List Token) :
    if arg.name = "local_task" then Takes syn (chunk++.punct ',' joint::rest) arg false (.punct ',' joint::rest)
    else Takes syn (chunk++.punct ',' joint::rest) arg true rest := by
  cases written with
  | value valued =>
    split
    · rename_i named
      cases arg with
      | localTask value => exact .localTask valued
      | _ => simp [Argument.name] at named
    · rename_i other
      exact .comma rfl other valued
  | bare => exact Takes.bare rfl

theorem Written.takes_last {chunk : List Token} (written : Written syn arg chunk) : Takes syn chunk arg false [] := by
  cases written with
  | value valued =>
    by_cases named : arg.name = "local_task"
    · cases arg with
      | localTask value => exact .localTask valued
      | _ => simp [Argument.name] at named
    · exact .last rfl named valued
  | bare => exact .bare rfl

theorem localTaskLast_cons {other : Argument} : LocalTaskLast (arg::other::args) trailing ↔
    arg.name ≠ "local_task" ∧ LocalTaskLast (other::args) trailing := by
  unfold LocalTaskLast
  cases trailing with
  | true => exact List.forall_mem_cons
  | false =>
    simp only [Bool.false_eq_true,if_false,List.dropLast_cons_cons]
    exact List.forall_mem_cons

-- A listing is read to its end, or up to the comma behind local_task.
theorem Listing.reading (listing : Listing syn order trailing ts) (last : LocalTaskLast order trailing) :
    Reading syn ts order [] := by
  induction listing with
  | none => exact .none
  | last written => exact .stop written.takes_last
  | @trailing arg chunk joint written =>
    have other : arg.name ≠ "local_task" := last arg List.mem_cons_self
    have takes := written.takes joint []
    rw [if_neg other] at takes
    exact .more takes .none
  | @comma arg chunk other args trailing rest joint written more ih =>
    obtain ⟨here,later⟩ := localTaskLast_cons.mp last
    have takes := written.takes joint rest
    rw [if_neg here] at takes
    exact .more takes (ih later)

theorem Listing.stops (listing : Listing syn order trailing ts) (before : ¬LocalTaskLast order trailing) :
    ∃ taken t rest, Reading syn ts taken (t::rest) ∧ taken <+: order := by
  induction listing with
  | none => exact absurd nofun before
  | last => exact absurd nofun before
  | @trailing arg chunk joint written =>
    have named : arg.name = "local_task" := by
      by_contra other
      exact before fun _ member => List.mem_singleton.mp member ▸ other
    have takes := written.takes joint []
    rw [if_pos named] at takes
    exact ⟨[arg],_,_,.stop takes,List.prefix_rfl⟩
  | @comma arg chunk other args trailing rest joint written more ih =>
    have takes := written.takes joint rest
    by_cases named : arg.name = "local_task"
    · rw [if_pos named] at takes
      exact ⟨[arg],_,_,.stop takes,List.prefix_append [arg] _⟩
    · rw [if_neg named] at takes
      obtain ⟨taken,t,left,reading,first⟩ := ih fun later => before (localTaskLast_cons.mpr ⟨named,later⟩)
      exact ⟨arg::taken,t,left,.more takes reading,List.cons_prefix_cons.mpr ⟨rfl,first⟩⟩

theorem noComma_value {eq : Bool} (valued : Valued syn arg token) :
    ∀ t ∈ [.ident name,.punct '=' eq,token], isPunct ',' t = false := by
  cases valued <;> simp [isPunct]

theorem listedNames_last (named : headName ts = some name) (noComma : ∀ t ∈ ts, isPunct ',' t = false) :
    listedNames ts = [name] := by
  unfold listedNames
  rw [List.splitOnP_eq_singleton noComma]
  simp [named]

theorem listedNames_cons {chunk : List Token} {joint : Bool} (named : headName chunk = some name)
    (noComma : ∀ t ∈ chunk, isPunct ',' t = false) :
    listedNames (chunk++.punct ',' joint::rest) = name::listedNames rest := by
  unfold listedNames
  rw [List.splitOnP_append_cons_of_forall_mem noComma _ rfl,List.filterMap_cons_some named]

-- What is read to its end lists the names that it is read as.
theorem Reading.names (reading : Reading syn ts args rest) (ends : rest = []) : listedNames ts = args.map Argument.name := by
  induction reading with
  | none => rfl
  | stop takes =>
    subst ends
    cases takes with
    | bare => exact listedNames_last rfl (by simp [isPunct])
    | localTask valued => exact listedNames_last rfl (noComma_value valued)
    | last named _ valued => exact listedNames_last (named ▸ rfl) (noComma_value valued)
  | more takes later ih =>
    cases takes with
    | comma named _ valued =>
      rw [List.map_cons,named,← ih ends]
      exact listedNames_cons rfl (noComma_value valued)

-- The loop reads the tokens in one way.
theorem reading_unique {other : List Argument} {after : List Token} (reading : Reading syn ts args rest)
    (distinct : Distinct args) (reading' : Reading syn ts other after) (distinct' : Distinct other) :
    varsOf args = varsOf other ∧ rest = after := by
  have first := (@reads_iff syn ts rest _).mpr ⟨args,reading,distinct,rfl⟩
  have second := (@reads_iff syn ts after _).mpr ⟨other,reading',distinct',rfl⟩
  have same := Except.ok.inj (first.symm.trans second)
  exact ⟨congrArg Prod.fst same,congrArg Prod.snd same⟩

theorem taskArgs_listing {result : HardwareTaskArgs ⊕ SoftwareTaskArgs} (distinct : Distinct order)
    (listing : Listing syn order trailing ts) :
    taskArgs syn ts = .ok result ↔ LocalTaskLast order trailing ∧ (varsOf order).finish = .ok result := by
  rw [taskArgs_ok]
  refine ⟨?_,fun ⟨last,finished⟩ => ⟨order,listing.reading last,distinct,finished⟩⟩
  rintro ⟨args,reading,distinct',finished⟩
  by_cases last : LocalTaskLast order trailing
  · rw [← (reading_unique reading distinct' (listing.reading last) distinct).1]
    exact ⟨last,finished⟩
  · obtain ⟨taken,t,left,stopped,first⟩ := listing.stops last
    have distinct'' : Distinct taken := distinct.sublist (first.sublist.map _)
    cases (reading_unique reading distinct' stopped distinct'').2

theorem refused_iff : (∃ e, taskArgs syn ts = .error e) ↔ ∀ result, taskArgs syn ts ≠ .ok result := by
  cases taskArgs syn ts <;> simp
end

-- A list of the arguments of a set is accepted, whatever their order and with one meaning, if and only if no comma
-- follows local_task. A hardware task at priority 0 is refused in every order, and so is a name that is listed twice.
theorem task_args_order_iff (syn : ArgParsers) :
    (∀ args, Distinct args → (∀ arg ∈ args, arg.Valid args) → ∀ order trailing ts, order.Perm args →
      Listing syn order trailing ts → (taskArgs syn ts = .ok (taskArgsOf args) ↔ LocalTaskLast order trailing)) ∧
    (∀ args, Distinct args → (¬∀ arg ∈ args, arg.Valid args) → ∀ order trailing ts, order.Perm args →
      Listing syn order trailing ts → ∃ e, taskArgs syn ts = .error e) ∧
    ∀ ts, ¬(listedNames ts).Nodup → ∃ e, taskArgs syn ts = .error e := by
  have listed : ∀ args order trailing ts result, Distinct args → order.Perm args → Listing syn order trailing ts →
      (taskArgs syn ts = .ok result ↔
        LocalTaskLast order trailing ∧ (∀ arg ∈ args, arg.Valid args) ∧ result = taskArgsOf args) := by
    intro args order trailing ts result distinct perm listing
    rw [taskArgs_listing ((perm.map Argument.name).nodup_iff.mpr distinct) listing,varsOf_perm distinct perm,finish_iff distinct]
  refine ⟨?_,?_,?_⟩
  · intro args distinct valid order trailing ts perm listing
    rw [listed args order trailing ts _ distinct perm listing]
    exact ⟨And.left,fun last => ⟨last,valid,rfl⟩⟩
  · intro args distinct invalid order trailing ts perm listing
    refine refused_iff.mpr fun result accepted => invalid ?_
    exact ((listed args order trailing ts result distinct perm listing).mp accepted).2.1
  · intro ts twice
    refine refused_iff.mpr fun result accepted => twice ?_
    obtain ⟨args,reading,distinct,_⟩ := taskArgs_ok.mp accepted
    exact reading.names rfl ▸ distinct

-- As much of syn as reads names that are no keywords and literals of one digit.
def plainArgs : ArgParsers where
  toParsers := plain
  tree
    | [.ident name] => .path (.ofIdent name)
    | _ => .other
  acceptAsIdent name := !(["fn","mod","true","false"].contains name)
  intLit text := if text = "0" then some (0,"") else if text = "1" then some (1,"") else none
  names_accepted := by decide

def spawnLocal : List Argument := [.priority "1" 1,.localTask true]
def priorityTokens : List Token := [.ident "priority",.punct '=' false,.literal "1"]

-- priority = 1, local_task, and a list with a priority before and behind it.
theorem spawn_local_accepted :
    taskArgs plainArgs (priorityTokens++[.punct ',' false,.ident "local_task"]) = .ok (.inr ⟨1,[],[],true⟩) ∧
    ∃ e, taskArgs plainArgs (priorityTokens++.punct ',' false::.ident "local_task"::.punct ',' false::priorityTokens) =
      .error e := by
  refine ⟨?_,(task_args_order_iff plainArgs).2.2 _ (by decide)⟩
  have written : Written plainArgs (.priority "1" 1) priorityTokens := .value (.priority rfl (by decide))
  have valid : ∀ arg ∈ spawnLocal, arg.Valid spawnLocal :=
    List.forall_mem_cons.mpr ⟨fun _ => Nat.one_ne_zero,List.forall_mem_singleton.mpr trivial⟩
  refine ((task_args_order_iff plainArgs).1 spawnLocal (by decide) valid spawnLocal false _ (.refl _)
    (.comma written (.last .bare))).mpr ?_
  exact List.forall_mem_singleton.mpr (by decide)

-- local_task, priority = 1, of the same two arguments, and local_task, with its comma.
theorem local_task_first_refused :
    Distinct spawnLocal ∧ (∀ arg ∈ spawnLocal, arg.Valid spawnLocal) ∧ spawnLocal.reverse.Perm spawnLocal ∧
    Listing plainArgs spawnLocal.reverse false (.ident "local_task"::.punct ',' false::priorityTokens) ∧
    taskArgs plainArgs (.ident "local_task"::.punct ',' false::priorityTokens) =
      .error ⟨.tokens (.punct ',' false::priorityTokens),"unexpected token"⟩ ∧
    Listing plainArgs [.localTask true] true [.ident "local_task",.punct ',' false] ∧
    taskArgs plainArgs [.ident "local_task",.punct ',' false] = .error ⟨.tokens [.punct ',' false],"unexpected token"⟩ := by
  have written : Written plainArgs (.priority "1" 1) priorityTokens := .value (.priority rfl (by decide))
  refine ⟨by decide,?_,List.reverse_perm _,.comma .bare (.last written),?_,.trailing .bare,?_⟩
  · exact List.forall_mem_cons.mpr ⟨fun _ => Nat.one_ne_zero,List.forall_mem_singleton.mpr trivial⟩
  · exact taskArgs_leftover (.stop (.bare rfl)) (List.pairwise_singleton _ _)
  · exact taskArgs_leftover (.stop (.bare rfl)) (List.pairwise_singleton _ _)
end Rtic.Syntax.Syn
