import Rtic.Codegen.RawIdentifiers
import Rtic.Codegen.StartUp
import Rtic.Syntax.ParseInput
namespace Rtic.Codegen
open Syntax Syntax.Syn Export Returns Borrows Transition
open Syntax.Analyze (Context)

def Target.feature : Target → BackendFeature
  | .cortexBasepri => .cortex
  | .cortexSourceMasking => .cortex
  | .esp32 .c3 => .esp32c3
  | .esp32 .c6 => .esp32c6
  | .riscvSlic .clint => .riscvClint
  | .riscvSlic .mecall => .riscvMecall

-- The hart of app.args.backend.
def hartId (args : AppArgs) : Option RiscvSlic.BackendArgs :=
  match args.backend with
  | some [.ident hart] => some hart
  | _ => none

-- The pass that refuses, and what it says.
inductive Refusal where
  | syntax_ (failure : Failure)
  | preprocess (error : Error)
  | check (error : Error)
  deriving Repr

structure Expansion where
  app : Syntax.App
  analysis : CodegenAnalysis
  generated : Generated

-- Where the macro is built with overflow checks, a range that runs out panics. The one of pre_init runs out first.
def StartUp.ranged (overflowChecks : Bool) : StartUp → Option Unit
  | .esp32 none => if overflowChecks then none else some ()
  | _ => some ()

-- The #[app] macro: compile_error! of a refusal, or the generated code. none is a panic.
def app (target : Target) (overflowChecks : Bool) (syn : SynParsers) (text : Type_ → Ty) (args input : List Token) :
    Option (Except Refusal Expansion) :=
  match Syn.parse syn target.feature text args input with
  | none => none
  | some (.error failure) => some (.error (.syntax_ failure))
  | some (.ok (parsed,analysis)) =>
    match Codegen.preprocess target (parsed.erase text) with
    | .error error => some (.error (.preprocess error))
    | .ok app =>
      match Codegen.check target (hartId parsed.args) app with
      | .error error => some (.error (.check error))
      | .ok _ => do
        let analysis ← analyze analysis app
        let generated ← codegen target (hartId parsed.args) app analysis
        let texts ← identTexts app (generated.dispatchers.map Prod.fst)
        let _ ← texts.mapM identNew
        let _ ← generated.main.startUp.ranged overflowChecks
        return .ok ⟨app,analysis,generated⟩

section
variable {target : Target} {overflowChecks : Bool} {syn : SynParsers} {text : Type_ → Ty} {args input : List Token}
  {parsed : Syn.App} {analysis : Analyze.Analysis} {e : Expansion}

-- What the generator cannot name, or on the C3 cannot number with a u8.
def Unwritable (target : Target) (overflowChecks : Bool) (app : Syntax.App) : Prop :=
  (∃ name ∈ usedNames app, Raw name) ∨
    (overflowChecks = true ∧ target = .esp32 .c3 ∧ 239 ≤ (nonzeroPriorities app).length+app.hardwareTasks.length)

theorem ranged_panics {app : Syntax.App} {analysis : CodegenAnalysis} (enough : enoughDispatchers app = .ok ())
    (assigned : analysis.interrupts = interrupts app) :
    (preInitEnableInterrupts target app analysis).ranged overflowChecks = none ↔
      overflowChecks = true ∧ target = .esp32 .c3 ∧ 239 ≤ (nonzeroPriorities app).length+app.hardwareTasks.length := by
  cases target with
  | cortexBasepri | cortexSourceMasking | riscvSlic => exact iff_of_false nofun nofun
  | esp32 chip =>
    cases chip with
    | c6 => exact iff_of_false nofun nofun
    | c3 =>
      have panics : Esp32.preInitEnableInterrupts .c3 app analysis = none ↔
          239 ≤ (nonzeroPriorities app).length+app.hardwareTasks.length := by
        rw [← Esp32.ids_length enough assigned]
        unfold Esp32.preInitEnableInterrupts Esp32.mapped
        rw [Option.map_eq_none_iff,Esp32.numbered_panics]
        omega
      rw [← panics]
      change (StartUp.esp32 (Esp32.preInitEnableInterrupts .c3 app analysis)).ranged overflowChecks = none ↔ _
      cases Esp32.preInitEnableInterrupts .c3 app analysis with
      | none => cases overflowChecks <;> simp [StartUp.ranged]
      | some calls => simp [StartUp.ranged]

-- What the passes have accepted is generated, and written unless a name or a number is in the way.
theorem accepted_writes {application app : Syntax.App} {backend : Option RiscvSlic.BackendArgs}
    (basic : application.Parsed) (checked : Check.app application = .ok ())
    (analyzed : Syntax.Analyze.app application = .ok analysis)
    (prepared : Codegen.preprocess target application = .ok app) (supported : Codegen.check target backend app = .ok ()) :
    ∃ result generated texts, analyze analysis app = some result ∧ codegen target backend app result = some generated ∧
      identTexts app (generated.dispatchers.map Prod.fst) = some texts ∧
      (texts.mapM identNew = none ∨ generated.main.startUp.ranged overflowChecks = none ↔
        Unwritable target overflowChecks app) := by
  have enough := check_enough supported
  obtain ⟨dispatchers,rfl⟩ := preprocessed prepared
  have ready := ready basic checked enough
  obtain ⟨result,analyzes,rfl,assigned⟩ := analyze_some analysis ready.parsed ready.enough
  have channels := Syntax.Analyze.app_channels analyzed
  obtain ⟨generated,made⟩ := returns_codegen ready assigned channels target supported
  obtain ⟨startUp,_,dispatched⟩ := codegen_written made
  have levels := asyncDispatchers_some ready.parsed ready.enough assigned channels
  have polled : ∀ name, name ∈ (generated.dispatchers.map Prod.fst).filterMap Dispatcher.vector ↔
      name ∈ (interrupts _).map Prod.snd := fun name => by
    rw [Option.some.inj (dispatched.symm.trans levels),dispatched_vectors ready.enough]
  obtain ⟨texts,named,raw⟩ := identTexts_panics polled
  have ranged := @ranged_panics target overflowChecks _ _ ready.enough assigned
  rw [← startUp] at ranged
  exact ⟨result,generated,texts,analyzes,made,named,or_congr raw ranged⟩

-- What is parsed is generated or refused with an error, unless it cannot be written.
theorem parsed_panics (accepted : Syn.parse syn target.feature text args input = some (.ok (parsed,analysis))) :
    app target overflowChecks syn text args input = none ↔
      ∃ app, Codegen.preprocess target (parsed.erase text) = .ok app ∧
        Codegen.check target (hartId parsed.args) app = .ok () ∧ Unwritable target overflowChecks app := by
  obtain ⟨basic,_,_⟩ := parse_wellFormed accepted
  obtain ⟨_,_,_,_,passed⟩ := parse_parts accepted
  obtain ⟨_,checked,analyzed⟩ := parse2_parts passed
  unfold app
  rw [accepted]
  dsimp only
  cases prepared : Codegen.preprocess target (parsed.erase text) with
  | error error => exact iff_of_false nofun (by rintro ⟨_,⟨⟩,_⟩)
  | ok app =>
    dsimp only
    cases supported : Codegen.check target (hartId parsed.args) app with
    | error error =>
      refine iff_of_false nofun ?_
      rintro ⟨_,⟨⟩,accepts,_⟩
      rw [supported] at accepts
      cases accepts
    | ok done =>
      have only : (∃ own, Except.ok (ε:=Error) app = .ok own ∧ Codegen.check target (hartId parsed.args) own = .ok () ∧
          Unwritable target overflowChecks own) ↔ Unwritable target overflowChecks app :=
        ⟨by rintro ⟨_,⟨⟩,_,here⟩; exact here,fun here => ⟨app,rfl,supported,here⟩⟩
      obtain ⟨result,generated,texts,analyzes,made,named,panics⟩ :=
        @accepted_writes target overflowChecks _ _ _ _ basic checked analyzed prepared supported
      rw [only,← panics]
      simp only [Option.bind_eq_bind,analyzes,Option.bind_some,made,named]
      cases texts.mapM identNew with
      | none => exact iff_of_true rfl (Or.inl rfl)
      | some idents =>
        cases generated.main.startUp.ranged overflowChecks with
        | none => exact iff_of_true rfl (Or.inr rfl)
        | some done => exact iff_of_false nofun nofun

-- The passes that have accepted an application that is generated.
structure Expanded (target : Target) (syn : SynParsers) (text : Type_ → Ty) (args input : List Token)
    (parsed : Syn.App) (analysis : Analyze.Analysis) (e : Expansion) : Prop where
  accepted : Syn.parse syn target.feature text args input = some (.ok (parsed,analysis))
  prepared : Codegen.preprocess target (parsed.erase text) = .ok e.app
  supported : Codegen.check target (hartId parsed.args) e.app = .ok ()
  assigned : analyze analysis e.app = some e.analysis
  made : codegen target (hartId parsed.args) e.app e.analysis = some e.generated

theorem app_expanded (expands : app target overflowChecks syn text args input = some (.ok e)) :
    ∃ parsed analysis, Expanded target syn text args input parsed analysis e := by
  unfold app at expands
  split at expands
  · cases expands
  · cases expands
  · rename_i parsed analysis accepted
    split at expands
    · cases expands
    · rename_i prepared_ prepared
      split at expands
      · cases expands
      · rename_i supported
        obtain ⟨assigned_,assigned,expands⟩ := Option.bind_eq_some_iff.mp expands
        obtain ⟨generated,made,expands⟩ := Option.bind_eq_some_iff.mp expands
        obtain ⟨_,_,expands⟩ := Option.bind_eq_some_iff.mp expands
        obtain ⟨_,_,expands⟩ := Option.bind_eq_some_iff.mp expands
        obtain ⟨_,_,expands⟩ := Option.bind_eq_some_iff.mp expands
        cases expands
        exact ⟨parsed,analysis,accepted,prepared,supported,assigned,made⟩

theorem parse2_panics {syn : ArgParsers} {appArgs : AppArgs} {read : Input} : parse2 syn text appArgs read = none ↔
    (∃ s, read.items.foldlM (ParseState.item (argsParsers syn)) ParseState.new = .ok s) ∧ ¬Furnished read.items := by
  have panics : App.parse (argsParsers syn) appArgs read = none ↔ _ := parse_panics
  rw [← panics]
  unfold parse2
  cases App.parse (argsParsers syn) appArgs read with
  | none => exact iff_of_true rfl rfl
  | some result =>
    refine iff_of_false ?_ nofun
    cases result with
    | error e => exact nofun
    | ok parsed =>
      dsimp only
      cases Check.app (parsed.erase text) with
      | error e => exact nofun
      | ok done =>
        dsimp only
        cases Analyze.app (parsed.erase text) <;> exact nofun

theorem syn_panics : Syn.parse syn target.feature text args input = none ↔
    ∃ appArgs read, AppArgs.parse syn.toAppParsers target.feature args = .ok appArgs ∧
      Parser.parse2 (Input.parse syn) input = .ok read ∧
      (∃ s, read.items.foldlM (ParseState.item (argsParsers syn.toArgParsers)) ParseState.new = .ok s) ∧
      ¬Furnished read.items := by
  unfold Syn.parse
  cases AppArgs.parse syn.toAppParsers target.feature args with
  | error e => exact iff_of_false nofun nofun
  | ok appArgs =>
    dsimp only
    cases Parser.parse2 (Input.parse syn) input with
    | error e => exact iff_of_false nofun nofun
    | ok read =>
      rw [parse2_panics]
      exact ⟨fun both => ⟨appArgs,read,rfl,rfl,both⟩,fun ⟨_,_,same,here,both⟩ => by cases same; cases here; exact both⟩
end

-- The macro panics exactly if the arguments, the module and each of its items are parsed and the module has no
-- #[shared] struct, no #[local] struct or no #[init], or if all passes accept the application and it cannot be written.
theorem app_panics_iff (target : Target) (overflowChecks : Bool) (syn : SynParsers) (text : Type_ → Ty)
    (args input : List Token) : app target overflowChecks syn text args input = none ↔
      (∃ appArgs read, AppArgs.parse syn.toAppParsers target.feature args = .ok appArgs ∧
        Parser.parse2 (Input.parse syn) input = .ok read ∧
        (∃ s, read.items.foldlM (ParseState.item (argsParsers syn.toArgParsers)) ParseState.new = .ok s) ∧
        ¬Furnished read.items) ∨
      ∃ parsed analysis app, Syn.parse syn target.feature text args input = some (.ok (parsed,analysis)) ∧
        Codegen.preprocess target (parsed.erase text) = .ok app ∧
        Codegen.check target (hartId parsed.args) app = .ok () ∧ Unwritable target overflowChecks app := by
  have panics : Syn.parse syn target.feature text args input = none ↔ _ := syn_panics
  rw [← panics]
  cases accepted : Syn.parse syn target.feature text args input with
  | none =>
    unfold app
    rw [accepted]
    exact iff_of_true rfl (Or.inl rfl)
  | some result =>
    cases result with
    | error failure =>
      unfold app
      rw [accepted]
      exact iff_of_false nofun (by rintro (⟨⟨⟩⟩ | ⟨_,_,_,⟨⟩,_⟩))
    | ok both =>
      obtain ⟨parsed,analysis⟩ := both
      rw [parsed_panics accepted]
      constructor
      · rintro ⟨app,rest⟩
        exact Or.inr ⟨parsed,analysis,app,rfl,rest⟩
      · rintro (⟨⟨⟩⟩ | ⟨_,_,app,⟨⟩,rest⟩)
        exact ⟨app,rest⟩

-- What holds of a run of the generated code from reset.
structure Safe {Reg : Type} {backend : Backend Reg} {prog : Program Handler Task Ident} (e : Expansion) {s : World Reg}
    (run : Execution backend prog e.generated s) : Prop where
  separate : run.Through fun _ s => Separate (s.borrows e.generated)
  startsUp : run.Every fun evs s a _ => StartsUp e.app e.generated evs s a
  written : run.Through fun _ s => s.phase = .running → ∀ static, static ∈ s.written ↔
    ∃ ctxt args, Context.args e.app ctxt = some args ∧ static ∈ lateResources args

section
variable {target : Target} {overflowChecks : Bool} {syn : SynParsers} {text : Type_ → Ty} {args input : List Token}
  {parsed : Syn.App} {analysis : Analyze.Analysis} {e : Expansion}

-- Nothing is asked of an application that the passes have not established.
theorem Expanded.safe {Reg : Type} {backend : Backend Reg} {denotes : Reg → Nat → Prop} {raiseOnly : Prop}
    {fits : Nat → Prop} {enabled : List Vector} {s : World Reg} (expanded : Expanded target syn text args input parsed analysis e)
    (unchanged : e.app = parsed.erase text) (encodes : Encodes backend denotes raiseOnly fits)
    (known : enabled ⊆ vectors e.app) (run : Execution backend (program e.app e.analysis.parent enabled) e.generated s)
    (lives : run.Every PollsLive)
    (admitted : run.Every fun evs s a t => raiseOnly ∨ Rising fits (program e.app e.analysis.parent enabled) evs s a t) :
    Safe e run := by
  obtain ⟨basic,keyed,declared⟩ := parse_wellFormed expanded.accepted
  obtain ⟨_,_,_,_,passed⟩ := parse_parts expanded.accepted
  obtain ⟨_,checked,analyzed⟩ := parse2_parts passed
  rw [← unchanged] at basic keyed declared checked analyzed
  rw [← analyze_parent expanded.assigned] at analyzed
  exact ⟨run_separate encodes basic keyed checked analyzed known expanded.made run lives admitted,
    run_startsUp basic keyed checked analyzed expanded.made declared run lives,
    run_written basic keyed checked analyzed expanded.made run lives⟩
end

-- From the tokens of any application to the runs of its generated code in which the future polled is always live.
theorem expansion_safe (overflowChecks : Bool) (syn : SynParsers) (text : Type_ → Ty) (args input : List Token)
    (e : Expansion) : (app .cortexBasepri overflowChecks syn text args input = some (.ok e) → ∀ bits s,
      ∀ run : Execution (CortexBasepri.backend bits) (CortexBasepri.generated e.app e.analysis.parent) e.generated s,
        run.Every PollsLive → Safe e run) ∧
    ∀ chip, app (.esp32 chip) overflowChecks syn text args input = some (.ok e) → ∀ checks s,
      ∀ run : Execution (Esp32.backend checks) (Esp32.generated chip e.app e.analysis.parent) e.generated s,
        run.Every PollsLive → run.Every (Rising Esp32.Fits (Esp32.generated chip e.app e.analysis.parent)) →
          Safe e run := by
  refine ⟨fun expands bits s run lives => ?_,fun chip expands checks s run lives rising => ?_⟩
  · obtain ⟨parsed,analysis,expanded⟩ := app_expanded expands
    exact expanded.safe (Except.ok.inj expanded.prepared).symm (CortexBasepri.encodes bits)
      (CortexBasepri.enabled_known e.app) run lives (run.every_true.imp fun _ => Or.inl True.intro)
  · obtain ⟨parsed,analysis,expanded⟩ := app_expanded expands
    exact expanded.safe (Except.ok.inj expanded.prepared).symm (Esp32.encodes checks)
      (Esp32.enabled_known chip e.app) run lives (rising.imp Or.inr)

-- As much of syn as reads a module like the one below.
def sketchExpr : ParseStream Expr := fun ts =>
  match ts with
  | .ident name::rest => .ok ([.ident name],rest)
  | _ => .error ⟨.tokens ts,"expected expression"⟩

def sketchAttr (name : Ident) : List Token → Attribute
  | [.group .parenthesis args] => ⟨.outer,.ofIdent name,some args⟩
  | _ => bareAttr name

def sketchFields : List Token → List Field
  | .ident name::.punct ':' _::.ident ty::.punct ',' _::rest => ⟨[],.inherited,name,.path false (.ofIdent ty)⟩::sketchFields rest
  | _ => []

def sketchFn (attr : Attribute) (name context : Ident) (output : ReturnType) : Item :=
  .fn ⟨[attr],.inherited,
    { constness := false
      asyncness := false
      unsafety := false
      abi := none
      ident := name
      generics := ⟨[],none⟩
      inputs := [.typed ⟨[.ident "_"],.path false ⟨false,[⟨context,.none⟩,⟨"Context",.none⟩]⟩⟩]
      variadic := false
      output := output},[]⟩

def sketchItem : ParseStream Item := fun ts =>
  match ts with
  | .punct '#' _::.group .bracket (.ident attr::args)::.ident "struct"::.ident name::.group .brace fields::rest =>
    .ok (.struct_ ⟨[sketchAttr attr args],.inherited,name,.named (sketchFields fields)⟩,rest)
  | .punct '#' _::.group .bracket (.ident attr::args)::.ident "fn"::.ident name::
      .group .parenthesis (.ident "_"::.punct ':' _::.ident context::_)::.group .brace []::rest =>
    .ok (sketchFn (sketchAttr attr args) name context .default,rest)
  | .punct '#' _::.group .bracket (.ident attr::args)::.ident "fn"::.ident name::
      .group .parenthesis (.ident "_"::.punct ':' _::.ident context::_)::.punct '-' _::.punct '>' _::
      .group .parenthesis [.ident first,.punct ',' _,.ident second]::.group .brace []::rest =>
    .ok (sketchFn (sketchAttr attr args) name context
      (.type_ (.tuple [.path false (.ofIdent first),.path false (.ofIdent second)])),rest)
  | _ => .error ⟨.tokens ts,"expected item"⟩

theorem sketchItem_consumes : TokenParser.Consumes sketchItem := by
  intro ts item rest result
  unfold sketchItem at result
  split at result <;> cases result <;> simp only [List.length_cons] <;> omega

def sketch : SynParsers where
  toAppParsers := {plainApp with
    toArgParsers := {plainArgs with
      toParsers := {plain with
        expr := sketchExpr
        expr_consumes := by
          intro ts expr rest result
          unfold sketchExpr at result
          split at result <;> cases result
          exact Nat.lt_succ_self _}}}
  parseOuter ts := .ok ([],ts)
  parseInner ts := .ok ([],ts)
  item := sketchItem
  item_consumes := sketchItem_consumes

def pathTokens (first second : Ident) : List Token :=
  [.ident first,.punct ':' true,.punct ':' false,.ident second]

-- mod app {
--   #[shared] struct Shared { $total: u32, }
--   #[local] struct Local {}
--   #[init] fn init(_: init::Context) -> (Shared, Local) {}
--   #[task(binds = UART0, shared = [$total])] fn uart0(_: uart0::Context) {}
-- }
def uartModule (total : Ident) : List Token :=
  [.ident "mod",.ident "app",.group .brace [
    .punct '#' false,.group .bracket [.ident "shared"],.ident "struct",.ident "Shared",
      .group .brace [.ident total,.punct ':' false,.ident "u32",.punct ',' false],
    .punct '#' false,.group .bracket [.ident "local"],.ident "struct",.ident "Local",.group .brace [],
    .punct '#' false,.group .bracket [.ident "init"],.ident "fn",.ident "init",
      .group .parenthesis (.ident "_"::.punct ':' false::pathTokens "init" "Context"),.punct '-' true,.punct '>' false,
      .group .parenthesis [.ident "Shared",.punct ',' false,.ident "Local"],.group .brace [],
    .punct '#' false,.group .bracket [.ident "task",.group .parenthesis [.ident "binds",.punct '=' false,.ident "UART0",
        .punct ',' false,.ident "shared",.punct '=' false,.group .bracket [.ident total]]],.ident "fn",.ident "uart0",
      .group .parenthesis (.ident "_"::.punct ':' false::pathTokens "uart0" "Context"),.group .brace []]]

def uartText : Type_ → Ty
  | .path _ path => " ".intercalate (path.segments.map PathSegment.ident)
  | _ => ""

def uartApp : Syntax.App :=
  ⟨[],⟨"init",[]⟩,none,[("total",⟨"u32",false⟩)],[],[("uart0",⟨"UART0",1,[],[("total",.exclusive)]⟩)],[]⟩

def uartAnalysis : CodegenAnalysis := ⟨⟨[],["total"],[],[("total",.owned 1)],["u32"],[]⟩,[],some 0⟩
def uartExpansion : Expansion := ⟨uartApp,uartAnalysis,(codegen .cortexBasepri none uartApp uartAnalysis).get (by decide)⟩

theorem uart_expands : app .cortexBasepri true sketch uartText [.ident "device",.punct '=' false,.ident "lm3s6965"]
    (uartModule "total") = some (.ok uartExpansion) := by
  with_unfolding_all rfl

-- A raw identifier is parsed, but there is no identifier made of its name.
example : app .cortexBasepri true sketch uartText [.ident "device",.punct '=' false,.ident "lm3s6965"]
    (uartModule "r#type") = none := by
  with_unfolding_all rfl

theorem uart_handler : (CortexBasepri.generated uartApp uartAnalysis.parent).interrupt (.hardware "uart0") 1 :=
  ⟨⟨1,"UART0",.hardware "uart0"⟩,by decide,rfl,rfl⟩
theorem uart_locks : (CortexBasepri.generated uartApp uartAnalysis.parent).locks (.hardware "uart0") "total" :=
  ⟨_,_,⟨"u32",false⟩,.hardware List.mem_cons_self,by decide,by decide,rfl⟩

-- The task runs and locks its resource.
def uartRun :=
  ((((((((Transition.Run.start :
      Execution (CortexBasepri.backend 3) (CortexBasepri.generated uartApp uartAnalysis.parent) uartExpansion.generated _).snoc
    .initCalled (.initCalled rfl)).snoc
    .initReturned (.initReturned rfl fun _ => rfl)).snoc
    (.wroteLate (.shared "total")) (.wroteLate rfl)).snoc
    .enabled (.enabled rfl)).snoc
    (.machine (.preempted (.hardware "uart0") 1)) (.machine rfl (.preempted rfl uart_handler (by decide) rfl rfl) True.intro)).snoc
    (.machine .began) (.machine rfl (.began rfl rfl) True.intro)).snoc
    (.machine (.called (.hardware "uart0"))) (.machine rfl (.called rfl rfl rfl (.hardware "uart0")) (by rintro top ⟨⟩; rfl))).snoc
    (.machine (.reading "total")) (.machine rfl (.reading rfl rfl rfl uart_locks (by decide))
      (by rintro top ⟨⟩; exact ⟨nofun,nofun⟩))

theorem uart_lives : uartRun.Every PollsLive := by
  simp only [uartRun,Run.every_snoc,Run.every_start,PollsLive]
  simp

-- The same module on the ESP32-C3, where the task raises the threshold.
def thresholdExpansion : Expansion :=
  ⟨uartApp,uartAnalysis,(codegen (.esp32 .c3) none uartApp uartAnalysis).get (by decide)⟩

theorem threshold_expands : app (.esp32 .c3) true sketch uartText [.ident "device",.punct '=' false,.ident "esp32c3"]
    (uartModule "total") = some (.ok thresholdExpansion) := by
  with_unfolding_all rfl

theorem threshold_handler : (Esp32.generated .c3 uartApp uartAnalysis.parent).interrupt (.hardware "uart0") 1 :=
  ⟨⟨1,"UART0",.hardware "uart0"⟩,by decide,rfl,rfl⟩
theorem threshold_locks : (Esp32.generated .c3 uartApp uartAnalysis.parent).locks (.hardware "uart0") "total" :=
  ⟨_,_,⟨"u32",false⟩,.hardware List.mem_cons_self,by decide,by decide,rfl⟩

def thresholdRun :=
  (((((((((Transition.Run.start : Execution (Esp32.backend false) (Esp32.generated .c3 uartApp uartAnalysis.parent)
      thresholdExpansion.generated _).snoc
    .initCalled (.initCalled rfl)).snoc
    .initReturned (.initReturned rfl fun _ => rfl)).snoc
    (.wroteLate (.shared "total")) (.wroteLate rfl)).snoc
    .enabled (.enabled rfl)).snoc
    (.machine (.preempted (.hardware "uart0") 1))
      (.machine rfl (.preempted rfl threshold_handler (by decide) rfl rfl) True.intro)).snoc
    (.machine .began) (.machine rfl (.began rfl rfl) True.intro)).snoc
    (.machine (.called (.hardware "uart0"))) (.machine rfl (.called rfl rfl rfl (.hardware "uart0")) (by rintro top ⟨⟩; rfl))).snoc
    (.machine (.reading "total")) (.machine rfl (.reading rfl rfl rfl threshold_locks (by decide))
      (by rintro top ⟨⟩; exact ⟨nofun,nofun⟩))).snoc
    (.machine (.raised "total")) (.machine rfl (.raised rfl rfl rfl) True.intro)

theorem threshold_lives : thresholdRun.Every PollsLive := by
  simp only [thresholdRun,Run.every_snoc,Run.every_start,PollsLive]
  simp

theorem threshold_rises : thresholdRun.Every (Rising Esp32.Fits (Esp32.generated .c3 uartApp uartAnalysis.parent)) := by
  simp only [thresholdRun,Run.every_snoc,Run.every_start,Rising,Nondecreasing]
  simp
  decide

theorem uart_safe : Safe uartExpansion uartRun ∧ Safe thresholdExpansion thresholdRun :=
  ⟨(expansion_safe true sketch uartText _ (uartModule "total") uartExpansion).1 uart_expands 3 _ uartRun uart_lives,
    (expansion_safe true sketch uartText _ (uartModule "total") thresholdExpansion).2 .c3 threshold_expands false _
      thresholdRun threshold_lives threshold_rises⟩

end Rtic.Codegen
