import Rtic.Codegen.Aliasing
namespace Rtic.Codegen
open Ordered Syntax Borrows Export Transition
open Executor (AsyncTaskExecutor)
open Syntax.Analyze (Context Args Static ExclusiveUse Analysis insertSet mem_insertSet)

-- The resources of a context that post_init initializes; those declared in place need no write.
def lateResources (args : Args) : List Static :=
  args.sharedResources.map (fun entry => .shared entry.1)++
    (args.localResources.filter isExternal).map fun entry => .local_ entry.1

section
variable {app : App} {analysis : CodegenAnalysis}

theorem locate_used (s : Syntax.Analyze.Locations) (entry : Option Nat × Ident × Access) :
    (Syntax.Analyze.locate app s entry).used = insertSet s.used entry.2.1 := by
  unfold Syntax.Analyze.locate
  dsimp only
  split
  · rfl
  · split <;> rfl

theorem locations_used {name : Ident} :
    name ∈ (Syntax.Analyze.locations app).used ↔ ∃ entry ∈ app.sharedResourceAccesses, entry.2.1 = name := by
  refine @foldl_visited Syntax.Analyze.Locations _ ⟨[],[],[]⟩ (Syntax.Analyze.locate app)
    (fun entries s => ∀ name, name ∈ s.used ↔ ∃ entry ∈ entries, entry.2.1 = name)
    (by simp) app.sharedResourceAccesses (fun {visited entry rest s} _ used name => ?_) name
  rw [locate_used,mem_insertSet,used]
  simp only [List.mem_append,List.mem_singleton,or_and_right,exists_or,exists_eq_left]
  exact or_congr Iff.rfl eq_comm

theorem mem_usedLocals {name : Ident} :
    name ∈ Syntax.Analyze.usedLocals app ↔
      ∃ context ∈ Syntax.Analyze.taskResourcesList app, name ∈ context.2.2.1.map Prod.fst := by
  have entries : ∀ (locals : LocalResources) (used : List Ident),
      locals.foldl (fun used entry => insertSet used entry.1) used = (locals.map Prod.fst).foldl insertSet used :=
    fun locals used => (List.foldl_map ..).symm
  refine @foldl_visited (List Ident) _ []
    (fun used task => task.2.2.1.foldl (fun used entry => insertSet used entry.1) used)
    (fun contexts used => ∀ name, name ∈ used ↔ ∃ context ∈ contexts, name ∈ context.2.2.1.map Prod.fst)
    (by simp) (Syntax.Analyze.taskResourcesList app) (fun {visited context rest used} _ known name => ?_) name
  rw [entries,Syntax.Analyze.mem_insertSets,known]
  simp [or_and_right,exists_or]

theorem analyzed_used {result : Analysis} (analyzed : Syntax.Analyze.app app = .ok result) :
    result.sharedResources = (Syntax.Analyze.locations app).used ∧
      result.localResources = Syntax.Analyze.usedLocals app := by
  unfold Syntax.Analyze.app at analyzed
  split at analyzed
  · cases analyzed
  · cases analyzed
    exact ⟨rfl,rfl⟩

theorem access_args (parsed : app.Parsed) {entry : Option Nat × Ident × Access}
    (listed : entry ∈ app.sharedResourceAccesses) :
    ∃ ctxt args, Context.args app ctxt = some args ∧ entry.2 ∈ args.sharedResources := by
  unfold App.sharedResourceAccesses at listed
  simp only [List.mem_append,List.mem_flatMap,Option.mem_toList] at listed
  rcases listed with (⟨idle,defined,own⟩ | ⟨⟨name,task⟩,member,own⟩) | ⟨⟨name,task⟩,member,own⟩
  · obtain ⟨resource,here,rfl⟩ := List.mem_map.mp own
    have defined : app.idle = some idle := defined
    exact ⟨.idle,⟨idle.name,idle.sharedResources,idle.localResources,0⟩,by simp [Context.args,defined],here⟩
  · obtain ⟨resource,here,rfl⟩ := List.mem_map.mp own
    exact ⟨.hardwareTask name,⟨name,task.sharedResources,task.localResources,task.priority⟩,
      by simp [Context.args,get?_of_mem (hardware_distinct parsed) member],here⟩
  · obtain ⟨resource,here,rfl⟩ := List.mem_map.mp own
    exact ⟨.softwareTask name,⟨name,task.sharedResources,task.localResources,task.priority⟩,
      by simp [Context.args,get?_of_mem (software_distinct parsed) member],here⟩

theorem context_args (parsed : app.Parsed) {context : Syntax.Analyze.TaskResources}
    (listed : context ∈ Syntax.Analyze.taskResourcesList app) :
    ∃ ctxt args, Context.args app ctxt = some args ∧ args.localResources = context.2.2.1 := by
  rcases Syntax.Analyze.mem_taskResourcesList.mp listed with rfl | ⟨idle,defined,rfl⟩ | ⟨⟨name,task⟩,member,rfl⟩ |
    ⟨⟨name,task⟩,member,rfl⟩
  · exact ⟨.init,_,rfl,rfl⟩
  · have defined : app.idle = some idle := defined
    exact ⟨.idle,⟨idle.name,idle.sharedResources,idle.localResources,0⟩,by simp [Context.args,defined],rfl⟩
  · exact ⟨.softwareTask name,⟨name,task.sharedResources,task.localResources,task.priority⟩,
      by simp [Context.args,get?_of_mem (software_distinct parsed) member],rfl⟩
  · exact ⟨.hardwareTask name,⟨name,task.sharedResources,task.localResources,task.priority⟩,
      by simp [Context.args,get?_of_mem (hardware_distinct parsed) member],rfl⟩

-- What post_init writes is what some context lists.
theorem mem_lateWrites (parsed : app.Parsed) (checked : Check.app app = .ok ()) (exclusive : ExclusiveUse app)
    (analyzed : Syntax.Analyze.app app = .ok analysis.parent) {target : Target}
    {backend : Option RiscvSlic.BackendArgs} {main_ : Main} (made : main target backend app analysis = some main_)
    {static : Static} :
    static ∈ main_.lateWrites ↔ ∃ ctxt args, Context.args app ctxt = some args ∧ static ∈ lateResources args := by
  obtain ⟨shared,locals⟩ := analyzed_used analyzed
  obtain ⟨extra,_,rest⟩ := Option.bind_eq_some_iff.mp made
  obtain ⟨executors,_,built⟩ := Option.bind_eq_some_iff.mp rest
  cases built
  unfold Main.lateWrites lateResources
  dsimp only
  rw [shared,locals]
  simp only [List.mem_append,List.mem_map,List.mem_filter,List.contains_eq_mem,decide_eq_true_eq]
  constructor
  · rintro (⟨name,⟨_,used⟩,rfl⟩ | ⟨name,⟨⟨entry,declared,named⟩,used⟩,rfl⟩)
    · obtain ⟨entry,accessed,rfl⟩ := locations_used.mp used
      obtain ⟨ctxt,args,found,listed⟩ := access_args parsed accessed
      exact ⟨ctxt,args,found,Or.inl ⟨_,listed,rfl⟩⟩
    · obtain ⟨context,member,own⟩ := mem_usedLocals.mp used
      obtain ⟨ctxt,args,found,same⟩ := context_args parsed member
      obtain ⟨⟨_,kind⟩,listed,rfl⟩ := List.mem_map.mp own
      cases kind with
      | external => exact ⟨ctxt,args,found,Or.inr ⟨_,⟨same ▸ listed,rfl⟩,rfl⟩⟩
      | declared ty => exact absurd (named ▸ listed) (exclusive.notDeclared entry declared context member ty)
  · rintro ⟨ctxt,args,found,⟨⟨name,access⟩,listed,rfl⟩ | ⟨⟨name,kind⟩,⟨listed,external⟩,rfl⟩⟩
    · have accessed := args_access found listed
      obtain ⟨resource,declared⟩ := Check.declared_shared checked accessed
      exact Or.inl ⟨name,⟨⟨_,mem_of_get? declared,rfl⟩,locations_used.mpr ⟨_,accessed,rfl⟩⟩,rfl⟩
    · cases kind with
      | declared ty => cases external
      | external =>
        have member := Syntax.Analyze.args_context found
        obtain ⟨entry,declared,named⟩ := Syntax.Analyze.declared_local checked member listed
        exact Or.inr ⟨name,⟨⟨entry,declared,named⟩,mem_usedLocals.mpr ⟨_,member,List.mem_map_of_mem (f:=Prod.fst) listed⟩⟩,rfl⟩
end

def Phase.toPlace : Phase → List Ident
  | .executors left => left
  | _ => []

def Phase.toWrite (main : Main) : Phase → List Static
  | .executors _ | .init => main.lateWrites
  | .postInit left => left
  | .running => []

-- How far the start-up is, by what it has done: until the interrupts are enabled only main has run.
structure StartedUp (core : Export.State Handler Task Ident Reg) (generated : Generated) (evs : List Action)
    (s : World Reg) : Prop where
  placed : s.placed.reverse++s.phase.toPlace = generated.main.executors.map Prod.fst
  written : s.written.reverse++s.phase.toWrite generated.main = generated.main.lateWrites
  core : s.phase ≠ .running → s.core = core
  live : s.phase ≠ .running → ∀ name, (s.slot name).live = true ↔ .wrote name ∈ evs
  allocated : s.phase ≠ .init → s.phase ≠ .running → ∀ name, (s.slot name).allocated = false
  known : ∀ name, (s.slot name).allocated = true ∨ (s.slot name).live = true →
    name ∈ generated.main.executors.map Prod.fst

section
variable {Reg : Type} {generated : Generated} {backend : Backend Reg} {prog : Program Handler Task Ident}
  {s t : World Reg} {a : Action} {evs : List Action}

theorem initial_startedUp : StartedUp (Export.initial backend prog) generated [] (reset backend prog generated) := by
  constructor
  case placed => rfl
  case written => rfl
  case core => exact fun _ => rfl
  case live => exact fun _ name => ⟨nofun,nofun⟩
  case allocated => exact fun _ _ _ => rfl
  case known => exact fun name held => held.elim nofun nofun

theorem userCode_init (user : s.UserCode) (early : s.phase ≠ .running) : s.phase = .init :=
  user.resolve_right fun running => early running.1

-- A step of init on one executor, which leaves the future in it alone.
theorem StartedUp.slot {core : Export.State Handler Task Ident Reg} (started : StartedUp core generated evs s)
    {name : Ident} {slot : Slot} (user : s.UserCode) (other : ∀ name, a ≠ .wrote name)
    (live : slot.live = (s.slot name).live) (known : name ∈ generated.main.executors.map Prod.fst) :
    StartedUp core generated (evs++[a]) (s.update name slot) := by
  refine ⟨started.placed,started.written,started.core,?_,?_,?_⟩
  · intro early name'
    rw [slot_update]
    have before := started.live early name'
    have same : Action.wrote name' ∈ evs++[a] ↔ Action.wrote name' ∈ evs := by
      simp [(other name').symm]
    rw [same,← before]
    split
    · rename_i here
      rw [here,live]
    · exact Iff.rfl
  · exact fun notInit early => absurd (userCode_init user early) notInit
  · intro name' held
    rw [slot_update] at held
    split at held
    · rename_i here
      exact here ▸ known
    · exact started.known name' held

theorem StartedUp.running {core : Export.State Handler Task Ident Reg} (started : StartedUp core generated evs s)
    (running : s.phase = .running) (phase : t.phase = s.phase) (placed : t.placed = s.placed)
    (written : t.written = s.written)
    (known : ∀ name, (t.slot name).allocated = true ∨ (t.slot name).live = true →
      (s.slot name).allocated = true ∨ (s.slot name).live = true) :
    StartedUp core generated (evs++[a]) t := by
  have late : t.phase = .running := phase.trans running
  exact ⟨by rw [placed,phase]; exact started.placed,by rw [written,phase]; exact started.written,
    fun early => absurd late early,fun early => absurd late early,fun _ early => absurd late early,
    fun name held => started.known name (known name held)⟩

theorem step_startedUp {core : Export.State Handler Task Ident Reg} (started : StartedUp core generated evs s)
    (taken : Step backend prog generated s a t) (lives : PollsLive evs s a t) :
    StartedUp core generated (evs++[a]) t := by
  have quiet : ∀ {a : Action}, s.phase ≠ .running → (∀ name, a ≠ .wrote name) →
      ∀ name, (s.slot name).live = true ↔ Action.wrote name ∈ evs++[a] := by
    intro a early other name
    rw [started.live early name]
    simp [(other name).symm]
  cases taken with
  | placed phase =>
    rename_i name left
    have placed := started.placed
    have early : s.phase ≠ .running := by simp [phase]
    rw [phase] at placed
    have allocated := started.allocated (by simp [phase]) early
    refine ⟨by simpa [Phase.toPlace] using placed,?_,fun _ => started.core early,fun _ => ?_,fun _ _ => allocated,started.known⟩
    · have written := started.written
      rwa [phase] at written
    · exact quiet early nofun
  | initCalled phase =>
    have early : s.phase ≠ .running := by simp [phase]
    have placed := started.placed
    have written := started.written
    rw [phase] at placed written
    refine ⟨placed,written,fun _ => started.core early,fun _ => ?_,fun notInit => absurd rfl notInit,started.known⟩
    exact quiet early nofun
  | initReturned phase returned =>
    have early : s.phase ≠ .running := by simp [phase]
    have placed := started.placed
    have written := started.written
    rw [phase] at placed written
    refine ⟨placed,written,fun _ => started.core early,fun _ => ?_,fun _ _ => returned,started.known⟩
    exact quiet early nofun
  | wroteLate phase =>
    rename_i static left
    have early : s.phase ≠ .running := by simp [phase]
    have placed := started.placed
    have written := started.written
    rw [phase] at placed written
    have allocated := started.allocated (by simp [phase]) early
    refine ⟨placed,by simpa [Phase.toWrite] using written,fun _ => started.core early,fun _ => ?_,fun _ _ => allocated,
      started.known⟩
    exact quiet early nofun
  | enabled phase =>
    have placed := started.placed
    have written := started.written
    rw [phase] at placed written
    exact ⟨placed,written,fun late => absurd rfl late,fun late => absurd rfl late,fun _ late => absurd rfl late,started.known⟩
  | allocated user known free =>
    obtain ⟨_,rfl⟩ := AsyncTaskExecutor.tryAllocate_true free
    exact started.slot user nofun rfl known
  | wrote user allocated =>
    rename_i name
    have own := started.known name (Or.inl allocated)
    refine ⟨started.placed,started.written,started.core,?_,?_,?_⟩
    · intro early name'
      rw [slot_update]
      split
      · rename_i here
        subst here
        exact ⟨fun _ => by simp,fun _ => rfl⟩
      · rename_i apart
        have before := started.live early name'
        rw [before]
        simp [apart]
    · exact fun notInit early => absurd (userCode_init user early) notInit
    · intro name' held
      rw [slot_update] at held
      split at held
      · rename_i here
        exact here ▸ own
      · exact started.known name' held
  | pended user known => exact started.slot user nofun rfl known
  | polled running between called on set =>
    rename_i name core' exec
    have found := lives name rfl
    refine started.running running rfl rfl rfl fun name' held => ?_
    rw [slot_update] at held
    split at held
    · rename_i here
      exact Or.inr (here ▸ found)
    · exact held
  | futurePending running inside polling =>
    rename_i name
    refine started.running running rfl rfl rfl fun name' held => ?_
    rw [slot_update] at held
    split at held
    · rename_i here
      exact here ▸ held
    · exact held
  | futureReady running inside polling =>
    rename_i name
    refine started.running running rfl rfl rfl fun name' held => ?_
    rw [slot_update] at held
    split at held
    · rename_i here
      refine Or.inl (here ▸ held.resolve_right fun live => ?_)
      rw [complete_live] at live
      cases live
    · exact held
  | stopped running inside ready =>
    rename_i name
    refine started.running running rfl rfl rfl fun name' held => ?_
    rw [slot_update] at held
    split at held
    · rename_i here
      exact here ▸ held
    · exact held
  | machine running taken proper => exact started.running running rfl rfl rfl fun _ held => held

-- The action that a context's code begins to run with.
inductive Enters : Action → Context → Prop where
  | polled (name : Ident) : Enters (.polled name) (.softwareTask name)
  | idle : Enters (.machine (.called .idle)) .idle
  | hardware (name : Ident) : Enters (.machine (.called (.hardware name))) (.hardwareTask name)

-- What a step does at start-up: an executor is used only after its pointer has been stored, a task runs only
-- after what it lists has been initialized, nothing is initialized twice, and a write of post_init falls on a
-- static that someone already has a reference to exactly if init spawned a task with such a reference.
structure StartsUp (app : App) (generated : Generated) (evs : List Action) (s : World Reg) (a : Action) : Prop where
  stored : ∀ name, a = .allocated name ∨ a = .wrote name ∨ a = .pended name ∨ a = .polled name → name ∈ s.placed
  initialized : ∀ ctxt, Enters a ctxt → ∀ args, ctxt.args app = some args →
    ∀ static ∈ lateResources args, static ∈ s.written
  once : ∀ static, a = .wroteLate static → static ∉ s.written
  overwrites : ∀ static, a = .wroteLate static →
    ((∃ b ∈ s.borrows generated, b.place = static) ↔
      ∃ name, .wrote name ∈ evs ∧ ∃ b ∈ generated.borrows (.softwareTask name), b.place = static)

theorem StartedUp.stored {core : Export.State Handler Task Ident Reg} (started : StartedUp core generated evs s)
    (begun : s.begun = true) {name : Ident} (known : name ∈ generated.main.executors.map Prod.fst) : name ∈ s.placed := by
  have placed := started.placed
  have all : s.phase.toPlace = [] := by
    cases phase : s.phase with
    | executors left => simp [World.begun,phase] at begun
    | init | postInit | running => rfl
  rw [all,List.append_nil] at placed
  rw [← placed] at known
  exact List.mem_reverse.mp known

theorem userCode_begun (user : s.UserCode) : s.begun = true := by
  unfold World.begun
  rcases user with init | ⟨running,_⟩
  · rw [init]
  · rw [running]

theorem StartedUp.all_written {core : Export.State Handler Task Ident Reg} (started : StartedUp core generated evs s)
    (running : s.phase = .running) {static : Static} : static ∈ s.written ↔ static ∈ generated.main.lateWrites := by
  have written := started.written
  rw [running] at written
  rw [← written]
  simp [Phase.toWrite]

-- Before the interrupts are enabled the only contexts are that of init and those in the futures that it spawned.
theorem StartedUp.holders (started : StartedUp (Export.initial backend prog) generated evs s) {left : List Static}
    (phase : s.phase = .postInit left) {b : Borrow Static} :
    b ∈ s.borrows generated ↔ b ∈ generated.borrows .init ∨
      ∃ name, .wrote name ∈ evs ∧ b ∈ generated.borrows (.softwareTask name) := by
  have early : s.phase ≠ .running := by simp [phase]
  have allocated := started.allocated (by simp [phase]) early
  have live := started.live early
  have none_ : (generated.main.executors.map Prod.fst).filter (fun name => (s.slot name).allocated) = [] :=
    List.filter_eq_nil_iff.mpr fun name _ => by simp [allocated name]
  have begun : s.begun = true := by simp [World.begun,phase]
  unfold World.borrows World.holders
  rw [started.core early,none_,begun]
  simp only [Export.initial,List.flatMap_cons,List.flatMap_nil,frameLocks,frameContext,List.filterMap_cons,List.filterMap_nil,
    List.map_nil,List.append_nil,if_true,List.mem_flatMap,List.mem_append,List.mem_map,List.mem_filter,List.mem_singleton]
  constructor
  · rintro ⟨ctxt,rfl | ⟨name,⟨_,held⟩,rfl⟩,member⟩
    · exact Or.inl member
    · exact Or.inr ⟨name,(live name).mp held,member⟩
  · rintro (member | ⟨name,wrote,member⟩)
    · exact ⟨.init,Or.inl rfl,member⟩
    · have held := (live name).mpr wrote
      exact ⟨_,Or.inr ⟨name,⟨by simpa using started.known name (Or.inr held),held⟩,rfl⟩,member⟩
end

section
variable {Reg : Type} {app : App} {analysis : CodegenAnalysis} {generated : Generated} {backend : Backend Reg}
  {prog : Program Handler Task Ident} {s t : World Reg} {a : Action} {evs : List Action} {target : Target}
  {backendArgs : Option RiscvSlic.BackendArgs}

-- init has no references to what post_init writes.
theorem init_apart (made : codegen target backendArgs app analysis = some generated)
    (declared : ∀ entry ∈ app.init.localResources, isExternal entry = false) {b : Borrow Static}
    (member : b ∈ generated.borrows .init) {static : Static} (late : static ∈ generated.main.lateWrites) :
    b.place ≠ static := by
  obtain ⟨args,found,origin⟩ := generated_origin made member
  cases found
  unfold Main.lateWrites at late
  cases origin with
  | external listed =>
    have kind := declared _ listed
    cases kind
  | declared listed =>
    rintro rfl
    rcases List.mem_append.mp late with own | own <;> obtain ⟨_,_,same⟩ := List.mem_map.mp own <;> cases same
  | shared listed => cases listed

theorem lateWrites_nodup (parsed : app.Parsed) (made : main target backendArgs app analysis = some generated.main) :
    generated.main.lateWrites.Nodup := by
  obtain ⟨extra,_,rest⟩ := Option.bind_eq_some_iff.mp made
  obtain ⟨executors,_,built⟩ := Option.bind_eq_some_iff.mp rest
  unfold Main.lateWrites
  rw [← Option.some.inj built]
  refine List.nodup_append.mpr ⟨?_,?_,?_⟩
  · exact (parsed.shared.filter _).map fun _ _ same => Static.shared.inj same
  · exact (parsed.local_.filter _).map fun _ _ same => Static.local_.inj same
  · rintro a first b second rfl
    obtain ⟨_,_,rfl⟩ := List.mem_map.mp first
    obtain ⟨_,_,same⟩ := List.mem_map.mp second
    cases same

theorem step_startsUp (parsed : app.Parsed) (checked : Check.app app = .ok ()) (exclusive : ExclusiveUse app)
    (analyzed : Syntax.Analyze.app app = .ok analysis.parent)
    (declared : ∀ entry ∈ app.init.localResources, isExternal entry = false)
    (made : codegen target backendArgs app analysis = some generated)
    (started : StartedUp (Export.initial backend prog) generated evs s) (taken : Step backend prog generated s a t)
    (lives : PollsLive evs s a t) : StartsUp app generated evs s a := by
  have mainMade := (codegen_parts made).1
  have initialized : s.phase = .running → ∀ ctxt args, Context.args app ctxt = some args →
      ∀ static ∈ lateResources args, static ∈ s.written := by
    intro running ctxt args found static listed
    rw [started.all_written running,mem_lateWrites parsed checked exclusive analyzed mainMade]
    exact ⟨ctxt,args,found,listed⟩
  constructor
  case stored =>
    rintro name (rfl | rfl | rfl | rfl)
    · cases taken with
      | allocated user known => exact started.stored (userCode_begun user) known
    · cases taken with
      | wrote user allocated => exact started.stored (userCode_begun user) (started.known name (Or.inl allocated))
    · cases taken with
      | pended user known => exact started.stored (userCode_begun user) known
    · cases taken with
      | polled running between called on set =>
        exact started.stored (by simp [World.begun,running]) (started.known name (Or.inr (lives name rfl)))
  case initialized =>
    intro ctxt enters args found static listed
    cases enters with
    | polled name =>
      cases taken with
      | polled running => exact initialized running _ _ found static listed
    | idle =>
      cases taken with
      | machine running => exact initialized running _ _ found static listed
    | hardware name =>
      cases taken with
      | machine running => exact initialized running _ _ found static listed
  case once =>
    rintro static rfl
    cases taken with
    | wroteLate phase =>
      have written := started.written
      have distinct := lateWrites_nodup parsed mainMade
      rw [phase] at written
      rw [← written] at distinct
      intro before
      have apart := (List.nodup_append.mp distinct).2.2
      exact apart static (List.mem_reverse.mpr before) static List.mem_cons_self rfl
  case overwrites =>
    rintro static rfl
    cases taken with
    | wroteLate phase =>
      have written := started.written
      rw [phase] at written
      have late : static ∈ generated.main.lateWrites := by
        rw [← written]
        exact List.mem_append_right _ List.mem_cons_self
      simp only [started.holders phase]
      constructor
      · rintro ⟨b,member | ⟨name,wrote,member⟩,place⟩
        · exact absurd place (init_apart made declared member late)
        · exact ⟨name,wrote,b,member,place⟩
      · rintro ⟨name,wrote,b,member,place⟩
        exact ⟨b,Or.inr ⟨name,wrote,member⟩,place⟩

section
variable (parsed : app.Parsed) (keyed : app.Keyed) (checked : Check.app app = .ok ())
  (analyzed : Syntax.Analyze.app app = .ok analysis.parent)
  (made : codegen target backendArgs app analysis = some generated)
include parsed keyed checked analyzed made

theorem run_startsUp (declared : ∀ entry ∈ app.init.localResources, isExternal entry = false)
    (run : Execution backend prog generated s) (lives : run.Every PollsLive) :
    run.Every fun evs s a _ => StartsUp app generated evs s a := by
  have exclusive := (Syntax.Analyze.accepted_iff parsed.names keyed).mp ⟨_,analyzed⟩
  exact run.every_of (StartedUp (Export.initial backend prog) generated) initial_startedUp step_startedUp
    (step_startsUp parsed checked exclusive analyzed declared made) lives

theorem run_written (run : Execution backend prog generated s) (lives : run.Every PollsLive) :
    run.Through fun _ s => s.phase = .running → ∀ static, static ∈ s.written ↔
      ∃ ctxt args, Context.args app ctxt = some args ∧ static ∈ lateResources args := by
  have exclusive := (Syntax.Analyze.accepted_iff parsed.names keyed).mp ⟨_,analyzed⟩
  refine run.through_of (StartedUp (Export.initial backend prog) generated) initial_startedUp step_startedUp ?_ lives
  intro evs s started running static
  rw [started.all_written running,mem_lateWrites parsed checked exclusive analyzed (codegen_parts made).1]
end

-- Every run from reset in which the future polled is always live, on whichever backend.
theorem start_up (parsed : app.Parsed) (keyed : app.Keyed) (checked : Check.app app = .ok ())
    (analyzed : Syntax.Analyze.app app = .ok analysis.parent)
    (declared : ∀ entry ∈ app.init.localResources, isExternal entry = false)
    (made : codegen target backendArgs app analysis = some generated) (run : Execution backend prog generated s)
    (lives : run.Every PollsLive) : (run.Every fun evs s a _ => StartsUp app generated evs s a) ∧
    run.Through fun _ s => s.phase = .running → ∀ static, static ∈ s.written ↔
      ∃ ctxt args, Context.args app ctxt = some args ∧ static ∈ lateResources args :=
  ⟨run_startsUp parsed keyed checked analyzed made declared run lives,
    run_written parsed keyed checked analyzed made run lives⟩

theorem start_up_demo : (demoRun.Every fun evs s a _ => StartsUp demo demoGenerated evs s a) ∧
    demoRun.Through fun _ s => s.phase = .running → ∀ static, static ∈ s.written ↔
      ∃ ctxt args, Context.args demo ctxt = some args ∧ static ∈ lateResources args :=
  start_up demo_accepted.parsed (by constructor <;> decide) demo_accepted.checked
    (show Syntax.Analyze.app demo = .ok demoResult.parent from demo_accepted.analyzed) (by decide)
    (show codegen .cortexBasepri none demo demoResult = some demoGenerated from rfl) demoRun demo_lives
end

end Rtic.Codegen
