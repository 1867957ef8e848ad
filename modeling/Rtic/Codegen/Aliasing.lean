import Rtic.Codegen.References
namespace Rtic.Codegen
open Ordered Syntax Borrows Export Transition
open Executor (AsyncTaskExecutor)
open Syntax.Analyze (Context Args Static ExclusiveUse Analysis)

-- The `running` flag is set from a successful `try_allocate` until the poll that completes the future.
structure Slot.Sound (slot : Slot) : Prop where
  running : slot.allocated = true ∨ slot.live = true ∨ slot.poll ≠ .idle → slot.exec.running = true
  fresh : slot.allocated = true → slot.live = false ∧ slot.poll = .idle
  ready : slot.poll = .ready → slot.live = false

section
variable {Reg : Type} {app : App} {analysis : CodegenAnalysis} {generated : Generated} {backend : Backend Reg}
  {denotes : Reg → Nat → Prop} {raiseOnly : Prop} {fits : Nat → Prop} {enabled : List Vector}
  {s t : World Reg} {a : Action}

-- What is locked, or about to be, is a resource that some task locks, and a frame locks it once.
structure LocksSound (app : App) (f : Export.Frame Handler Task Ident Reg) : Prop where
  locked : ∀ r ∈ f.held.map Held.resource, ∃ task, Locks app task r
  once : (f.held.map Held.resource).Nodup
  raising : ∀ r current, f.point = .raising r current → (∃ task, Locks app task r) ∧ r ∉ f.held.map Held.resource

structure Orderly (app : App) (program : Program Handler Task Ident) (denotes : Reg → Nat → Prop) (sectionCeiling : Nat)
    (s : World Reg) : Prop where
  core : Sound program denotes sectionCeiling s.core
  locks : ∀ f ∈ s.core.stack, LocksSound app f
  slots : ∀ name, (s.slot name).Sound

theorem slot_update (s : World Reg) (name other : Ident) (slot : Slot) :
    (s.update name slot).slot other = if other = name then slot else s.slot other := by
  unfold World.update
  by_cases same : other = name
  · subst same
    simp
  · simp [same]

@[simp] theorem update_core (s : World Reg) (name : Ident) (slot : Slot) : (s.update name slot).core = s.core := rfl
@[simp] theorem update_phase (s : World Reg) (name : Ident) (slot : Slot) : (s.update name slot).phase = s.phase := rfl
@[simp] theorem update_placed (s : World Reg) (name : Ident) (slot : Slot) : (s.update name slot).placed = s.placed := rfl
@[simp] theorem update_written (s : World Reg) (name : Ident) (slot : Slot) : (s.update name slot).written = s.written := rfl

theorem slots_update {slot : Slot} (sound : ∀ name, (s.slot name).Sound) {name : Ident} (own : slot.Sound) :
    ∀ other, ((s.update name slot).slot other).Sound := by
  intro other
  rw [slot_update]
  split
  · exact own
  · exact sound other

-- One step of the machine, as the generated code takes it, keeps what is known of the locks.
theorem machine_locks {program : Program Handler Task Ident} (known : program.locks = Locks app)
    {core core' : Export.State Handler Task Ident Reg} {event : Export.Event Handler Task Ident}
    (sound : ∀ f ∈ core.stack, LocksSound app f) (taken : Export.Step backend program core event core')
    (fresh : ∀ r, event = .reading r ∨ event = .disabled r → ∀ top ∈ core.stack.head?, r ∉ top.held.map Held.resource) :
    ∀ f ∈ core'.stack, LocksSound app f := by
  have below : ∀ {top top' : Export.Frame Handler Task Ident Reg} {rest}, core.stack = top::rest → LocksSound app top' →
      ∀ f ∈ top'::rest, LocksSound app f := by
    intro top top' rest running own f member
    rcases List.mem_cons.mp member with rfl | member
    · exact own
    · exact sound f (by rw [running]; exact List.mem_cons_of_mem _ member)
  have own : ∀ {top : Export.Frame Handler Task Ident Reg} {rest}, core.stack = top::rest → LocksSound app top :=
    fun running => sound _ (by rw [running]; exact List.mem_cons_self)
  cases taken with
  | preempted running interrupt above enabled delivered =>
    intro f member
    rcases List.mem_cons.mp member with rfl | member
    · exact ⟨by simp,by simp,by simp⟩
    · exact sound f member
  | began running point => exact below running ⟨(own running).locked,(own running).once,by simp⟩
  | called running point free mine =>
    exact below running ⟨(own running).locked,(own running).once,(own running).raising⟩
  | disabled running point task mine highest =>
    rename_i top rest task' r
    have absent := fresh r (Or.inr rfl) top (by rw [running]; rfl)
    have frame := own running
    refine below running ⟨?_,?_,?_⟩
    · intro q member
      rcases List.mem_cons.mp member with rfl | member
      · exact ⟨task',known ▸ mine⟩
      · exact frame.locked q member
    · exact List.nodup_cons.mpr ⟨absent,frame.once⟩
    · intro q current raising
      rw [point] at raising
      cases raising
  | reading running point task mine lower =>
    rename_i top rest task' r
    have absent := fresh r (Or.inl rfl) top (by rw [running]; rfl)
    refine below running ⟨(own running).locked,(own running).once,?_⟩
    intro q current raising
    cases raising
    exact ⟨⟨task',known ▸ mine⟩,absent⟩
  | raised running point written =>
    have frame := own running
    obtain ⟨locked,absent⟩ := frame.raising _ _ point
    refine below running ⟨?_,List.nodup_cons.mpr ⟨absent,frame.once⟩,by simp⟩
    intro q member
    rcases List.mem_cons.mp member with rfl | member
    · exact locked
    · exact frame.locked q member
  | unlocked running point inner =>
    have frame := own running
    have locked := frame.locked
    have once := frame.once
    rw [inner] at locked once
    refine below running ⟨fun q member => locked q (List.mem_cons_of_mem _ member),(List.nodup_cons.mp once).2,?_⟩
    intro q current raising
    rw [point] at raising
    cases raising
  | finished running handler point free =>
    exact below running ⟨(own running).locked,(own running).once,by simp⟩
  | returned running point => exact fun f member => sound f (by rw [running]; exact List.mem_cons_of_mem _ member)

theorem initial_orderly (encodes : Encodes backend denotes raiseOnly fits) :
    Orderly app (program app analysis.parent enabled) denotes backend.sectionCeiling
      (reset backend (program app analysis.parent enabled) generated) := by
  refine ⟨initial_sound encodes,?_,fun name => ?_⟩
  · intro f member
    cases List.mem_singleton.mp member
    exact ⟨by simp,by simp,by simp⟩
  · exact ⟨by simp [reset,Slot.live,AsyncTaskExecutor.new],by simp [reset],by simp [reset]⟩

-- Nested locks have rising ceilings that fit, where the backend needs it.
def Rising (fits : Nat → Prop) (program : Program Handler Task Ident) (_ : List Action) (s : World Reg) (a : Action)
    (t : World Reg) : Prop :=
  ∀ event, a = .machine event → Nondecreasing fits program [] s.core event t.core

theorem complete_live (slot : Slot) : ({slot with exec := slot.exec.complete,poll := .ready} : Slot).live = false := by
  unfold Slot.live
  split
  · rename_i spawn found
    exact absurd found (AsyncTaskExecutor.complete_not_future _ spawn)
  · rfl

theorem step_orderly (encodes : Encodes backend denotes raiseOnly fits)
    (covered : (program app analysis.parent enabled).Covered)
    (orderly : Orderly app (program app analysis.parent enabled) denotes backend.sectionCeiling s)
    (taken : Step backend (program app analysis.parent enabled) generated s a t) (lives : PollsLive [] s a t)
    (admitted : raiseOnly ∨ Rising fits (program app analysis.parent enabled) [] s a t) :
    Orderly app (program app analysis.parent enabled) denotes backend.sectionCeiling t := by
  obtain ⟨core,locks,slots⟩ := orderly
  cases taken with
  | placed phase => exact ⟨core,locks,slots⟩
  | initCalled phase => exact ⟨core,locks,slots⟩
  | initReturned phase returned => exact ⟨core,locks,slots⟩
  | wroteLate phase => exact ⟨core,locks,slots⟩
  | enabled phase => exact ⟨core,locks,slots⟩
  | allocated user known free =>
    rename_i name exec
    obtain ⟨stopped,rfl⟩ := AsyncTaskExecutor.tryAllocate_true free
    have own := slots name
    have off : ¬((s.slot name).allocated = true ∨ (s.slot name).live = true ∨ (s.slot name).poll ≠ .idle) := by
      intro some_
      rw [own.running some_] at stopped
      cases stopped
    simp only [not_or,Bool.not_eq_true,ne_eq,not_not] at off
    refine ⟨core,locks,slots_update slots ⟨fun _ => rfl,fun _ => ⟨off.2.1,off.2.2⟩,?_⟩⟩
    exact fun ready => own.ready ready
  | wrote user allocated =>
    rename_i name
    have own := slots name
    have idle := (own.fresh allocated).2
    refine ⟨core,locks,slots_update slots ⟨fun _ => own.running (Or.inl allocated),by simp,?_⟩⟩
    intro ready
    have ready : (s.slot name).poll = .ready := ready
    rw [idle] at ready
    cases ready
  | pended user known => exact ⟨core,locks,slots_update slots ⟨(slots _).running,(slots _).fresh,(slots _).ready⟩⟩
  | polled running between called started set =>
    rename_i name core' exec
    have found := lives name rfl
    obtain ⟨pending,rfl⟩ := AsyncTaskExecutor.checkAndClearPending_true set
    have machine : Sound (program app analysis.parent enabled) denotes backend.sectionCeiling core' := by
      refine step_sound encodes covered core called (Or.inr ?_)
      rintro r top below same
      cases same
    have unlocked : ∀ f ∈ core'.stack, LocksSound app f := by
      refine machine_locks rfl locks called ?_
      rintro r (same | same) <;> cases same
    have own := slots name
    refine ⟨machine,unlocked,slots_update slots ⟨fun _ => started,?_,nofun⟩⟩
    intro allocated
    have live : (s.slot name).live = false := (own.fresh allocated).1
    rw [live] at found
    cases found
  | futurePending running inside polling =>
    rename_i name
    have own := slots name
    refine ⟨core,locks,slots_update slots ⟨?_,?_,nofun⟩⟩
    · exact fun _ => own.running (Or.inr (Or.inr (by simp [polling])))
    · exact fun allocated => ⟨(own.fresh allocated).1,rfl⟩
  | futureReady running inside polling =>
    rename_i name
    have own := slots name
    have started := own.running (Or.inr (Or.inr (by simp [polling])))
    refine ⟨core,locks,slots_update slots ⟨fun _ => by simpa using started,?_,fun _ => complete_live _⟩⟩
    intro allocated
    have idle := (own.fresh allocated).2
    rw [polling] at idle
    cases idle
  | stopped running inside ready =>
    rename_i name
    have own := slots name
    have dead := own.ready ready
    have none_ : (s.slot name).allocated = false := by
      by_contra allocated
      have idle := (own.fresh (by simpa using allocated)).2
      rw [ready] at idle
      cases idle
    refine ⟨core,locks,slots_update slots ⟨?_,?_,nofun⟩⟩
    · rintro (allocated | live | busy)
      · exact absurd allocated (by simp [none_])
      · exact absurd (show (s.slot name).live = true from live) (by simp [dead])
      · exact absurd rfl busy
    · exact fun allocated => absurd allocated (by simp [none_])
  | machine running taken proper =>
    refine ⟨step_sound encodes covered core taken (admitted.imp_right fun rising => rising _ rfl),?_,slots⟩
    refine machine_locks rfl locks taken ?_
    rintro r (rfl | rfl) top first
    · exact (proper top first).1
    · exact (proper top first).1
theorem executes_idle {handler : Handler} (executes : Executes app handler .idle) : app.idle.isSome := by
  cases executes with
  | idle defined => exact defined

theorem executes_hardware {handler : Handler} {name : Ident} (executes : Executes app handler (.hardware name)) :
    handler = .hardware name := by
  cases executes
  rfl

-- A handler on the stack is in a synchronous context only at the level of that context.
theorem frame_args (parsed : app.Parsed) (known : enabled ⊆ vectors app) {sectionCeiling : Nat}
    {f : Export.Frame Handler Task Ident Reg} {below : List (Export.Frame Handler Task Ident Reg)}
    (frame : FrameSound (program app analysis.parent enabled) denotes sectionCeiling f below) {ctxt : Context}
    (own : frameContext f = some ctxt) : ∃ args, ctxt.args app = some args ∧ args.priority = f.priority := by
  unfold frameContext at own
  split at own
  · rename_i task
    cases own
    have runs : Executes app f.handler .idle := frame.runs _ task
    obtain ⟨idle,defined⟩ := Option.isSome_iff_exists.mp (executes_idle runs)
    refine ⟨⟨idle.name,idle.sharedResources,idle.localResources,0⟩,by simp [Context.args,defined],?_⟩
    exact (executes_priority parsed known frame.entered runs (.idle defined)).symm
  · rename_i name task
    cases own
    have runs : Executes app f.handler (.hardware name) := frame.runs _ task
    have handler := executes_hardware runs
    have listed : ∃ task, (name,task) ∈ app.hardwareTasks := by
      rcases frame.entered with ⟨vector,member,at_,_⟩ | ⟨main,_⟩
      · rcases vectors_cases (known member) with level | ⟨name',task',listed,rfl⟩
        · rw [at_,handler] at level
          cases level
        · rw [handler] at at_
          cases at_
          exact ⟨task',listed⟩
      · rw [handler] at main
        cases main
    obtain ⟨task,listed⟩ := listed
    refine ⟨⟨name,task.sharedResources,task.localResources,task.priority⟩,?_,?_⟩
    · simp [Context.args,get?_of_mem (hardware_distinct parsed) listed]
    · exact (executes_priority parsed known frame.entered runs (.hardware listed)).symm
  · cases own

theorem stack_args (parsed : app.Parsed) (known : enabled ⊆ vectors app) {sectionCeiling : Nat}
    {stack : List (Export.Frame Handler Task Ident Reg)}
    (frames : FramesSound (program app analysis.parent enabled) denotes sectionCeiling stack)
    {f : Export.Frame Handler Task Ident Reg} (present : f ∈ stack) {ctxt : Context} (own : frameContext f = some ctxt) :
    ∃ args, ctxt.args app = some args ∧ args.priority = f.priority := by
  induction stack with
  | nil => cases present
  | cons top below ih =>
    rcases List.mem_cons.mp present with rfl | present
    · exact frame_args parsed known frames.1 own
    · exact ih frames.2 present

theorem stack_priorities {program : Program Handler Task Ident} {sectionCeiling : Nat}
    {core : Export.State Handler Task Ident Reg} (sound : Sound program denotes sectionCeiling core) :
    core.stack.Pairwise fun f below => below.priority < f.priority :=
  (List.pairwise_map.mp sound.policy.above).imp And.left

-- Frames of one level are one frame.
theorem level_frame {stack : List (Export.Frame Handler Task Ident Reg)}
    (ordered : stack.Pairwise fun f below => below.priority < f.priority) {f g : Export.Frame Handler Task Ident Reg}
    (first : f ∈ stack) (second : g ∈ stack) (level : f.priority = g.priority) : f = g := by
  induction stack with
  | nil => cases first
  | cons top below ih =>
    obtain ⟨above,rest⟩ := List.pairwise_cons.mp ordered
    rcases List.mem_cons.mp first with rfl | first'
    · rcases List.mem_cons.mp second with rfl | second'
      · rfl
      · have lower := above g second'
        omega
    · rcases List.mem_cons.mp second with rfl | second'
      · have lower := above f first'
        omega
      · exact ih rest first' second'

section
variable (parsed : app.Parsed) (known : enabled ⊆ vectors app) {sectionCeiling : Nat}
  (orderly : Orderly app (program app analysis.parent enabled) denotes sectionCeiling s)
include parsed known orderly

theorem frames_distinct : (s.core.stack.filterMap frameContext).Nodup := by
  have ordered := stack_priorities orderly.core
  refine List.pairwise_filterMap.mpr (ordered.imp_of_mem fun {f g} first second lower => ?_)
  rintro ctxt own other own' rfl
  obtain ⟨args,found,level⟩ := stack_args parsed known orderly.core.frames first own
  obtain ⟨args',found',level'⟩ := stack_args parsed known orderly.core.frames second own'
  rw [found] at found'
  cases found'
  omega

theorem holders_distinct (executors : generated.main.executors.map Prod.fst = app.softwareTasks.map Prod.fst) :
    (s.holders generated).Nodup := by
  have names : (generated.main.executors.map Prod.fst).Nodup := executors ▸ software_distinct parsed
  have software : ∀ (held : Ident → Bool),
      (((generated.main.executors.map Prod.fst).filter held).map Context.softwareTask).Nodup :=
    fun held => (names.filter held).map fun _ _ same => Context.softwareTask.inj same
  have sync : ∀ ctxt ∈ s.core.stack.filterMap frameContext, ctxt ≠ .init ∧ ∀ name, ctxt ≠ .softwareTask name := by
    intro ctxt member
    obtain ⟨f,_,own⟩ := List.mem_filterMap.mp member
    unfold frameContext at own
    split at own
    · cases own
      exact ⟨nofun,nofun⟩
    · cases own
      exact ⟨nofun,nofun⟩
    · cases own
  unfold World.holders
  refine List.nodup_append.mpr ⟨List.nodup_append.mpr ⟨List.nodup_append.mpr ⟨?_,software _,?_⟩,software _,?_⟩,
    frames_distinct parsed known orderly,?_⟩
  · split <;> simp
  · rintro a first b second rfl
    obtain ⟨name,_,rfl⟩ := List.mem_map.mp second
    split at first <;> simp at first
  · rintro a first b second rfl
    obtain ⟨name,live,rfl⟩ := List.mem_map.mp second
    rcases List.mem_append.mp first with begun | allocated
    · split at begun <;> simp at begun
    · obtain ⟨name',reserved,same⟩ := List.mem_map.mp allocated
      cases same
      have fresh := (orderly.slots name).fresh (List.mem_filter.mp reserved).2
      rw [(List.mem_filter.mp live).2] at fresh
      cases fresh.1
  · rintro a first b second rfl
    obtain ⟨apart,apart'⟩ := sync a second
    rcases List.mem_append.mp first with first | live
    · rcases List.mem_append.mp first with begun | allocated
      · split at begun
        · exact apart (List.mem_singleton.mp begun)
        · cases begun
      · obtain ⟨name,_,same⟩ := List.mem_map.mp allocated
        exact apart' name same.symm
    · obtain ⟨name,_,same⟩ := List.mem_map.mp live
      exact apart' name same.symm

-- Who shares a lock-free resource is a handler on the stack.
theorem sharer_frame (exclusive : ExclusiveUse app) {ctxt : Context} (holds : ctxt ∈ s.holders generated) {args : Args}
    (found : ctxt.args app = some args) {name : Ident} {resource : SharedResource}
    (declared : get? app.sharedResources name = some resource) (free : resource.lockFree = true)
    (listed : name ∈ args.sharedResources.map Prod.fst) :
    ∃ f ∈ s.core.stack, frameContext f = some ctxt ∧ f.priority = args.priority := by
  have software : ∀ task, ctxt ≠ .softwareTask task := by
    rintro task rfl
    obtain ⟨own,member,rfl⟩ := Option.map_eq_some_iff.mp found
    exact exclusive.notAsync _ (mem_of_get? declared) free _ (mem_of_get? member) listed
  have task : ctxt ≠ .init := by
    rintro rfl
    cases found
    cases listed
  unfold World.holders at holds
  simp only [List.mem_append] at holds
  rcases holds with ((begun | allocated) | live) | frame
  · split at begun
    · exact absurd (List.mem_singleton.mp begun) task
    · cases begun
  · obtain ⟨name,_,same⟩ := List.mem_map.mp allocated
    exact absurd same.symm (software name)
  · obtain ⟨name,_,same⟩ := List.mem_map.mp live
    exact absurd same.symm (software name)
  · obtain ⟨f,present,own⟩ := List.mem_filterMap.mp frame
    obtain ⟨args',found',level⟩ := stack_args parsed known orderly.core.frames present own
    rw [found] at found'
    cases found'
    exact ⟨f,present,own,level.symm⟩

variable {target : Target} {backendArgs : Option RiscvSlic.BackendArgs}
  (made : codegen target backendArgs app analysis = some generated)
include made

theorem holders_apart (exclusive : ExclusiveUse app) (checked : Check.app app = .ok ()) {g h : Context}
    (first : g ∈ s.holders generated) (second : h ∈ s.holders generated) (differ : g ≠ h) :
    Apart (generated.borrows g) (generated.borrows h) := by
  intro a here b there
  obtain ⟨args,found,origin⟩ := generated_origin made here
  obtain ⟨args',found',origin'⟩ := generated_origin made there
  rcases contexts_apart exclusive parsed checked found found' differ origin origin' with
    compatible | ⟨level,name,resource,declared,free,listed,listed'⟩
  · exact compatible
  · obtain ⟨f,present,own,at_⟩ := sharer_frame parsed known orderly exclusive first found declared free listed
    obtain ⟨f',present',own',at_'⟩ := sharer_frame parsed known orderly exclusive second found' declared free listed'
    have same := level_frame (stack_priorities orderly.core) present present' (by omega)
    subst same
    rw [own] at own'
    cases own'
    exact absurd rfl differ

-- The resources that are locked, frame by frame.
omit parsed known made in
theorem locks_separate : Separate (s.core.stack.flatMap frameLocks) := by
  refine List.pairwise_flatMap.mpr ⟨fun f present => ?_,?_⟩
  · refine separate_of_nodup ?_
    have names : (frameLocks f).map Borrow.place = (f.held.map Held.resource).map Static.shared := by
      simp [frameLocks,Function.comp_def]
    rw [names]
    exact (orderly.locks f present).once.map fun _ _ same => Static.shared.inj same
  · refine (List.pairwise_map.mp orderly.core.policy.exclusive).imp fun exclusive a first b second => .of_ne fun same => ?_
    obtain ⟨lock,held,rfl⟩ := List.mem_map.mp first
    obtain ⟨lock',held',rfl⟩ := List.mem_map.mp second
    refine exclusive lock.resource (List.mem_map_of_mem held) ?_
    rw [Static.shared.inj same]
    exact List.mem_map_of_mem held'

omit parsed known in
theorem contexts_locks (checked : Check.app app = .ok ()) :
    Apart ((s.holders generated).flatMap generated.borrows) (s.core.stack.flatMap frameLocks) := by
  intro a first b second
  obtain ⟨ctxt,_,here⟩ := List.mem_flatMap.mp first
  obtain ⟨f,present,there⟩ := List.mem_flatMap.mp second
  obtain ⟨args,found,origin⟩ := generated_origin made here
  obtain ⟨lock,held,rfl⟩ := List.mem_map.mp there
  obtain ⟨task,locks⟩ := (orderly.locks f present).locked _ (List.mem_map_of_mem held)
  exact .of_ne (locked_apart checked found origin locks)

-- References that exist at one time are to different statics, or they are all `&`.
theorem orderly_separate (exclusive : ExclusiveUse app) (keyed : app.Keyed) (checked : Check.app app = .ok ()) :
    Separate (s.borrows generated) := by
  have executors := main_executors (codegen_parts made).1
  refine separate_append.mpr ⟨?_,locks_separate orderly,contexts_locks orderly made checked⟩
  refine separate_flatMap (holders_distinct parsed known orderly executors) (fun ctxt _ => generated_separate made keyed) ?_
  exact fun g first h second differ => holders_apart parsed known orderly made exclusive checked first second differ
end
end

theorem analyze_parent {app : App} {analysis : Analysis} {result : CodegenAnalysis} (made : analyze analysis app = some result) :
    result.parent = analysis := by
  unfold analyze at made
  split at made
  · cases made
  · obtain ⟨_,_,rest⟩ := Option.bind_eq_some_iff.mp made
    obtain ⟨_,_,built⟩ := Option.bind_eq_some_iff.mp rest
    cases built
    rfl

-- For any backend that masks priorities: what holds of the locks holds of all references.
theorem run_separate {Reg : Type} {app : App} {analysis : CodegenAnalysis} {generated : Generated} {backend : Backend Reg}
    {denotes : Reg → Nat → Prop} {raiseOnly : Prop} {fits : Nat → Prop} {enabled : List Vector} {target : Target}
    {backendArgs : Option RiscvSlic.BackendArgs} {s : World Reg}
    (encodes : Encodes backend denotes raiseOnly fits) (parsed : app.Parsed) (keyed : app.Keyed) (checked : Check.app app = .ok ())
    (analyzed : Syntax.Analyze.app app = .ok analysis.parent) (known : enabled ⊆ vectors app)
    (made : codegen target backendArgs app analysis = some generated)
    (run : Execution backend (program app analysis.parent enabled) generated s) (lives : run.Every PollsLive)
    (admitted : run.Every fun evs s a t => raiseOnly ∨ Rising fits (program app analysis.parent enabled) evs s a t) :
    run.Through fun _ s => Separate (s.borrows generated) := by
  have exclusive := (Syntax.Analyze.accepted_iff parsed.names keyed).mp ⟨_,analyzed⟩
  have covered := program_covered parsed analyzed known
  refine run.through_of (fun _ s => Orderly app (program app analysis.parent enabled) denotes backend.sectionCeiling s)
    (initial_orderly encodes) (fun orderly taken both => step_orderly encodes covered orderly taken both.1 both.2) ?_
    (lives.and admitted)
  exact fun orderly => orderly_separate parsed known orderly made exclusive keyed checked

-- In every run from reset in which the future polled is always live no `&mut` to a static of the application
-- exists next to another reference to it.
theorem cortex_references_separate {bits : Nat} {app : App} {analysis : Analysis} {result : CodegenAnalysis}
    {generated : Generated} (accepted : CortexBasepri.Accepted bits app analysis) (keyed : app.Keyed)
    (assigned : analyze analysis app = some result) (made : codegen .cortexBasepri none app result = some generated)
    {s : World Nat} (run : Execution (CortexBasepri.backend bits) (CortexBasepri.generated app analysis) generated s)
    (lives : run.Every PollsLive) : run.Through fun _ s => Separate (s.borrows generated) := by
  cases analyze_parent assigned
  exact run_separate (CortexBasepri.encodes bits) accepted.parsed keyed accepted.checked accepted.analyzed
    (CortexBasepri.enabled_known app) made run lives (run.every_true.imp fun _ => Or.inl True.intro)

-- A software task that init spawns, and a hardware task above it that shares a resource with it.
def demo : App :=
  ⟨["SSI0"],⟨"init",[("queue",.declared "Queue")]⟩,none,[("total",⟨"u32",false⟩),("flag",⟨"bool",true⟩)],[("led",⟨"Led"⟩)],
    [("tick",⟨"SysTick",3,[],[("total",.exclusive),("flag",.exclusive)]⟩)],
    [("sample",⟨2,[("led",.external)],[("total",.exclusive)],false,["u8"]⟩)]⟩

def demoAnalysis : Analysis :=
  ⟨[(2,["sample"])],["total","flag"],["queue","led"],[("total",.contended 3),("flag",.owned 3)],["u32","bool","u8"],[]⟩

def demoResult : CodegenAnalysis := ⟨demoAnalysis,[(2,"SSI0")],some 2⟩
def demoGenerated : Generated := (codegen .cortexBasepri none demo demoResult).get (by decide)
theorem demo_accepted : CortexBasepri.Accepted 3 demo demoAnalysis :=
  ⟨⟨by decide,by decide,by decide,by decide,by decide,by decide⟩,by decide,by decide,by decide,by decide,by decide⟩
abbrev DemoRun := Execution (CortexBasepri.backend 3) (CortexBasepri.generated demo demoAnalysis) demoGenerated

-- init spawns sample, which is polled once the interrupts are enabled; tick preempts it while it holds nothing.
def demoStart :=
  (((((((((((Transition.Run.start : DemoRun _).snoc
    (.placed "sample") (.placed rfl)).snoc
    .initCalled (.initCalled rfl)).snoc
    (.allocated "sample") (.allocated (Or.inl rfl) (by decide) rfl)).snoc
    (.wrote "sample") (.wrote (Or.inl rfl) rfl)).snoc
    (.pended "sample") (.pended (Or.inl rfl) (by decide))).snoc
    .initReturned (.initReturned rfl (fun name => by simp only [slot_update]; split <;> rfl))).snoc
    (.wroteLate (.shared "total")) (.wroteLate rfl)).snoc
    (.wroteLate (.shared "flag")) (.wroteLate rfl)).snoc
    (.wroteLate (.local_ "led")) (.wroteLate rfl)).snoc
    .enabled (.enabled rfl))

theorem demo_tick : (CortexBasepri.generated demo demoAnalysis).interrupt (.hardware "tick") 3 :=
  ⟨⟨3,"SysTick",.hardware "tick"⟩,by decide,rfl,rfl⟩
theorem demo_dispatcher : (CortexBasepri.generated demo demoAnalysis).interrupt (.dispatcher 2) 2 :=
  ⟨⟨2,"SSI0",.dispatcher 2⟩,by decide,rfl,rfl⟩
theorem demo_tick_locks : (CortexBasepri.generated demo demoAnalysis).locks (.hardware "tick") "total" :=
  ⟨_,_,⟨"u32",false⟩,.hardware List.mem_cons_self,by decide,by decide,rfl⟩

def demoRun :=
  ((((((((demoStart.snoc
    (.machine (.preempted (.dispatcher 2) 2)) (.machine rfl (.preempted rfl demo_dispatcher (by decide) rfl rfl) True.intro)).snoc
    (.machine .began) (.machine rfl (.began rfl rfl) True.intro)).snoc
    (.polled "sample") (.polled rfl (by rintro top ⟨⟩ name ⟨⟩) (.called rfl rfl rfl (.software List.mem_cons_self rfl)) rfl rfl)).snoc
    (.machine (.preempted (.hardware "tick") 3)) (.machine rfl (.preempted rfl demo_tick (by decide) rfl rfl) True.intro)).snoc
    (.machine .began) (.machine rfl (.began rfl rfl) True.intro)).snoc
    (.machine (.called (.hardware "tick"))) (.machine rfl (.called rfl rfl rfl (.hardware "tick")) (by rintro top ⟨⟩; rfl))).snoc
    (.machine (.reading "total")) (.machine rfl (.reading rfl rfl rfl demo_tick_locks (by decide))
      (by rintro top ⟨⟩; exact ⟨nofun,nofun⟩))).snoc
    (.machine (.raised "total")) (.machine rfl (.raised rfl rfl rfl) True.intro))

-- The future of sample has been written when it is polled.
theorem demo_lives : demoRun.Every PollsLive := by
  simp only [demoRun,demoStart,Run.every_snoc,Run.every_start,PollsLive]
  simp
  rfl

theorem demo_separate : demoRun.Through fun _ s => Separate (s.borrows demoGenerated) :=
  cortex_references_separate demo_accepted (by constructor <;> decide) (show analyze demoAnalysis demo = some demoResult by decide)
    rfl demoRun demo_lives

-- On the ESP32 the same, as long as no lock is nested inside one with a higher ceiling and no ceiling wraps.
theorem esp32_references_separate {overflowChecks : Bool} {chip : Esp32.Chip} {app : App} {analysis : Analysis} {result : CodegenAnalysis}
    {generated : Generated} (accepted : Esp32.Accepted chip app analysis) (keyed : app.Keyed)
    (assigned : analyze analysis app = some result) (made : codegen (.esp32 chip) none app result = some generated)
    {s : World Nat} (run : Execution (Esp32.backend overflowChecks) (Esp32.generated chip app analysis) generated s)
    (lives : run.Every PollsLive) (rising : run.Every (Rising Esp32.Fits (Esp32.generated chip app analysis))) :
    run.Through fun _ s => Separate (s.borrows generated) := by
  cases analyze_parent assigned
  exact run_separate (Esp32.encodes overflowChecks) accepted.parsed keyed accepted.checked accepted.analyzed
    (Esp32.enabled_known chip app) made run lives (rising.imp Or.inr)

def nestedResult : CodegenAnalysis := ⟨Esp32.nestedAnalysis,[],some 0⟩
def nestedGenerated : Generated := (codegen (.esp32 .c3) none Esp32.nested nestedResult).get (by decide)

-- The low task locks a inside b.
def nestedRun :=
  ((((((((((((Transition.Run.start : Execution (Esp32.backend false) (Esp32.generated .c3 Esp32.nested Esp32.nestedAnalysis)
      nestedGenerated _).snoc
    .initCalled (.initCalled rfl)).snoc
    .initReturned (.initReturned rfl fun _ => rfl)).snoc
    (.wroteLate (.shared "a")) (.wroteLate rfl)).snoc
    (.wroteLate (.shared "b")) (.wroteLate rfl)).snoc
    .enabled (.enabled rfl)).snoc
    (.machine (.preempted (.hardware "low") 1))
      (.machine rfl (.preempted rfl Esp32.low_interrupt (by decide) rfl rfl) True.intro)).snoc
    (.machine .began) (.machine rfl (.began rfl rfl) True.intro)).snoc
    (.machine (.called (.hardware "low")))
      (.machine rfl (.called rfl rfl rfl (.hardware "low")) (by rintro top ⟨⟩; rfl))).snoc
    (.machine (.reading "b")) (.machine rfl (.reading rfl rfl rfl Esp32.low_locks_b (by decide))
      (by rintro top ⟨⟩; exact ⟨nofun,nofun⟩))).snoc
    (.machine (.raised "b")) (.machine rfl (.raised rfl rfl rfl) True.intro)).snoc
    (.machine (.reading "a")) (.machine rfl (.reading rfl rfl rfl Esp32.low_locks_a (by decide))
      (by rintro top ⟨⟩; exact ⟨by decide,nofun⟩))).snoc
    (.machine (.raised "a")) (.machine rfl (.raised rfl rfl rfl) True.intro)

theorem nested_lives : nestedRun.Every PollsLive := by
  simp only [nestedRun,Run.every_snoc,Run.every_start,PollsLive]
  simp

theorem nested_separate : nestedRun.Through fun _ s => Separate (s.borrows nestedGenerated) := by
  refine esp32_references_separate Esp32.nested_accepted (by constructor <;> decide)
    (show analyze Esp32.nestedAnalysis Esp32.nested = some nestedResult by decide) rfl nestedRun nested_lives ?_
  refine ⟨⟨⟨⟨⟨⟨⟨⟨⟨⟨⟨⟨True.intro,?_⟩,?_⟩,?_⟩,?_⟩,?_⟩,?_⟩,?_⟩,?_⟩,?_⟩,?_⟩,?_⟩,?_⟩
  case refine_10 =>
    rintro event ⟨⟩ r top below ⟨⟩ ⟨⟩
    exact ⟨by decide,nofun⟩
  case refine_12 =>
    rintro event ⟨⟩ r top below ⟨⟩ ⟨⟩
    refine ⟨by decide,fun lock inside => ?_⟩
    cases List.mem_singleton.mp inside
    decide
  all_goals
    rintro event same r top below rfl
    cases same

end Rtic.Codegen
