import Rtic.Export.SourceMaskLocks
namespace Rtic.Export.CortexSourceMask
open Transition Syntax Codegen SourceMask NestedMask
open Syntax.Analyze (Analysis)
open CortexBasepri (isException enabledVectors enabled_known hardware_enabled supported_parts reserved_exceptions generated)

-- No task that is bound to an exception takes, with masks, a lock that a task of
-- lower priority takes as well.
def Separated (app : App) (analysis : Analysis) : Prop :=
  ∀ name task, (name,task) ∈ app.hardwareTasks → isException task.binds = true →
    ∀ r, ceiling analysis r < 4 → Locks app (.hardware name) r →
    ∀ other resources priority, Locks app other r → Lists app other resources priority → task.priority ≤ priority

-- No task that is bound to an exception takes a lock with masks.
def Unexceptional (app : App) (analysis : Analysis) : Prop :=
  ∀ name task, (name,task) ∈ app.hardwareTasks → isException task.binds = true →
    ∀ r, Locks app (.hardware name) r → 4 ≤ ceiling analysis r

-- Whether a lock of the ceiling holds a vector back.
def blocks (device : Device) (masks : Masks) (ceiling : Nat) (vector : Codegen.Vector) : Bool :=
  if 4 ≤ ceiling then true
  else match device.interrupt vector.name,computeMask 0 ceiling masks.levels with
    | some number,some mask => !isException vector.name && isEnabled mask.chunk number
    | _,_ => false

-- The lock of a resource holds back every handler that executes one of its users.
def Blockable (device : Device) (app : App) (analysis : Analysis) (masks : Masks) : Prop :=
  ∀ vector ∈ enabledVectors app, ∀ task r, Executes app vector.handler task → Locks app task r →
    blocks device masks (ceiling analysis r) vector = true

theorem unmask_bits (device : Device) (iser : BitBank.Bank 32) (vector : Codegen.Vector) :
    BitBank.bits iser ⊆ BitBank.bits (unmask device iser vector) := by
  unfold unmask
  split
  · split
    · exact Set.Subset.rfl
    · rw [BitBank.bits_setBits]
      exact Set.subset_union_left
  · exact Set.Subset.rfl

theorem unmask_fold {device : Device} {vectors : List Codegen.Vector} (iser : BitBank.Bank 32)
    {vector : Codegen.Vector} (member : vector ∈ vectors) (ordinary : isException vector.name = false) {number : Nat}
    (known : device.interrupt vector.name = some number) :
    isEnabled (vectors.foldl (unmask device) iser) number = true := by
  have keeps (vectors : List Codegen.Vector) (iser : BitBank.Bank 32) :
      BitBank.bits iser ⊆ BitBank.bits (vectors.foldl (unmask device) iser) := by
    induction vectors generalizing iser with
    | nil => exact Set.Subset.rfl
    | cons first rest ih => exact (unmask_bits device iser first).trans (ih _)
  induction vectors generalizing iser with
  | nil => cases member
  | cons first rest ih =>
    rcases List.mem_cons.mp member with rfl | member
    · refine keeps rest _ ?_
      unfold unmask
      simp only [known]
      rw [if_neg (by simp [ordinary]),BitBank.bits_setBits,chunk_bit]
      exact Or.inr rfl
    · exact ih _ member

section
variable {device : Device} {app : App} {analysis : Analysis} {masks : Masks} {init s : State masks.chunks}
  {handler : Handler} {priority : Nat} {task : Task} {held : List (Held masks.chunks)}
  {below : List (Frame masks.chunks)} {r : Ident} {mask out oldMask : Mask masks.chunks}

theorem reads_all (run : Transition.Run (Step device app analysis masks) init s)
    (running : s.stack = ⟨handler,priority,some task,.reading r mask out 0,held⟩::below) :
    ∃ t, ∃ _ : Transition.Run (Step device app analysis masks) init t, ∃ oldMask,
      t.stack = ⟨handler,priority,some task,.reading r mask oldMask masks.chunks,held⟩::below ∧
        t.enabled = s.enabled := by
  refine run.loop (P:=fun i t => ∃ out, t.stack = ⟨handler,priority,some task,.reading r mask out i,held⟩::below ∧
    t.enabled = s.enabled) ?_ ⟨out,running,rfl⟩ (Nat.zero_le _)
  rintro i u inside ⟨out,stack,enabled⟩
  exact ⟨_,_,.read stack rfl inside,_,rfl,enabled⟩

theorem clears_all (run : Transition.Run (Step device app analysis masks) init s)
    (running : s.stack = ⟨handler,priority,some task,.clearing r mask oldMask 0,held⟩::below) :
    ∃ t, ∃ _ : Transition.Run (Step device app analysis masks) init t,
      t.stack = ⟨handler,priority,some task,.clearing r mask oldMask masks.chunks,held⟩::below ∧
        t.enabled = s.enabled := by
  refine run.loop (P:=fun i t => t.stack = ⟨handler,priority,some task,.clearing r mask oldMask i,held⟩::below ∧
    t.enabled = s.enabled) ?_ ⟨running,rfl⟩ (Nat.zero_le _)
  rintro i u inside ⟨stack,enabled⟩
  exact ⟨_,_,.cleared stack rfl inside,rfl,enabled⟩

-- A lock that nothing preempts gets into its closure.
theorem lock_run (run : Transition.Run (Step device app analysis masks) init s)
    (running : s.stack = ⟨handler,priority,some task,.body,held⟩::below) (mine : Locks app task r)
    (low : ceiling analysis r < 4) :
    ∃ t, ∃ _ : Transition.Run (Step device app analysis masks) init t, ∃ lock,
      t.stack = ⟨handler,priority,some task,.body,lock::held⟩::below ∧ lock.resource = r ∧ t.enabled = s.enabled := by
  obtain ⟨mask,computed⟩ := computeMask_some masks.levels (ceiling analysis r) (by omega)
  obtain ⟨read,run,oldMask,stack,enabled⟩ :=
    reads_all (run.snoc _ (.computed running rfl rfl mine low computed)) rfl
  obtain ⟨cleared,run,stack,enabled'⟩ := clears_all (run.snoc _ (.kept stack rfl)) rfl
  exact ⟨_,run.snoc _ (.entered stack rfl),_,rfl,rfl,enabled'.trans enabled⟩
end

theorem FrameSound.entry {device : Device} {app : App} {analysis : Analysis}
    {masks : Masks} {f : Frame masks.chunks} {below : List (Frame masks.chunks)}
    (frame : FrameSound device app analysis masks f below) : (generated app analysis).entry f.handler f.priority := by
  rcases frame.admitted with ⟨_,main,zero⟩ | ⟨vector,member,same,priority,_⟩
  · exact Or.inr ⟨main,zero⟩
  · exact Or.inl ⟨vector,member,same,priority⟩

section
variable {bits : Nat} {device : Device} {app : App} {analysis : Analysis} {masks : Masks}
  (accepted : Accepted bits device app analysis masks)
include accepted

theorem dispatcher_ordinary {vector : Codegen.Vector} (member : vector ∈ dispatcherVectors app) :
    isException vector.name = false := by
  obtain ⟨⟨level,name⟩,assigned,rfl⟩ := List.mem_map.mp member
  by_contra exception
  refine reserved_exceptions (by simpa using exception) ?_
  exact (supported_parts accepted.supported).1 _ (interrupt_dispatcher assigned)

theorem exception_task {vector : Codegen.Vector} (member : vector ∈ enabledVectors app)
    (exception : isException vector.name = true) :
    ∃ name task, (name,task) ∈ app.hardwareTasks ∧ vector = ⟨task.priority,task.binds,.hardware name⟩ := by
  rcases List.mem_append.mp (enabled_known app member) with member | member
  · rw [dispatcher_ordinary accepted member] at exception
    cases exception
  · obtain ⟨⟨name,task⟩,listed,rfl⟩ := List.mem_map.mp member
    exact ⟨name,task,listed,rfl⟩

theorem ordinary_number {vector : Codegen.Vector} (member : vector ∈ enabledVectors app)
    (ordinary : isException vector.name = false) :
    ∃ number, device.interrupt vector.name = some number ∧
      ∃ assigned, (vector.priority,number) ∈ assigned ∧ generateMasks assigned = some masks := by
  have masked : vector ∈ maskedVectors app := by
    rcases List.mem_append.mp (enabled_known app member) with member | member
    · exact List.mem_append_left _ member
    · exact List.mem_append_right _ (List.mem_filter.mpr ⟨member,by simp [ordinary]⟩)
  obtain ⟨assigned,resolved,generated⟩ := Option.bind_eq_some_iff.mp accepted.masked
  obtain ⟨entry,found,listed⟩ := CortexBasepri.mapM_some resolved masked
  obtain ⟨number,known,rfl⟩ := Option.map_eq_some_iff.mp found
  exact ⟨number,known,assigned,listed,generated⟩

-- A lock taken with masks disables every interrupt up to its ceiling.
theorem masks_cover {vector : Codegen.Vector} (member : vector ∈ enabledVectors app)
    (ordinary : isException vector.name = false) {c : Nat} (low : c < 4) (within : vector.priority ≤ c)
    {mask : Mask masks.chunks} (computed : computeMask 0 c masks.levels = some mask) :
    ∃ number, device.interrupt vector.name = some number ∧ number ∈ mask.bits := by
  obtain ⟨number,known,assigned,listed,generated⟩ := ordinary_number accepted member ordinary
  have positive := (CortexBasepri.interrupt_range accepted.toAccepted ⟨vector,member,rfl,rfl⟩).1
  exact ⟨number,known,(generateMasks_bits generated computed (by omega)).mpr ⟨_,listed,positive,within⟩⟩

theorem vector_ceiling {vector : Codegen.Vector} (member : vector ∈ enabledVectors app) {task : Task} {r : Ident}
    (executes : Executes app vector.handler task) (locks : Locks app task r) : vector.priority ≤ ceiling analysis r :=
  program_covered accepted.parsed accepted.analyzed (enabled_known app) _ _ _ _ (Or.inl ⟨vector,member,rfl,rfl⟩)
    executes locks

theorem blockable_iff : Blockable device app analysis masks ↔ Unexceptional app analysis := by
  constructor
  · intro blockable name task listed exception r locks
    have blocked := blockable _ (hardware_enabled listed) _ r (.hardware name) locks
    by_contra low
    unfold blocks at blocked
    rw [if_neg low] at blocked
    simp only [exception] at blocked
    split at blocked
    · cases blocked
    · cases blocked
  · intro unexceptional vector member task r executes locks
    unfold blocks
    split
    · rfl
    · rename_i low
      have ordinary : isException vector.name = false := by
        by_contra exception
        obtain ⟨name,bound,listed,rfl⟩ := exception_task accepted member (by simpa using exception)
        cases executes with
        | hardware name => exact low (unexceptional name bound listed (by simpa using exception) r locks)
      obtain ⟨mask,computed⟩ := computeMask_some masks.levels (ceiling analysis r) (by omega)
      obtain ⟨number,known,inside⟩ :=
        masks_cover accepted member ordinary (by omega) (vector_ceiling accepted member executes locks) computed
      rw [known,computed,ordinary]
      exact inside

-- What a frame holds, a frame above it does not take: it could not have been entered.
theorem FrameSound.apart (separated : Separated app analysis) {f g : Frame masks.chunks}
    {below under : List (Frame masks.chunks)} (frame : FrameSound device app analysis masks f below)
    (holder : FrameSound device app analysis masks g under) (present : g ∈ below) {lock lock' : Held masks.chunks}
    (inside : lock ∈ f.held) (inside' : lock' ∈ g.held) : lock.resource ≠ lock'.resource := by
  intro same
  obtain ⟨⟨task,runs,locks⟩,_⟩ := frame.held lock inside
  obtain ⟨⟨task',runs',locks'⟩,fits⟩ := holder.held lock' inside'
  rw [same] at locks
  have executes := frame.runs task runs
  have executes' := holder.runs task' runs'
  have higher := frame.above g present
  rcases frame.admitted with ⟨rfl,_⟩ | ⟨vector,member,handler,priority,free⟩
  · cases present
  · rw [← handler] at executes
    have held : lock'.entry.mask ≤ blocked (layers below) := by
      refine le_blocked (List.mem_flatMap.mpr ⟨g,present,List.mem_append_right _ ?_⟩)
      exact List.mem_flatMap.mpr ⟨lock',inside',List.mem_cons_self⟩
    have free := Set.disjoint_left.mp (free.mono_right held)
    rcases lock' with ⟨r,before | ⟨mask,oldMask⟩⟩
    · exact free (Or.inl rfl) rfl
    · obtain ⟨low,computed⟩ := fits
      cases exception : isException vector.name with
      | false =>
        obtain ⟨number,known,masked⟩ :=
          masks_cover accepted member exception low (vector_ceiling accepted member executes locks) computed
        exact free (Or.inr ⟨number,rfl,exception,known⟩) ⟨number,masked,rfl⟩
      | true =>
        obtain ⟨name,bound,listed,rfl⟩ := exception_task accepted member exception
        obtain ⟨resources,declared,_,lists,_⟩ := id locks'
        have level := executes_priority accepted.parsed (enabled_known app) holder.entry executes' lists
        cases executes with
        | hardware name =>
          have order := separated name bound listed exception r low locks _ _ _ locks' lists
          simp only at priority
          omega

theorem FramesSound.exclusive (separated : Separated app analysis) {stack : List (Frame masks.chunks)}
    (frames : FramesSound device app analysis masks stack) :
    stack.Pairwise fun f below => ∀ r ∈ f.resources, r ∉ below.resources := by
  have holder {stack : List (Frame masks.chunks)} (frames : FramesSound device app analysis masks stack)
      {g : Frame masks.chunks} (present : g ∈ stack) : ∃ under, FrameSound device app analysis masks g under := by
    induction stack with
    | nil => cases present
    | cons first rest ih =>
      rcases List.mem_cons.mp present with rfl | present
      · exact ⟨rest,frames.1⟩
      · exact ih frames.2 present
  induction stack with
  | nil => exact .nil
  | cons f below ih =>
    refine List.pairwise_cons.mpr ⟨?_,ih frames.2⟩
    intro g present r held held'
    obtain ⟨lock,inside,rfl⟩ := List.mem_map.mp held
    obtain ⟨lock',inside',same⟩ := List.mem_map.mp held'
    obtain ⟨under,sound⟩ := holder frames.2 present
    exact frames.1.apart accepted separated sound present inside inside' same.symm

theorem exclusive_of (separated : Separated app analysis) {s : State masks.chunks}
    (run : Run device app analysis masks s) : run.Through Exclusive :=
  run.through_of (fun _ s => Sound device app analysis masks s) initial_sound
    (fun sound taken _ => step_sound sound taken) (fun sound => sound.frames.exclusive accepted separated)
    run.every_true

-- Every task has a handler that executes it at its priority.
theorem task_handler {task : Task} {resources : SharedResources} {priority : Nat}
    (lists : Lists app task resources priority) :
    (priority = 0 ∧ Executes app .main task) ∨
    ∃ vector ∈ enabledVectors app, vector.priority = priority ∧ Executes app vector.handler task := by
  cases lists with
  | idle defined => exact Or.inl ⟨rfl,.idle (by rw [defined]; rfl)⟩
  | hardware listed => exact Or.inr ⟨_,hardware_enabled listed,rfl,.hardware _⟩
  | software listed =>
    rename_i name task
    rcases Nat.eq_zero_or_pos task.priority with zero | positive
    · refine Or.inl ⟨zero,.zero listed zero ?_⟩
      have clean := (Analyze.app_parts accepted.analyzed).2.2.1
      have none_ := List.flatMap_eq_nil_iff.mp clean _ listed
      cases idle : app.idle with
      | none => rfl
      | some _ => simp [zero,idle] at none_
    · obtain ⟨dispatcher,assigned⟩ := level_dispatcher (supported_parts accepted.supported).2 listed positive
      refine Or.inr ⟨⟨task.priority,dispatcher,.dispatcher task.priority⟩,?_,rfl,.software listed rfl⟩
      exact List.mem_append_left _ (List.mem_append_left _ (List.mem_map.mpr ⟨_,assigned,rfl⟩))

theorem initial_delivers {vector : Codegen.Vector} (member : vector ∈ enabledVectors app) :
    delivers device (initial device app masks) vector = true := by
  cases exception : isException vector.name with
  | true => simp [delivers,initial,exception]
  | false =>
    obtain ⟨number,known,_⟩ := ordinary_number accepted member exception
    have enabled := unmask_fold (fun _ => 0#32) member exception known
    simpa [delivers,initial,exception,known] using enabled

theorem lets_exception_in (shared : ¬Separated app analysis) :
    ∃ s, ∃ run : Run device app analysis masks s, ¬run.Through Exclusive := by
  unfold Separated at shared
  push Not at shared
  obtain ⟨name,task,listed,exception,r,low,locks,other,resources,priority,locks',lists,lower⟩ := shared
  -- the lower task is called and takes the lock
  have reach : ∃ s, ∃ _ : Run device app analysis masks s, ∃ handler under,
      s.stack = ⟨handler,priority,none,.body,[]⟩::under ∧ s.enabled = true ∧ Executes app handler other := by
    rcases task_handler accepted lists with ⟨rfl,executes⟩ | ⟨vector,member,rfl,executes⟩
    · exact ⟨_,.start,_,_,rfl,rfl,executes⟩
    · refine ⟨_,Transition.Run.start.snoc _ (.preempted rfl member ?_ (initial_delivers accepted member)),
        _,_,rfl,rfl,executes⟩
      exact (CortexBasepri.interrupt_range accepted.toAccepted ⟨vector,member,rfl,rfl⟩).1
  obtain ⟨s,run,handler,under,stack,enabled,executes⟩ := reach
  obtain ⟨s',run',lock,stack',same,enabled'⟩ :=
    lock_run (run.snoc _ (.called stack rfl rfl executes)) rfl locks' low
  -- the exception enters, and takes it too
  have delivered : delivers device s' ⟨task.priority,task.binds,.hardware name⟩ = true := by
    simp [delivers,exception,enabled',enabled]
  obtain ⟨t,final,lock',stack'',same',_⟩ := lock_run
    ((run'.snoc _ (.preempted stack' (hardware_enabled listed) lower delivered)).snoc _
      (.called rfl rfl rfl (.hardware name))) rfl locks low
  refine ⟨t,final,fun all => ?_⟩
  have exclusive := all.last
  unfold Exclusive at exclusive
  rw [stack'',stack'] at exclusive
  have apart := (List.pairwise_cons.mp exclusive).1 _ List.mem_cons_self r
  simp [Frame.resources,same,same'] at apart

-- The backend keeps every two tasks apart exactly where no exception takes a masked
-- lock above another user, and can block every user exactly where none takes one.
theorem protects_iff :
    ((∀ s (run : Run device app analysis masks s), run.Through Exclusive) ↔ Separated app analysis) ∧
    ((∀ s (run : Run device app analysis masks s), run.Through Exclusive) ∧ Blockable device app analysis masks ↔
      Unexceptional app analysis) := by
  have exclusive : (∀ s (run : Run device app analysis masks s), run.Through Exclusive) ↔ Separated app analysis := by
    constructor
    · intro all
      by_contra shared
      obtain ⟨s,run,broken⟩ := lets_exception_in accepted shared
      exact broken (all s run)
    · exact fun separated s run => exclusive_of accepted separated run
  refine ⟨exclusive,?_⟩
  rw [exclusive,blockable_iff accepted]
  refine and_iff_right_of_imp fun unexceptional => ?_
  intro name task listed exception r low locks
  exact absurd (unexceptional name task listed exception r locks) (Nat.not_le_of_lt low)
end

def m0 : Device where
  interrupt name := if name = "UART0" then some 5 else none
  systemHandlers := ["SVCall","PendSV","SysTick"]
  distinct := by
    intro left right number first second
    split at first
    · split at second
      · rename_i here there
        rw [here,there]
      · cases second
    · cases first

-- SysTick and an interrupt share a.
def ticking (uart tick : Nat) : App :=
  ⟨[],⟨"init",[]⟩,none,[("a",⟨"u32",false⟩)],[],
    [("serial",⟨"UART0",uart,[],[("a",.exclusive)]⟩),("tick",⟨"SysTick",tick,[],[("a",.exclusive)]⟩)],[]⟩

def tickingAnalysis : Analysis := ⟨[],["a"],[],[("a",.contended 2)],["u32"],[]⟩

theorem ticksLow_accepted : Accepted 2 m0 (ticking 2 1) tickingAnalysis ⟨1,#v[⟨#v[0]⟩,⟨#v[32]⟩,⟨#v[0]⟩]⟩ :=
  ⟨⟨⟨by decide,by decide,by decide,by decide,by decide,by decide⟩,by decide,by decide,by decide,by decide,by decide⟩,
    by decide,by decide,by decide⟩

theorem tick_locks (uart tick : Nat) : Locks (ticking uart tick) (.hardware "tick") "a" :=
  ⟨_,_,⟨"u32",false⟩,.hardware (List.mem_cons_of_mem _ List.mem_cons_self),List.mem_cons_self,rfl,rfl⟩

-- The masks cannot block the tick, but nothing that it could interrupt takes its lock.
theorem ticksLow_protected :
    (∀ s (run : Run m0 (ticking 2 1) tickingAnalysis ⟨1,#v[⟨#v[0]⟩,⟨#v[32]⟩,⟨#v[0]⟩]⟩ s), run.Through Exclusive) ∧
    ¬Blockable m0 (ticking 2 1) tickingAnalysis ⟨1,#v[⟨#v[0]⟩,⟨#v[32]⟩,⟨#v[0]⟩]⟩ := by
  obtain ⟨exclusive,blockable⟩ := protects_iff ticksLow_accepted
  have separated : Separated (ticking 2 1) tickingAnalysis := by
    intro name task listed exception r _ _ other resources priority _ lists
    have least : task.priority ≤ 1 := by
      rcases List.mem_pair.mp listed with same | same
      · cases same
        exact absurd exception (by decide)
      · cases same
        exact Nat.le_refl 1
    refine Nat.le_trans least ?_
    cases lists with
    | idle defined => cases defined
    | hardware listed => exact (ticksLow_accepted.parsed.hardware _ listed).1
    | software listed => cases listed
  have all := exclusive.mpr separated
  refine ⟨all,fun blocks => ?_⟩
  have low := blockable.mp ⟨all,blocks⟩ "tick" _ (List.mem_cons_of_mem _ List.mem_cons_self) (by decide) "a"
    (tick_locks 2 1)
  exact absurd low (by decide)

-- The tick enters the lock of the lower task: the application is accepted all the same.
theorem ticksHigh_enters_lock :
    Accepted 2 m0 (ticking 1 2) tickingAnalysis ⟨1,#v[⟨#v[32]⟩,⟨#v[0]⟩,⟨#v[0]⟩]⟩ ∧
    ∃ s, ∃ run : Run m0 (ticking 1 2) tickingAnalysis ⟨1,#v[⟨#v[32]⟩,⟨#v[0]⟩,⟨#v[0]⟩]⟩ s, ¬run.Through Exclusive := by
  have accepted : Accepted 2 m0 (ticking 1 2) tickingAnalysis ⟨1,#v[⟨#v[32]⟩,⟨#v[0]⟩,⟨#v[0]⟩]⟩ :=
    ⟨⟨⟨by decide,by decide,by decide,by decide,by decide,by decide⟩,by decide,by decide,by decide,by decide,by decide⟩,
      by decide,by decide,by decide⟩
  refine ⟨accepted,lets_exception_in accepted fun separated => ?_⟩
  have low := separated "tick" _ (List.mem_cons_of_mem _ List.mem_cons_self) (by decide) "a" (by decide)
    (tick_locks 1 2) (.hardware "serial") _ _
    ⟨_,_,⟨"u32",false⟩,.hardware List.mem_cons_self,by decide,by decide,rfl⟩ (.hardware List.mem_cons_self)
  exact absurd low (by decide)

end Rtic.Export.CortexSourceMask
