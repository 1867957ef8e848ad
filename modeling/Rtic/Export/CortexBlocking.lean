import Rtic.Export.Blocking
import Rtic.Export.CortexBasepri
namespace Rtic.Export.CortexBasepri
open Transition Function Syntax Codegen
open Syntax.Analyze (Analysis)

section
variable {bits priority : Nat} {app : App} {analysis : Analysis}

theorem vector_priority (accepted : Accepted bits app analysis) {vector : Codegen.Vector}
    (member : vector ∈ enabledVectors app) : vector.priority ≤ 2^bits := by
  have fits := List.findSome?_eq_none_iff.mp accepted.asserted vector member
  unfold unsupportedPriority at fits
  split at fits
  · cases fits
  · rename_i low
    exact Nat.le_of_not_lt low

theorem access_le (accepted : Accepted bits app analysis) {name : Ident} {access : Access}
    (listed : (some priority,name,access) ∈ app.sharedResourceAccesses) : priority ≤ 2^bits := by
  unfold App.sharedResourceAccesses at listed
  rcases List.mem_append.mp listed with listed | listed
  · rcases List.mem_append.mp listed with listed | listed
    · obtain ⟨idle,_,listed⟩ := List.mem_flatMap.mp listed
      obtain ⟨entry,_,same⟩ := List.mem_map.mp listed
      cases same
      exact Nat.zero_le _
    · obtain ⟨⟨task,args⟩,member,listed⟩ := List.mem_flatMap.mp listed
      obtain ⟨entry,_,same⟩ := List.mem_map.mp listed
      cases same
      exact vector_priority accepted (hardware_enabled member)
  · obtain ⟨⟨task,args⟩,member,listed⟩ := List.mem_flatMap.mp listed
    obtain ⟨entry,_,same⟩ := List.mem_map.mp listed
    cases same
    rcases Nat.eq_zero_or_pos args.priority with zero | positive
    · rw [zero]
      exact Nat.zero_le _
    · obtain ⟨dispatcher,assigned⟩ := level_dispatcher (supported_parts accepted.supported).2 member positive
      have vector : (⟨args.priority,dispatcher,.dispatcher args.priority⟩ : Codegen.Vector) ∈ enabledVectors app :=
        List.mem_append_left _ (List.mem_append_left _ (List.mem_map.mpr ⟨_,assigned,rfl⟩))
      exact vector_priority accepted vector

-- The ceiling of a resource is a priority that the device has, so no lock panics.
theorem ceiling_le (accepted : Accepted bits app analysis) (name : Ident) : ceiling analysis name ≤ 2^bits := by
  have found := Analyze.ownership_ceiling accepted.analyzed name
  unfold ceiling
  cases owned : Ordered.get? analysis.ownerships name with
  | none => exact Nat.zero_le _
  | some ownership =>
    rw [owned] at found
    obtain ⟨member,_⟩ := List.max?_eq_some_iff.mp found.symm
    obtain ⟨⟨priority,own,access⟩,listed,same⟩ := List.mem_filterMap.mp member
    dsimp only at same
    subst same
    exact access_le accepted (List.mem_filter.mp listed).1

theorem raise_some (accepted : Accepted bits app analysis) (device : 0 < bits ∧ bits < 8) (name : Ident) (basepri : Nat) :
    ((backend bits).raise ((generated app analysis).ceiling name) basepri).isSome := by
  have fits := ceiling_le accepted name
  have apart : ¬(bits = 0 ∨ 8 ≤ bits ∨ 2^bits < ceiling analysis name) := by omega
  simp [backend,program,cortexLogical2hw,apart]

variable {handler : Handler} {m t : Requests Handler Task Ident Nat}

theorem requests_known (accepted : Accepted bits app analysis)
    (run : Transition.Run (Requests.Step (backend bits) (generated app analysis)) m t)
    (sound : Sound (generated app analysis) (denotes bits) (backend bits).sectionCeiling m.core) :
    run.Through (Requests.Known (backend bits) (generated app analysis) (denotes bits)) := by
  refine run.through_of (fun _ m => Sound (generated app analysis) (denotes bits) (backend bits).sectionCeiling m.core)
    sound (fun sound taken _ => ?_) (fun sound => ⟨sound,sound_prompt accepted sound⟩) run.every_true
  rcases taken.core with same | ⟨e,taken⟩
  · exact same ▸ sound
  · exact accepted_step accepted sound taken

-- No context ever waits for another one inside a lock: what a task may lock nobody holds that it has preempted, and
-- there is always a step to take until only main is left.
theorem wait_free (accepted : Accepted bits app analysis) (device : 0 < bits ∧ bits < 8)
    (run : Requests.Run (backend bits) (generated app analysis) m) : Free (generated app analysis) m.core ∧
      (Resting m.core ∨ ∃ act m', (∀ handler, act ≠ .pended handler) ∧
        Requests.Step (backend bits) (generated app analysis) m act m') := by
  have sound := (requests_known accepted run (initial_sound (encodes bits))).last.1
  have rooted : Rooted m.core := by
    refine run.invariant (fun _ m => Rooted m.core) ⟨[],_,rfl,by nofun⟩ fun rooted taken => ?_
    rcases taken.core with same | ⟨e,taken⟩
    · exact same ▸ rooted
    · exact step_rooted rooted taken
  have covered := program_covered accepted.parsed accepted.analyzed (enabled_known app)
  have bounded : ∀ handler priority, (generated app analysis).interrupt handler priority → priority ≤ 2^bits := by
    intro handler priority interrupt
    obtain ⟨hw,converted⟩ := (interrupt_range accepted interrupt).2
    exact (hw_range converted).2.2.1
  exact ⟨sound.free covered,requests_go bounded rooted fun name => raise_some accepted device name _⟩

-- Priority inversion is bounded by a single critical section: from the request of a handler until it is entered, the
-- contexts below it take steps in at most one, which had been entered before.
theorem single_blocking (accepted : Accepted bits app analysis)
    (run : Requests.Run (backend bits) (generated app analysis) m)
    (waits : Transition.Run (Requests.Step (backend bits) (generated app analysis)) m t)
    (interrupt : (generated app analysis).interrupt handler priority) (pending : m.pending handler = true)
    (untaken : waits.Every (Untaken handler)) : SingleSection priority waits := by
  have start := requests_known accepted run (initial_sound (encodes bits))
  exact run_single_section (encodes bits) waits (requests_known accepted waits start.last.1) interrupt pending untaken
end

abbrev MaximalRun := Requests.Run (backend 3) (generated maximal maximalAnalysis)

theorem maximal_priority {name : Ident} {level : Nat}
    (interrupt : (generated maximal maximalAnalysis).interrupt (.hardware name) level) :
    name = "low" ∧ level = 1 ∨ name = "mid" ∧ level = 2 ∨ name = "high" ∧ level = 8 := by
  obtain ⟨vector,member,same,rfl⟩ := interrupt
  have known : ∀ vector ∈ enabledVectors maximal, vector.handler = .hardware name →
      name = "low" ∧ vector.priority = 1 ∨ name = "mid" ∧ vector.priority = 2 ∨ name = "high" ∧ vector.priority = 8 := by
    simp [enabledVectors,dispatcherVectors,hardwareVectors,interrupts,nonzeroPriorities,Analyze.levels,maximal,isException]
    exact ⟨Eq.symm,Eq.symm,Eq.symm⟩
  exact known vector member same

theorem low_requested : (generated maximal maximalAnalysis).interrupt (.hardware "low") 1 :=
  ⟨⟨1,"SysTick",.hardware "low"⟩,by decide,rfl,rfl⟩
theorem mid_requested : (generated maximal maximalAnalysis).interrupt (.hardware "mid") 2 :=
  ⟨⟨2,"UART0",.hardware "mid"⟩,by decide,rfl,rfl⟩

theorem low_urgent (handler : Handler) (level : Nat) (due : Requests.Due (backend 3) (generated maximal maximalAnalysis)
    ⟨initial (backend 3) (generated maximal maximalAnalysis),update (fun _ => false) (.hardware "low") true⟩ handler level) :
    level ≤ 1 := by
  have same : handler = .hardware "low" := by
    by_contra other
    simpa [update_of_ne other] using due.pending
  subst same
  rcases maximal_priority due.interrupt with ⟨_,rfl⟩ | ⟨other,_⟩ | ⟨other,_⟩
  · exact Nat.le_refl 1
  · exact absurd other (by decide)
  · exact absurd other (by decide)

theorem none_due {core : State Handler Task Ident Nat} (handler : Handler) (level : Nat) :
    ¬Requests.Due (backend 3) (generated maximal maximalAnalysis)
      ⟨core,update (update (fun _ => false) (.hardware "low") true) (.hardware "low") false⟩ handler level := by
  intro due
  simpa [update_apply] using due.pending

-- The low task is inside its lock on b as the middle one is requested.
def lowHolds : Requests Handler Task Ident Nat :=
  ⟨⟨192,true,[⟨.hardware "low",1,some (.hardware "low"),0,none,.body,[⟨"b",false,0,true⟩]⟩,
      ⟨.main,0,none,0,none,.body,[]⟩]⟩,
    update (update (update (fun _ => false) (.hardware "low") true) (.hardware "low") false) (.hardware "mid") true⟩

def lowInside : MaximalRun lowHolds :=
  (((((((Transition.Run.start : MaximalRun _).snoc
    (.pended (.hardware "low")) (.pended _)).snoc
    (.entered (.hardware "low") 1)
      (.entered ⟨rfl,low_requested,by rintro _ ⟨⟩; decide,rfl,rfl⟩ low_urgent
        (.preempted rfl low_requested (by decide) rfl rfl))).snoc
    (.acted .began) (.acted nofun none_due (.began rfl rfl))).snoc
    (.acted (.called (.hardware "low"))) (.acted nofun none_due (.called rfl rfl rfl (.hardware "low")))).snoc
    (.acted (.reading "b")) (.acted nofun none_due (.reading rfl rfl rfl
      ⟨_,_,⟨"u32",false⟩,.hardware List.mem_cons_self,by decide,by decide,rfl⟩ (by decide)))).snoc
    (.acted (.raised "b")) (.acted nofun none_due (.raised rfl rfl rfl))).snoc
    (.pended (.hardware "mid")) (.pended _)

theorem mid_held (handler : Handler) (level : Nat) :
    ¬lowHolds.Due (backend 3) (generated maximal maximalAnalysis) handler level := by
  intro due
  have same : handler = .hardware "mid" := by
    by_contra other
    simpa [lowHolds,update_apply,other] using due.pending
  subst same
  rcases maximal_priority due.interrupt with ⟨other,_⟩ | ⟨_,rfl⟩ | ⟨other,_⟩
  · exact absurd other (by decide)
  · exact Bool.false_ne_true due.delivered
  · exact absurd other (by decide)

def lowLeaves :=
  (Transition.Run.start : Transition.Run (Requests.Step (backend 3) (generated maximal maximalAnalysis)) lowHolds lowHolds).snoc
    _ (.acted (by nofun) mid_held (.unlocked rfl rfl rfl))

theorem lowInside_free : Free (generated maximal maximalAnalysis) lowHolds.core ∧
    (Resting lowHolds.core ∨ ∃ act m', (∀ handler, act ≠ .pended handler) ∧
      Requests.Step (backend 3) (generated maximal maximalAnalysis) lowHolds act m') :=
  wait_free maximal_accepted ⟨by decide,by decide⟩ lowInside

theorem lowLeaves_single : SingleSection 2 lowLeaves :=
  single_blocking maximal_accepted lowInside lowLeaves mid_requested rfl ⟨True.intro,nofun⟩

end Rtic.Export.CortexBasepri
