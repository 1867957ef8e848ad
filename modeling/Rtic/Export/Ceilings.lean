import Mathlib.Algebra.Order.Group.Nat
import Rtic.Export.Preemption
namespace Rtic.Export
open Transition
variable {Handler Task Res Reg : Type}

-- What a masking register says: `denotes reg level` if it holds back exactly the
-- priorities up to `level`. A lock raises the level to its ceiling, either from
-- anywhere (`raiseOnly`) or only from below a ceiling that fits the register.
structure Encodes (backend : Backend Reg) (denotes : Reg → Nat → Prop) (raiseOnly : Prop) (fits : Nat → Prop) : Prop where
  reset : denotes backend.reset 0
  unmasked : denotes backend.unmasked 0
  blocks : ∀ {reg level priority}, denotes reg level → 0 < priority → backend.delivers reg priority = true →
    level < priority
  raise : ∀ {reg level ceiling reg'}, denotes reg level → raiseOnly ∨ (fits ceiling ∧ level ≤ ceiling) →
    ceiling ≠ backend.sectionCeiling → backend.raise ceiling reg = some reg' → denotes reg' (max level ceiling)

variable {backend : Backend Reg} {program : Program Handler Task Res} {denotes : Reg → Nat → Prop}
  {raiseOnly : Prop} {fits : Nat → Prop}

-- The highest ceiling among the locks of a context that write the register,
-- over the level that its preempted contexts hold.
def heldLevel (ceiling : Res → Nat) (base : Nat) (held : List (Held Res Reg)) : Nat :=
  held.foldr (fun lock level => if lock.section_ then level else max level (ceiling lock.resource)) base

def stackLevel (ceiling : Res → Nat) (stack : List (Frame Handler Task Res Reg)) : Nat :=
  stack.foldr (fun f base => heldLevel ceiling base f.held) 0

@[simp] theorem heldLevel_nil (ceiling : Res → Nat) (base : Nat) :
    heldLevel ceiling base ([] : List (Held Res Reg)) = base := rfl
@[simp] theorem heldLevel_cons (ceiling : Res → Nat) (base : Nat) (lock : Held Res Reg) (held : List (Held Res Reg)) :
    heldLevel ceiling base (lock::held) = if lock.section_ then heldLevel ceiling base held
      else max (heldLevel ceiling base held) (ceiling lock.resource) := rfl
@[simp] theorem stackLevel_nil (ceiling : Res → Nat) :
    stackLevel ceiling ([] : List (Frame Handler Task Res Reg)) = 0 := rfl
@[simp] theorem stackLevel_cons (ceiling : Res → Nat) (f : Frame Handler Task Res Reg)
    (stack : List (Frame Handler Task Res Reg)) :
    stackLevel ceiling (f::stack) = heldLevel ceiling (stackLevel ceiling stack) f.held := rfl

theorem base_le_heldLevel (ceiling : Res → Nat) (base : Nat) (held : List (Held Res Reg)) :
    base ≤ heldLevel ceiling base held := by
  induction held with
  | nil => exact Nat.le_refl _
  | cons lock held ih =>
    rw [heldLevel_cons]
    split
    · exact ih
    · exact Nat.le_trans ih (Nat.le_max_left _ _)

theorem ceiling_le_heldLevel (ceiling : Res → Nat) (base : Nat) {held : List (Held Res Reg)} {lock : Held Res Reg}
    (member : lock ∈ held) (writes : lock.section_ = false) :
    ceiling lock.resource ≤ heldLevel ceiling base held := by
  induction held with
  | nil => cases member
  | cons first held ih =>
    rw [heldLevel_cons]
    rcases List.mem_cons.mp member with rfl | member
    · rw [if_neg (by simp [writes])]
      exact Nat.le_max_right _ _
    · split
      · exact ih member
      · exact Nat.le_trans (ih member) (Nat.le_max_left _ _)

theorem heldLevel_le (ceiling : Res → Nat) {base bound : Nat} {held : List (Held Res Reg)} (low : base ≤ bound)
    (all : ∀ lock ∈ held, lock.section_ = false → ceiling lock.resource ≤ bound) :
    heldLevel ceiling base held ≤ bound := by
  induction held with
  | nil => exact low
  | cons lock held ih =>
    have rest := ih fun inner member => all inner (List.mem_cons_of_mem _ member)
    rw [heldLevel_cons]
    split
    · exact rest
    · rename_i writes
      exact Nat.max_le.mpr ⟨rest,all lock List.mem_cons_self (by simpa using writes)⟩

theorem ceiling_le_stackLevel (ceiling : Res → Nat) {stack : List (Frame Handler Task Res Reg)}
    {f : Frame Handler Task Res Reg} {lock : Held Res Reg} (present : f ∈ stack) (member : lock ∈ f.held)
    (writes : lock.section_ = false) : ceiling lock.resource ≤ stackLevel ceiling stack := by
  induction stack with
  | nil => cases present
  | cons first stack ih =>
    rw [stackLevel_cons]
    rcases List.mem_cons.mp present with rfl | present
    · exact ceiling_le_heldLevel ceiling _ member writes
    · exact Nat.le_trans (ih present) (base_le_heldLevel ceiling _ _)

theorem stackLevel_le (ceiling : Res → Nat) {stack : List (Frame Handler Task Res Reg)} {bound : Nat}
    (all : ∀ f ∈ stack, ∀ lock ∈ f.held, lock.section_ = false → ceiling lock.resource ≤ bound) :
    stackLevel ceiling stack ≤ bound := by
  induction stack with
  | nil => exact Nat.zero_le _
  | cons f stack ih =>
    exact heldLevel_le ceiling (ih fun g member => all g (List.mem_cons_of_mem _ member))
      (all f List.mem_cons_self)

-- The locks of one context, innermost first: each saved what it has to restore.
def HeldSound (denotes : Reg → Nat → Prop) (ceiling : Res → Nat) (base : Nat) : List (Held Res Reg) → Prop
  | [] => True
  | lock::outer => HeldSound denotes ceiling base outer ∧
    denotes lock.saved (heldLevel ceiling base outer) ∧
    (lock.enabled = true ↔ ∀ inner ∈ outer, inner.section_ = false)

structure FrameSound (program : Program Handler Task Res) (denotes : Reg → Nat → Prop) (sectionCeiling : Nat)
    (f : Frame Handler Task Res Reg) (below : List (Frame Handler Task Res Reg)) : Prop where
  entered : program.entry f.handler f.priority
  runs : ∀ task, f.task = some task → program.executes f.handler task
  held : HeldSound denotes program.ceiling (stackLevel program.ceiling below) f.held
  entry : denotes f.entry (stackLevel program.ceiling below)
  initial : ∀ reg, f.initial = some reg → denotes reg (stackLevel program.ceiling below)
  skipped : below ≠ [] → f.initial = none → f.point = .entered ∨ f.priority ≤ 1
  raising : ∀ r current, f.point = .raising r current →
    denotes current (heldLevel program.ceiling (stackLevel program.ceiling below) f.held) ∧
    program.ceiling r ≠ sectionCeiling ∧ f.priority ≤ program.ceiling r
  free : f.point = .entered ∨ f.point = .leaving → f.held = []
  above : below ≠ [] → stackLevel program.ceiling below < f.priority
  sections : ∀ lock ∈ f.held, lock.section_ = true → program.ceiling lock.resource = sectionCeiling
  quiet : ∀ g ∈ below, ∀ lock ∈ g.held, lock.section_ = false

def FramesSound (program : Program Handler Task Res) (denotes : Reg → Nat → Prop) (sectionCeiling : Nat) :
    List (Frame Handler Task Res Reg) → Prop
  | [] => True
  | f::below => FrameSound program denotes sectionCeiling f below ∧ FramesSound program denotes sectionCeiling below

theorem FramesSound.sections {sectionCeiling : Nat} {stack : List (Frame Handler Task Res Reg)}
    (sound : FramesSound program denotes sectionCeiling stack) {f : Frame Handler Task Res Reg}
    (present : f ∈ stack) {lock : Held Res Reg} (inside : lock ∈ f.held) (section_ : lock.section_ = true) :
    program.ceiling lock.resource = sectionCeiling := by
  induction stack with
  | nil => cases present
  | cons top below ih =>
    rcases List.mem_cons.mp present with rfl | present
    · exact sound.1.sections lock inside section_
    · exact ih sound.2 present

def view (f : Frame Handler Task Res Reg) : PriorityCeiling.Context Nat Res :=
  ⟨f.priority,f.held.map Held.resource⟩

structure Sound (program : Program Handler Task Res) (denotes : Reg → Nat → Prop) (sectionCeiling : Nat)
    (s : State Handler Task Res Reg) : Prop where
  level : denotes s.reg (stackLevel program.ceiling s.stack)
  enabled : s.enabled = true ↔ ∀ f ∈ s.stack, ∀ lock ∈ f.held, lock.section_ = false
  frames : FramesSound program denotes sectionCeiling s.stack
  policy : PriorityCeiling.Sound program.ceiling (s.stack.map view)

-- The locks that a task nests inside one another have rising ceilings, and each of them fits the
-- register. Those taken with a critical section do not touch it.
def Nondecreasing (fits : Nat → Prop) (program : Program Handler Task Res) (_ : List (Event Handler Task Res))
    (s : State Handler Task Res Reg) (e : Event Handler Task Res) (_ : State Handler Task Res Reg) : Prop :=
  ∀ r top below, e = .raised r → s.stack = top::below → fits (program.ceiling r) ∧
    ∀ lock ∈ top.held, lock.section_ = false → program.ceiling lock.resource ≤ program.ceiling r

theorem initial_sound (encodes : Encodes backend denotes raiseOnly fits) :
    Sound program denotes backend.sectionCeiling (initial backend program) := by
  have main : FrameSound program denotes backend.sectionCeiling
      ⟨program.main,0,none,backend.reset,none,.body,([] : List (Held Res Reg))⟩
      ([] : List (Frame Handler Task Res Reg)) := by
    constructor
    case entered => exact Or.inr ⟨rfl,rfl⟩
    case entry => exact encodes.reset
    all_goals simp [HeldSound]
  refine ⟨encodes.reset,by simp [initial],⟨main,True.intro⟩,?_⟩
  exact ⟨by simp [initial],by simp [initial,view]⟩

section
variable {s t : State Handler Task Res Reg} {e : Event Handler Task Res}
  {top : Frame Handler Task Res Reg} {below : List (Frame Handler Task Res Reg)}

theorem Sound.topFrame (sound : Sound program denotes backend.sectionCeiling s) (running : s.stack = top::below) :
    FrameSound program denotes backend.sectionCeiling top below := by
  have frames := sound.frames
  rw [running] at frames
  exact frames.1

theorem Sound.belowFrames (sound : Sound program denotes backend.sectionCeiling s) (running : s.stack = top::below) :
    FramesSound program denotes backend.sectionCeiling below := by
  have frames := sound.frames
  rw [running] at frames
  exact frames.2

theorem Sound.topLevel (sound : Sound program denotes backend.sectionCeiling s) (running : s.stack = top::below) :
    denotes s.reg (heldLevel program.ceiling (stackLevel program.ceiling below) top.held) := by
  have level := sound.level
  rwa [running] at level

-- Preempted contexts hold no critical section, so the running one decides.
theorem Sound.topEnabled (sound : Sound program denotes backend.sectionCeiling s) (running : s.stack = top::below) :
    s.enabled = true ↔ ∀ lock ∈ top.held, lock.section_ = false := by
  have quiet := (sound.topFrame running).quiet
  rw [sound.enabled,running]
  constructor
  · exact fun all => all top List.mem_cons_self
  · intro own f member
    rcases List.mem_cons.mp member with rfl | member
    · exact own
    · exact quiet f member

theorem Sound.topPolicy (sound : Sound program denotes backend.sectionCeiling s) (running : s.stack = top::below) :
    PriorityCeiling.Sound program.ceiling (view top::below.map view) := by
  have policy := sound.policy
  rwa [running] at policy

theorem Sound.lockPolicy (sound : Sound program denotes backend.sectionCeiling s) (running : s.stack = top::below)
    {r : Res} (fits : top.priority ≤ program.ceiling r) :
    PriorityCeiling.Sound program.ceiling
      (⟨top.priority,r::top.held.map Held.resource⟩::below.map view) := by
  have locking : PriorityCeiling.Step program.ceiling (view top::below.map view)
      (⟨top.priority,r::top.held.map Held.resource⟩::below.map view) := .lock fits
  exact locking.sound (sound.topPolicy running)

theorem Sound.unlockPolicy (sound : Sound program denotes backend.sectionCeiling s) (running : s.stack = top::below)
    {lock : Held Res Reg} {outer : List (Held Res Reg)} (inner : top.held = lock::outer) :
    PriorityCeiling.Sound program.ceiling (⟨top.priority,outer.map Held.resource⟩::below.map view) := by
  have policy := sound.topPolicy running
  unfold view at policy
  rw [inner] at policy
  have unlocking : PriorityCeiling.Step program.ceiling
      (⟨top.priority,(lock::outer).map Held.resource⟩::below.map view)
      (⟨top.priority,outer.map Held.resource⟩::below.map view) := .unlock
  exact unlocking.sound policy

-- Replacing the running frame leaves what is below it as it was.
theorem Sound.replace {top' : Frame Handler Task Res Reg} (sound : Sound program denotes backend.sectionCeiling s)
    (running : s.stack = top::below) (after : t.stack = top'::below)
    (level : denotes t.reg (heldLevel program.ceiling (stackLevel program.ceiling below) top'.held))
    (enabled : t.enabled = true ↔ ∀ lock ∈ top'.held, lock.section_ = false)
    (frame : FrameSound program denotes backend.sectionCeiling top' below)
    (policy : PriorityCeiling.Sound program.ceiling (view top'::below.map view)) :
    Sound program denotes backend.sectionCeiling t := by
  refine ⟨by rw [after]; exact level,?_,by rw [after]; exact ⟨frame,sound.belowFrames running⟩,by rw [after]; exact policy⟩
  rw [enabled,after]
  constructor
  · intro own f member
    rcases List.mem_cons.mp member with rfl | member
    · exact own
    · exact frame.quiet f member
  · exact fun all => all top' List.mem_cons_self

-- A control transfer within the running frame that touches no lock.
theorem Sound.move {top' : Frame Handler Task Res Reg} (sound : Sound program denotes backend.sectionCeiling s)
    (running : s.stack = top::below) (after : t.stack = top'::below)
    (level : denotes t.reg (heldLevel program.ceiling (stackLevel program.ceiling below) top.held))
    (same : t.enabled = s.enabled) (held : top'.held = top.held) (priority : top'.priority = top.priority)
    (frame : FrameSound program denotes backend.sectionCeiling top' below) :
    Sound program denotes backend.sectionCeiling t := by
  refine sound.replace running after ?_ ?_ frame ?_
  · rw [held]
    exact level
  · rw [same,held]
    exact sound.topEnabled running
  · have policy := sound.topPolicy running
    rwa [show view top' = view top by simp [view,held,priority]]

-- Below its ceiling a lock of the running frame raises: the frames below it hold
-- nothing above its priority.
theorem FrameSound.level_le (frame : FrameSound program denotes backend.sectionCeiling top below) {bound : Nat}
    (priority : top.priority ≤ bound)
    (own : ∀ lock ∈ top.held, lock.section_ = false → program.ceiling lock.resource ≤ bound) :
    heldLevel program.ceiling (stackLevel program.ceiling below) top.held ≤ bound := by
  refine heldLevel_le _ ?_ own
  by_cases bottom : below = []
  · subst bottom
    exact Nat.zero_le _
  · exact Nat.le_trans (Nat.le_of_lt (frame.above bottom)) priority

-- Past the entry of its handler a frame is in the body, or it holds nothing and leaves.
theorem FrameSound.settled (frame : FrameSound program denotes backend.sectionCeiling top below)
    (past : top.point ≠ .entered) {point : Point Res Reg} {held : List (Held Res Reg)}
    (at_ : point = .body ∨ point = .leaving ∧ held = [])
    (kept : HeldSound denotes program.ceiling (stackLevel program.ceiling below) held)
    (sections : ∀ lock ∈ held, lock.section_ = true → program.ceiling lock.resource = backend.sectionCeiling) :
    FrameSound program denotes backend.sectionCeiling {top with point := point,held := held} below := by
  refine {frame with held := kept,skipped := ?_,raising := ?_,free := ?_,sections := sections}
  · exact fun handler skipped => Or.inr ((frame.skipped handler skipped).resolve_left past)
  · rintro r current rfl
    rcases at_ with body | ⟨leaving,_⟩
    · cases body
    · cases leaving
  · rcases at_ with rfl | ⟨rfl,free⟩
    · rintro (entered|leaving)
      · cases entered
      · cases leaving
    · exact fun _ => free

theorem FrameSound.sections_cons (frame : FrameSound program denotes backend.sectionCeiling top below)
    {own : Held Res Reg} (highest : own.section_ = true → program.ceiling own.resource = backend.sectionCeiling) :
    ∀ lock ∈ own::top.held, lock.section_ = true → program.ceiling lock.resource = backend.sectionCeiling := by
  intro lock inside section_
  rcases List.mem_cons.mp inside with rfl | inside
  · exact highest section_
  · exact frame.sections lock inside section_

theorem Sound.admits (encodes : Encodes backend denotes raiseOnly fits)
    (sound : Sound program denotes backend.sectionCeiling s) {priority : Nat} (running : s.stack = top::below)
    (above : top.priority < priority) (enabled : s.enabled = true)
    (delivered : backend.delivers s.reg priority = true) :
    PriorityCeiling.Admits program.ceiling (s.stack.map view) priority := by
  intro c member
  obtain ⟨f,present,rfl⟩ := List.mem_map.mp member
  constructor
  · have ordered := (List.pairwise_cons.mp (sound.topPolicy running).above).1
    rw [running] at present
    rcases List.mem_cons.mp present with rfl | present
    · exact above
    · exact Nat.lt_trans (ordered (view f) (List.mem_map_of_mem present)).1 above
  · intro r held
    obtain ⟨lock,inside,rfl⟩ := List.mem_map.mp held
    have writes := sound.enabled.mp enabled f present lock inside
    have low := ceiling_le_stackLevel program.ceiling present inside writes
    exact Nat.lt_of_le_of_lt low (encodes.blocks sound.level (Nat.zero_lt_of_lt above) delivered)

theorem step_sound (encodes : Encodes backend denotes raiseOnly fits) (covered : program.Covered)
    (sound : Sound program denotes backend.sectionCeiling s) (taken : Step backend program s e t)
    (admitted : raiseOnly ∨ Nondecreasing fits program [] s e t) :
    Sound program denotes backend.sectionCeiling t := by
  cases taken with
  | preempted running interrupt above enabled delivered =>
    have admits := sound.admits encodes running above enabled delivered
    have low := encodes.blocks sound.level (Nat.zero_lt_of_lt above) delivered
    have entering : PriorityCeiling.Step program.ceiling _ _ := .enter admits
    refine ⟨sound.level,?_,⟨?_,sound.frames⟩,entering.sound sound.policy⟩
    · rw [sound.enabled]
      simp
    · constructor
      case entered => exact Or.inl interrupt
      case entry => exact sound.level
      case above => exact fun _ => low
      case quiet => exact sound.enabled.mp enabled
      all_goals simp [HeldSound]
  | began running point =>
    have frame := sound.topFrame running
    have level := sound.topLevel running
    have free := frame.free (Or.inl point)
    refine sound.move running rfl (sound.topLevel running) rfl rfl rfl ?_
    refine {frame with initial := ?_,skipped := ?_,raising := ?_,free := fun _ => free}
    · intro reg read
      rw [free] at level
      split at read
      · cases read
      · cases read
        exact level
    · intro _ skipped
      split at skipped
      · rename_i first
        exact Or.inr (Nat.le_of_eq first)
      · cases skipped
    · intro r current raising
      cases raising
  | called running point free mine =>
    have frame := sound.topFrame running
    refine sound.move running rfl (sound.topLevel running) rfl rfl rfl ?_
    refine {frame with runs := ?_}
    intro task same
    cases same
    exact mine
  | disabled running point task mine highest =>
    have frame := sound.topFrame running
    have fits := covered _ _ _ _ frame.entered (frame.runs _ task) mine
    refine sound.replace running rfl (by simpa using sound.topLevel running) (by simp) ?_
      (sound.lockPolicy running fits)
    exact frame.settled (by simp [point]) (Or.inl point) ⟨frame.held,sound.topLevel running,sound.topEnabled running⟩
      (frame.sections_cons fun _ => highest)
  | reading running point task mine lower =>
    have frame := sound.topFrame running
    have fits := covered _ _ _ _ frame.entered (frame.runs _ task) mine
    refine sound.move running rfl (sound.topLevel running) rfl rfl rfl ?_
    refine {frame with skipped := ?_,raising := ?_,free := ?_}
    · intro handler skipped
      rcases frame.skipped handler skipped with entered | low
      · rw [point] at entered
        cases entered
      · exact Or.inr low
    · intro q current raising
      cases raising
      have level := sound.topLevel running
      exact ⟨level,lower,fits⟩
    · rintro (entered|leaving)
      · cases entered
      · cases leaving
  | raised running point written =>
    have frame := sound.topFrame running
    obtain ⟨saved,lower,above⟩ := frame.raising _ _ point
    have low := admitted.imp_right fun rising =>
      (rising _ _ _ rfl running).imp_right (frame.level_le above)
    have level := encodes.raise (sound.topLevel running) low lower written
    have enabled := sound.topEnabled running
    refine sound.replace running rfl (by simpa using level) (by simpa using enabled) ?_
      (sound.lockPolicy running above)
    exact frame.settled (by simp [point]) (Or.inl rfl) ⟨frame.held,saved,enabled⟩ (frame.sections_cons nofun)
  | unlocked running point inner =>
    rename_i top below lock outer
    have frame := sound.topFrame running
    have level := sound.topLevel running
    have enabled := sound.topEnabled running
    have held := frame.held
    rw [inner] at level enabled held
    obtain ⟨rest,saved,was⟩ := held
    refine sound.replace running rfl ?_ ?_ ?_ (sound.unlockPolicy running inner)
    · cases kind : lock.section_ <;> simp_all
    · cases kind : lock.section_ <;> simp_all
    · refine frame.settled (by simp [point]) (Or.inl point) rest fun lock inside => ?_
      exact frame.sections lock (by rw [inner]; exact List.mem_cons_of_mem _ inside)
  | finished running handler point free =>
    rename_i top below
    have frame := sound.topFrame running
    have level : denotes (top.initial.getD backend.unmasked) (stackLevel program.ceiling below) := by
      cases read : top.initial with
      | some reg => exact frame.initial reg read
      | none =>
        have low := frame.above handler
        rcases frame.skipped handler read with entered | first
        · rw [point] at entered
          cases entered
        · rw [show stackLevel program.ceiling below = 0 by omega]
          exact encodes.unmasked
    refine sound.move running rfl (by simpa [free] using level) rfl rfl rfl ?_
    exact frame.settled (by simp [point]) (Or.inr ⟨rfl,free⟩) frame.held frame.sections
  | returned running point =>
    rename_i top below
    have frame := sound.topFrame running
    have free := frame.free (Or.inr point)
    have leaving : PriorityCeiling.Step program.ceiling (view top::below.map view) _ := .leave
    refine ⟨?_,?_,sound.belowFrames running,leaving.sound (sound.topPolicy running)⟩
    · have level := sound.topLevel running
      rwa [free] at level
    · rw [sound.topEnabled running,free]
      simpa using frame.quiet
end

-- No two contexts are inside a lock on the same resource.
def Exclusive (_ : List (Event Handler Task Res)) (s : State Handler Task Res Reg) : Prop :=
  s.stack.Pairwise fun f below => ∀ r, r ∈ f.held.map Held.resource → r ∉ below.held.map Held.resource

-- Whatever is held, its whole ceiling is in force: interrupts are off, or the
-- register holds back every priority up to the ceiling.
def Covers (backend : Backend Reg) (program : Program Handler Task Res) (_ : List (Event Handler Task Res))
    (s : State Handler Task Res Reg) : Prop :=
  ∀ f ∈ s.stack, ∀ lock ∈ f.held, if lock.section_ then s.enabled = false
    else ∀ priority, 0 < priority → priority ≤ program.ceiling lock.resource →
      backend.delivers s.reg priority = false

-- An interrupt above the running priority and above every held ceiling gets in.
def Prompt (backend : Backend Reg) (program : Program Handler Task Res) (_ : List (Event Handler Task Res))
    (s : State Handler Task Res Reg) : Prop :=
  ∀ handler priority, program.interrupt handler priority → (∀ top ∈ s.stack.head?, top.priority < priority) →
    (∀ f ∈ s.stack, ∀ lock ∈ f.held, program.ceiling lock.resource < priority) →
    s.enabled = true ∧ backend.delivers s.reg priority = true

-- The register after a lock and after an interrupt handler is the one before it.
def Restores (_ : List (Event Handler Task Res)) (s : State Handler Task Res Reg) (e : Event Handler Task Res)
    (t : State Handler Task Res Reg) : Prop :=
  ∀ top below, s.stack = top::below →
    (∀ r, e = .unlocked r → ∀ lock ∈ top.held.head?, t.reg = lock.saved) ∧
    (e = .returned → t.reg = top.entry)

section
variable {s t : State Handler Task Res Reg} {e : Event Handler Task Res} {evs : List (Event Handler Task Res)}

theorem Sound.exclusive (sound : Sound program denotes backend.sectionCeiling s) : Exclusive evs s :=
  List.pairwise_map.mp sound.policy.exclusive

theorem Sound.covers (encodes : Encodes backend denotes raiseOnly fits)
    (sound : Sound program denotes backend.sectionCeiling s) : Covers backend program evs s := by
  intro f present lock inside
  split
  · rename_i section_
    have off : ¬s.enabled = true := fun on => by
      have none_ := sound.enabled.mp on f present lock inside
      rw [section_] at none_
      cases none_
    simpa using off
  · rename_i writes
    intro priority positive low
    have reached := ceiling_le_stackLevel program.ceiling present inside (by simpa using writes)
    cases delivered : backend.delivers s.reg priority with
    | false => rfl
    | true =>
      have above := encodes.blocks sound.level positive delivered
      omega

theorem Sound.prompt (sound : Sound program denotes backend.sectionCeiling s)
    (top : ∀ handler priority, program.interrupt handler priority → priority ≤ backend.sectionCeiling)
    (positive : ∀ handler priority, program.interrupt handler priority → 0 < priority)
    (passes : ∀ {reg level handler priority}, denotes reg level → program.interrupt handler priority →
      level < priority → backend.delivers reg priority = true) :
    Prompt backend program evs s := by
  intro handler priority interrupt _ above
  have bound := top handler priority interrupt
  constructor
  · refine sound.enabled.mpr fun f present lock inside => ?_
    cases section_ : lock.section_ with
    | false => rfl
    | true =>
      have low := above f present lock inside
      have highest := sound.frames.sections present inside section_
      omega
  · refine passes sound.level interrupt ?_
    have low : stackLevel program.ceiling s.stack ≤ priority-1 := stackLevel_le _ fun f present lock inside _ =>
      Nat.le_sub_one_of_lt (above f present lock inside)
    have some_ := positive handler priority interrupt
    omega

theorem Sound.restores (sound : Sound program denotes backend.sectionCeiling s)
    (after : Sound program denotes backend.sectionCeiling t) (taken : Step backend program s e t)
    (functional : ∀ {reg reg' level}, denotes reg level → denotes reg' level → reg = reg') :
    Restores evs s e t := by
  intro top below running
  have frame := sound.topFrame running
  constructor
  · rintro r rfl lock first
    cases taken with
    | unlocked running' point inner =>
      rename_i top' below' lock' outer
      rw [running] at running'
      cases running'
      rw [inner] at first
      cases first
      have held := frame.held
      rw [inner] at held
      exact functional (after.topLevel rfl) held.2.1
  · rintro rfl
    cases taken with
    | returned running' point =>
      rename_i top' below'
      rw [running] at running'
      cases running'
      exact functional after.level frame.entry
end

end Rtic.Export
