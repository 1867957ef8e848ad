import Mathlib.Data.Set.Lattice
import Mathlib.Order.CompletePartialOrder
import Rtic.Export.CortexSourceMask
namespace Rtic.Export.CortexSourceMask
open Transition Syntax Codegen SourceMask NestedMask
open Syntax.Analyze (Analysis)
open CortexBasepri (isException enabledVectors)

-- What can hold a handler back: the global enable, and its own bit in the NVIC.
inductive Line where
  | primask
  | interrupt (number : Nat)
  deriving DecidableEq, Repr

variable {m : Nat}

def interruptLines (numbers : Set Nat) : Set Line := {line | ∃ n ∈ numbers, line = .interrupt n}
def primaskLine (enabled : Bool) : Set Line := {line | line = .primask ∧ enabled = true}

@[simp] theorem mem_interruptLines {numbers : Set Nat} {line : Line} :
    line ∈ interruptLines numbers ↔ ∃ n ∈ numbers, line = .interrupt n := Iff.rfl

@[simp] theorem interruptLines_empty : interruptLines ∅ = ∅ := by
  ext line
  simp

theorem interruptLines_union (left right : Set Nat) :
    interruptLines (left ∪ right) = interruptLines left ∪ interruptLines right := by
  ext line
  simp [or_and_right,exists_or]

theorem interruptLines_mono {left right : Set Nat} (less : left ⊆ right) :
    interruptLines left ⊆ interruptLines right := by
  rintro _ ⟨n,member,rfl⟩
  exact ⟨n,less member,rfl⟩

-- The enabled lines.
def State.lines (s : State m) : Set Line := interruptLines (BitBank.bits s.iser) ∪ primaskLine s.enabled

def needs (device : Device) (vector : Codegen.Vector) : Set Line :=
  {line | line = .primask ∨
    ∃ number, line = .interrupt number ∧ isException vector.name = false ∧ device.interrupt vector.name = some number}

def Entry.mask : Entry m → Set Line
  | .section_ _ => {.primask}
  | .masks mask _ => interruptLines mask.bits

def Entry.saved : Entry m → Set Line
  | .section_ enabled => primaskLine enabled
  | .masks _ oldMask => interruptLines oldMask.bits

def Held.layers (lock : Held m) : List (Layer (Set Line)) := [.masked lock.entry.mask,.saved lock.entry.saved]

-- Of a lock that is entered or left only a part is in force.
def Point.layers : Point m → List (Layer (Set Line))
  | .body => []
  | .reading _ _ out _ => [.saved (interruptLines out.bits)]
  | .clearing _ mask oldMask i => [.masked (interruptLines (BitBank.below mask.chunk i)),.saved (interruptLines oldMask.bits)]
  | .restoring _ oldMask _ => [.saved (interruptLines oldMask.bits)]

def Frame.layers (f : Frame m) : List (Layer (Set Line)) := f.point.layers++f.held.flatMap Held.layers
def layers (stack : List (Frame m)) : List (Layer (Set Line)) := stack.flatMap Frame.layers

@[simp] theorem layers_nil : layers ([] : List (Frame m)) = [] := rfl
@[simp] theorem layers_cons (f : Frame m) (below : List (Frame m)) :
    layers (f::below) = f.point.layers++(f.held.flatMap Held.layers++layers below) := by
  simp [layers,Frame.layers]

-- The lock that a frame is entering, with its mask.
def Point.entering : Point m → Option (Ident × Mask m)
  | .reading r mask _ _ => some (r,mask)
  | .clearing r mask _ _ => some (r,mask)
  | _ => none

section
variable (device : Device) (app : App) (analysis : Analysis) (masks : Masks)

def Masked (r : Ident) (mask : Mask masks.chunks) : Prop :=
  ceiling analysis r < 4 ∧ computeMask 0 (ceiling analysis r) masks.levels = some mask

def Entry.Fits (r : Ident) : Entry masks.chunks → Prop
  | .section_ _ => 4 ≤ ceiling analysis r
  | .masks mask _ => Masked analysis masks r mask

-- The task that the frame has called is handed a lock for the resource.
def User (f : Frame m) (r : Ident) : Prop := ∃ task, f.task = some task ∧ Locks app task r

-- The handler was entered while the frames below it held what they hold now.
def Admitted (f : Frame masks.chunks) (below : List (Frame masks.chunks)) : Prop :=
  ∃ vector ∈ enabledVectors app, vector.handler = f.handler ∧ vector.priority = f.priority ∧
    Disjoint (needs device vector) (blocked (layers below))

structure FrameSound (f : Frame masks.chunks) (below : List (Frame masks.chunks)) : Prop where
  admitted : (below = [] ∧ f.handler = .main ∧ f.priority = 0) ∨ Admitted device app masks f below
  runs : ∀ task, f.task = some task → Executes app f.handler task
  held : ∀ lock ∈ f.held, User app f lock.resource ∧ lock.entry.Fits analysis masks lock.resource
  entering : ∀ r mask, f.point.entering = some (r,mask) → User app f r ∧ Masked analysis masks r mask
  above : ∀ g ∈ below, g.priority < f.priority

def FramesSound : List (Frame masks.chunks) → Prop
  | [] => True
  | f::below => FrameSound device app analysis masks f below ∧ FramesSound below

structure Sound (s : State masks.chunks) : Prop where
  lines : NestedMask.Sound s.lines (layers s.stack)
  frames : FramesSound device app analysis masks s.stack
end

theorem readMask_bits (iser : BitBank.Bank 32) (mask out : Mask m) (i : Nat) :
    (readMask iser mask out i).bits ⊆ out.bits ∪ BitBank.bits iser := by
  unfold readMask
  split
  · rw [Mask.bits,chunk_setIfInBounds]
    split
    · rw [BitBank.bits_update]
      exact Set.union_subset_union Set.sdiff_subset (BitBank.chunk_subset iser i)
    · exact Set.subset_union_left
  · exact Set.subset_union_left

theorem clearEnableMask_bits (iser : BitBank.Bank 32) (mask : Mask m) (i : Nat) :
    BitBank.bits (clearEnableMask iser mask i) = BitBank.bits iser \ BitBank.chunk i (mask.chunk i) := by
  unfold clearEnableMask
  split
  · exact BitBank.bits_clearBits iser i _
  · rename_i zero
    rw [not_not.mp zero,show (0 : BitVec 32) = 0#32 from rfl,BitBank.chunk_zero,Set.sdiff_empty]

theorem setEnableMask_bits (iser : BitBank.Bank 32) (mask oldMask : Mask m) (i : Nat) :
    BitBank.bits (setEnableMask iser mask oldMask i) ⊆ BitBank.bits iser ∪ oldMask.bits := by
  unfold setEnableMask
  split
  · rw [BitBank.bits_setBits]
    exact Set.union_subset_union_right _ (BitBank.chunk_subset oldMask.chunk i)
  · exact Set.subset_union_left

theorem below_chunks (mask : Mask m) : BitBank.below mask.chunk m = mask.bits :=
  BitBank.below_all fun _ outside => chunk_outside mask outside

theorem delivers_needs {device : Device} {s : State m} {vector : Codegen.Vector}
    (delivered : delivers device s vector = true) : needs device vector ⊆ s.lines := by
  obtain ⟨enabled,free⟩ := (Bool.and_eq_true _ _).mp delivered
  rintro line (rfl | ⟨number,rfl,ordinary,found⟩)
  · exact Or.inr ⟨rfl,enabled⟩
  · rw [ordinary,found] at free
    exact Or.inl ⟨number,by simpa [isEnabled] using free,rfl⟩

section
variable {device : Device} {app : App} {analysis : Analysis} {masks : Masks} {s t : State masks.chunks} {e : Event}
  {top : Frame masks.chunks} {below : List (Frame masks.chunks)}

theorem initial_sound : Sound device app analysis masks (initial device app masks) := by
  refine ⟨?_,?_,True.intro⟩
  · simpa [initial,Point.layers] using sound_nil _
  · constructor
    case admitted => exact Or.inl ⟨rfl,rfl,rfl⟩
    all_goals simp [Point.entering]

theorem Sound.topFrame (sound : Sound device app analysis masks s) (running : s.stack = top::below) :
    FrameSound device app analysis masks top below := by
  have frames := sound.frames
  rw [running] at frames
  exact frames.1

theorem Sound.linesAt {point : Point masks.chunks} (sound : Sound device app analysis masks s)
    (running : s.stack = top::below) (here : top.point = point) :
    NestedMask.Sound s.lines (point.layers++(top.held.flatMap Held.layers++layers below)) := by
  have lines := sound.lines
  rwa [running,layers_cons,here] at lines

-- A step of the running frame leaves the frames below it as they were.
theorem Sound.replace {top' : Frame masks.chunks} (sound : Sound device app analysis masks s)
    (running : s.stack = top::below) (after : t.stack = top'::below)
    (lines : NestedMask.Sound t.lines (top'.point.layers++(top'.held.flatMap Held.layers++layers below)))
    (frame : FrameSound device app analysis masks top' below) : Sound device app analysis masks t := by
  have frames := sound.frames
  rw [running] at frames
  refine ⟨?_,?_⟩
  · rw [after,layers_cons]
    exact lines
  · rw [after]
    exact ⟨frame,frames.2⟩

-- The running frame goes on with the lock that it is entering, or enters none, and
-- takes no other.
theorem FrameSound.goOn {point : Point masks.chunks} {held : List (Held masks.chunks)}
    (frame : FrameSound device app analysis masks top below) (fewer : held ⊆ top.held)
    (same : point.entering = none ∨ point.entering = top.point.entering) :
    FrameSound device app analysis masks {top with point := point,held := held} below := by
  refine {frame with held := fun lock inside => frame.held lock (fewer inside),entering := ?_}
  intro r mask entering
  rcases same with none_ | same
  · cases none_.symm.trans entering
  · exact frame.entering r mask (same.symm.trans entering)

-- The running frame takes one more lock.
theorem FrameSound.take {point : Point masks.chunks} (frame : FrameSound device app analysis masks top below)
    (lock : Held masks.chunks) (user : User app top lock.resource)
    (fits : lock.entry.Fits analysis masks lock.resource) (none_ : point.entering = none) :
    FrameSound device app analysis masks {top with point := point,held := lock::top.held} below := by
  refine {frame with held := ?_,entering := ?_}
  · intro other inside
    rcases List.mem_cons.mp inside with rfl | inside
    · exact ⟨user,fits⟩
    · exact frame.held other inside
  · intro r mask entering
    cases none_.symm.trans entering

theorem outer_subset {lock : Held masks.chunks} {held outer : List (Held masks.chunks)} (inner : held = lock::outer) :
    outer ⊆ held := by
  rw [inner]
  exact List.subset_cons_self _ _

theorem step_sound (sound : Sound device app analysis masks s) (taken : Step device app analysis masks s e t) :
    Sound device app analysis masks t := by
  cases taken with
  | preempted running member above delivered =>
    rename_i top below vector
    refine ⟨?_,?_,sound.frames⟩
    · rw [layers_cons]
      exact sound.lines
    · constructor
      case admitted =>
        exact Or.inr ⟨vector,member,rfl,rfl,sound.lines.clear.mono_left (delivers_needs delivered)⟩
      case above =>
        intro g present
        rw [running] at present
        rcases List.mem_cons.mp present with rfl | present
        · exact above
        · exact Nat.lt_trans ((sound.topFrame running).above g present) above
      all_goals simp [Point.entering]
  | called running point free mine =>
    have lines := sound.linesAt running rfl
    refine sound.replace running rfl lines {sound.topFrame running with runs := ?_,held := ?_,entering := ?_}
    · intro task same
      cases same
      exact mine
    · intro lock inside
      simp [free] at inside
    · intro r mask entering
      simp [point,Point.entering] at entering
  | disabled running point task mine highest =>
    rename_i top below t r
    have lines := sound.linesAt running point
    refine sound.replace running rfl ?_ ((sound.topFrame running).take ⟨r,.section_ s.enabled⟩ ⟨t,task,mine⟩ highest
      (congrArg Point.entering point))
    have saved : primaskLine s.enabled ≤ ⊥ ⊔ s.lines := by
      rintro line ⟨rfl,on_⟩
      exact Or.inr (Or.inr ⟨rfl,on_⟩)
    rw [point]
    refine (lines.enter.read saved).maskNone.clears {.primask} ?_ ?_ ?_
    · rintro line (ordinary | ⟨_,off⟩)
      · exact Or.inl ordinary
      · cases off
    · rw [Set.disjoint_singleton_right]
      rintro (⟨_,_,ordinary⟩ | ⟨_,off⟩)
      · cases ordinary
      · cases off
    · exact le_sup_right
  | computed running point task mine lower computed =>
    have lines := sound.linesAt running point
    refine sound.replace running rfl ?_ {sound.topFrame running with entering := ?_}
    · have none_ : interruptLines (Mask.zero masks.chunks).bits = ∅ := by rw [bits_empty,interruptLines_empty]
      simp only [Point.layers,none_]
      exact lines.enter
    · intro r mask entering
      cases entering
      exact ⟨⟨_,task,mine⟩,lower,computed⟩
  | read running point more =>
    have lines := sound.linesAt running point
    refine sound.replace running rfl (lines.read ?_)
      ((sound.topFrame running).goOn (List.Subset.refl _) (Or.inr ((congrArg Point.entering point).symm)))
    refine (interruptLines_mono (readMask_bits s.iser _ _ _)).trans ?_
    rw [interruptLines_union]
    exact Set.union_subset_union_right _ Set.subset_union_left
  | kept running point =>
    have lines := sound.linesAt running point
    refine sound.replace running rfl ?_
      ((sound.topFrame running).goOn (List.Subset.refl _) (Or.inr ((congrArg Point.entering point).symm)))
    simp only [Point.layers,BitBank.below_zero,interruptLines_empty]
    exact lines.maskNone
  | cleared running point more =>
    rename_i top below i mask r oldMask
    have lines := sound.linesAt running point
    refine sound.replace running rfl ?_
      ((sound.topFrame running).goOn (List.Subset.refl _) (Or.inr ((congrArg Point.entering point).symm)))
    refine lines.clears (interruptLines (BitBank.chunk i (mask.chunk i))) ?_ ?_ ?_
    · refine Set.union_subset_union_left _ (interruptLines_mono ?_)
      rw [clearEnableMask_bits]
      exact Set.sdiff_subset
    · rw [Set.disjoint_left]
      rintro line enabled ⟨n,cleared,rfl⟩
      rcases enabled with ⟨_,left_,same⟩ | ⟨other,_⟩
      · cases same
        rw [clearEnableMask_bits] at left_
        exact left_.2 cleared
      · cases other
    · rw [BitBank.below_succ,interruptLines_union]
      exact le_refl _
  | entered running point =>
    have lines := sound.linesAt running point
    obtain ⟨user,masked⟩ := (sound.topFrame running).entering _ _ (congrArg Point.entering point)
    refine sound.replace running rfl ?_ ((sound.topFrame running).take ⟨_,.masks _ _⟩ user masked rfl)
    simp only [Point.layers,below_chunks] at lines
    exact lines
  | enabled running point inner =>
    have lines := sound.linesAt running point
    rw [inner] at lines
    refine sound.replace running rfl ?_ ((sound.topFrame running).goOn (outer_subset inner) (Or.inr rfl))
    rw [point]
    refine (NestedMask.Sound.restore lines.unmask ?_).leave
    rintro line (ordinary | ⟨rfl,on_⟩)
    · exact Or.inl (Or.inl ordinary)
    · rcases (Bool.or_eq_true _ _).mp on_ with still | before
      · exact Or.inl (Or.inr ⟨rfl,still⟩)
      · exact Or.inr ⟨rfl,before⟩
  | left running point inner =>
    have lines := sound.linesAt running point
    rw [inner] at lines
    exact sound.replace running rfl lines.unmask ((sound.topFrame running).goOn (outer_subset inner) (Or.inl rfl))
  | restored running point more =>
    have lines := sound.linesAt running point
    refine sound.replace running rfl (NestedMask.Sound.restore lines ?_)
      ((sound.topFrame running).goOn (List.Subset.refl _) (Or.inl rfl))
    refine Set.union_subset ?_ (Set.subset_union_right.trans Set.subset_union_left)
    refine (interruptLines_mono (setEnableMask_bits s.iser _ _ _)).trans ?_
    rw [interruptLines_union]
    exact Set.union_subset_union_left _ Set.subset_union_left
  | unlocked running point =>
    have lines := sound.linesAt running point
    exact sound.replace running rfl lines.leave ((sound.topFrame running).goOn (List.Subset.refl _) (Or.inl rfl))
  | returned running handler point free =>
    have lines := sound.linesAt running point
    have frames := sound.frames
    rw [free] at lines
    rw [running] at frames
    exact ⟨lines,frames.2⟩
end

end Rtic.Export.CortexSourceMask
