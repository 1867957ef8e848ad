import Rtic.Export.CortexSourceMask
namespace Rtic.Export.SourceMaskRestore
open Transition SourceMask
open BitBank (Bank bits)

-- Where a call of lock stands: in the closure of its critical section, in the loop over chunks of
-- read_mask, clear_enable_mask or set_enable_mask, or in the closure under its masks.
inductive Point where
  | section_
  | reading (i : Nat)
  | clearing (i : Nat)
  | closure
  | restoring (i : Nat)
  deriving DecidableEq, Repr

-- A call of lock with its variables; `entry` keeps the enables as they were when it was called.
structure Call (m : Nat) where
  ceiling : Nat
  mask : Mask m
  oldMask : Mask m
  point : Point
  entry : Bank 32

-- The calls in progress, the innermost first. Only that one runs: the others wait for the closure
-- that it is called in, or for the handler that has preempted them.
structure State (m : Nat) where
  iser : Bank 32
  calls : List (Call m)

inductive Event where
  | disabled (ceiling : Nat)
  | enabled
  | called (ceiling : Nat)
  | read
  | kept
  | cleared
  | entered
  | left
  | restored
  | returned
  deriving DecidableEq, Repr

-- A call may begin at any point of the innermost one, more often than hardware would preempt it.
inductive Step (masks : Masks) : State masks.chunks → Event → State masks.chunks → Prop where
  -- ceiling >= 4 leaves the NVIC alone
  | disabled (highest : 4 ≤ ceiling) :
      Step masks s (.disabled ceiling)
        {s with calls := ⟨ceiling,Mask.zero _,Mask.zero _,.section_,s.iser⟩::s.calls}
  | enabled (running : s.calls = call::outer) (point : call.point = .section_) :
      Step masks s .enabled {s with calls := outer}
  | called (lower : ceiling < 4) (computed : computeMask 0 ceiling masks.levels = some mask) :
      Step masks s (.called ceiling) {s with calls := ⟨ceiling,mask,Mask.zero _,.reading 0,s.iser⟩::s.calls}
  | read (running : s.calls = call::outer) (point : call.point = .reading i) (more : i < masks.chunks) :
      Step masks s .read
        {s with
          calls := {call with oldMask := readMask s.iser call.mask call.oldMask i,point := .reading (i+1)}::outer}
  | kept (running : s.calls = call::outer) (point : call.point = .reading masks.chunks) :
      Step masks s .kept {s with calls := {call with point := .clearing 0}::outer}
  | cleared (running : s.calls = call::outer) (point : call.point = .clearing i) (more : i < masks.chunks) :
      Step masks s .cleared
        {s with
          iser := clearEnableMask s.iser call.mask i
          calls := {call with point := .clearing (i+1)}::outer}
  | entered (running : s.calls = call::outer) (point : call.point = .clearing masks.chunks) :
      Step masks s .entered {s with calls := {call with point := .closure}::outer}
  | left (running : s.calls = call::outer) (point : call.point = .closure) :
      Step masks s .left {s with calls := {call with point := .restoring 0}::outer}
  | restored (running : s.calls = call::outer) (point : call.point = .restoring i) (more : i < masks.chunks) :
      Step masks s .restored
        {s with
          iser := setEnableMask s.iser call.mask call.oldMask i
          calls := {call with point := .restoring (i+1)}::outer}
  | returned (running : s.calls = call::outer) (point : call.point = .restoring masks.chunks) :
      Step masks s .returned {s with calls := outer}

abbrev Run (masks : Masks) (iser : Bank 32) (s : State masks.chunks) := Transition.Run (Step masks) ⟨iser,[]⟩ s

variable {m : Nat}

-- What the enables are while no call inside this one is in progress.
def Call.current (call : Call m) (i : Nat) : BitVec 32 :=
  match call.point with
  | .section_ => call.entry i
  | .reading _ => call.entry i
  | .clearing n => if i < n then call.entry i &&& ~~~call.mask.chunk i else call.entry i
  | .closure => call.entry i &&& ~~~call.mask.chunk i
  | .restoring n => if i < n then call.entry i else call.entry i &&& ~~~call.mask.chunk i

def Point.saved : Point → Nat → Prop
  | .section_,_ => False
  | .reading n,i => i < n
  | _,_ => True

structure Call.Sound (masks : Masks) (call : Call masks.chunks) : Prop where
  masked : call.point ≠ .section_ → call.ceiling < 4 ∧ computeMask 0 call.ceiling masks.levels = some call.mask
  saved : ∀ i, call.point.saved i → call.mask.chunk i ≠ 0 → call.oldMask.chunk i = call.entry i

-- Each call was entered with what the call around it leaves.
def Nested (first : Bank 32) : Bank 32 → List (Call m) → Prop
  | iser,[] => iser = first
  | iser,call::outer => iser = call.current ∧ Nested first call.entry outer

structure Sound (masks : Masks) (first : Bank 32) (s : State masks.chunks) : Prop where
  nested : Nested first s.iser s.calls
  calls : ∀ call ∈ s.calls, call.Sound masks

-- Inside a lock what it masks is disabled, and what no lock in progress masks is as it was at first.
structure Obeys (assigned : List (Nat × Nat)) (first : Bank 32) (s : State m) : Prop where
  masked : ∀ call ∈ s.calls, call.point = .closure → ∀ priority number, (priority,number) ∈ assigned →
    1 ≤ priority → priority ≤ call.ceiling → number ∉ bits s.iser
  above : ∀ number, (∀ call ∈ s.calls, ∀ priority, (priority,number) ∈ assigned → call.ceiling < priority) →
    (number ∈ bits s.iser ↔ number ∈ bits first)

-- A call that ends leaves the enables that it was entered with.
def Restores (s t : State m) : Prop := ∀ call, s.calls = call::t.calls → t.iser = call.entry

theorem cleared_or_same (value mask : BitVec 32) : value &&& ~~~mask ||| value = value := by
  ext i
  simp only [BitVec.getElem_or,BitVec.getElem_and]
  cases value[i] <;> simp

-- ~~~0
@[simp] theorem and_ones (value : BitVec 32) : value &&& 4294967295#32 = value := BitVec.and_allOnes

-- One iteration of each loop brings the enables to the next point.
theorem current_clears {call : Call m} {n : Nat} (point : call.point = .clearing n) :
    clearEnableMask call.current call.mask n = ({call with point := .clearing (n+1)} : Call m).current := by
  funext i
  unfold clearEnableMask
  split
  · by_cases here : i = n
    · subst here
      simp [BitBank.clearBits,Call.current,point]
    · have order : i < n+1 ↔ i < n := by omega
      simp [BitBank.clearBits,Call.current,point,here,order]
  · rename_i zero
    by_cases here : i = n
    · subst here
      simp [Call.current,point,not_not.mp zero]
    · have order : i < n+1 ↔ i < n := by omega
      simp [Call.current,point,order]

theorem current_restores {masks : Masks} {call : Call masks.chunks} (sound : call.Sound masks) {n : Nat}
    (point : call.point = .restoring n) :
    setEnableMask call.current call.mask call.oldMask n = ({call with point := .restoring (n+1)} : Call _).current := by
  funext i
  have order (apart : i ≠ n) : i < n+1 ↔ i < n := by omega
  unfold setEnableMask
  split
  · rename_i masked
    by_cases here : i = n
    · subst here
      have kept := sound.saved i (by rw [point]; exact True.intro) masked
      simp [BitBank.setBits,Call.current,point,kept,cleared_or_same]
    · simp [BitBank.setBits,Call.current,point,here,order here]
  · rename_i zero
    by_cases here : i = n
    · subst here
      simp [Call.current,point,not_not.mp zero]
    · simp [Call.current,point,order here]

theorem current_entered {call : Call m} (point : call.point = .clearing m) :
    call.current = ({call with point := .closure} : Call m).current := by
  funext i
  by_cases inside : i < m
  · simp [Call.current,point,inside]
  · simp [Call.current,point,inside,chunk_outside _ (Nat.le_of_not_lt inside)]

theorem current_returned {call : Call m} (point : call.point = .restoring m) : call.current = call.entry := by
  funext i
  by_cases inside : i < m
  · simp [Call.current,point,inside]
  · simp [Call.current,point,inside,chunk_outside _ (Nat.le_of_not_lt inside)]

section
variable {masks : Masks} {first : Bank 32} {s t : State masks.chunks} {e : Event} {call : Call masks.chunks}
  {outer : List (Call masks.chunks)}

theorem Sound.top (sound : Sound masks first s) (running : s.calls = call::outer) :
    s.iser = call.current ∧ Nested first call.entry outer ∧ call.Sound masks := by
  have nested := sound.nested
  rw [running] at nested
  exact ⟨nested.1,nested.2,sound.calls call (by simp [running])⟩

-- A step of the innermost call answers for that call alone.
theorem Sound.advance (sound : Sound masks first s) (running : s.calls = call::outer) (next : Call masks.chunks)
    (same : next.entry = call.entry) (own : next.Sound masks) {iser : Bank 32} (now : iser = next.current) :
    Sound masks first ⟨iser,next::outer⟩ := by
  refine ⟨⟨now,same ▸ (sound.top running).2.1⟩,?_⟩
  intro other member
  rcases List.mem_cons.mp member with rfl | around
  · exact own
  · exact sound.calls other (by simp [running,around])

theorem Sound.move (sound : Sound masks first s) (running : s.calls = call::outer) (ordinary : call.point ≠ .section_)
    (kept : ∀ i, call.mask.chunk i ≠ 0 → call.point.saved i) {point : Point} {iser : Bank 32}
    (now : iser = ({call with point := point} : Call _).current) :
    Sound masks first ⟨iser,{call with point := point}::outer⟩ := by
  obtain ⟨_,_,own⟩ := sound.top running
  exact sound.advance running {call with point := point} rfl
    ⟨fun _ => own.masked ordinary,fun i _ masked => own.saved i (kept i masked) masked⟩ now

theorem Sound.begin (sound : Sound masks first s) (entered : call.current = s.iser) (entry : call.entry = s.iser)
    (own : call.Sound masks) : Sound masks first ⟨s.iser,call::s.calls⟩ := by
  refine ⟨⟨entered.symm,entry ▸ sound.nested⟩,?_⟩
  intro other member
  rcases List.mem_cons.mp member with rfl | around
  · exact own
  · exact sound.calls other around

theorem Sound.finish (sound : Sound masks first s) (running : s.calls = call::outer) (left : call.current = call.entry) :
    s.iser = call.entry ∧ Sound masks first ⟨s.iser,outer⟩ := by
  obtain ⟨now,around,_⟩ := sound.top running
  rw [left] at now
  exact ⟨now,now ▸ around,fun other member => sound.calls other (by simp [running,member])⟩

theorem step_sound (sound : Sound masks first s) (taken : Step masks s e t) : Sound masks first t := by
  cases taken with
  | disabled highest =>
    exact sound.begin rfl rfl ⟨fun other => absurd rfl other,fun _ none_ => none_.elim⟩
  | enabled running point =>
    exact (sound.finish running (by funext i; simp [Call.current,point])).2
  | called lower computed =>
    exact sound.begin rfl rfl ⟨fun _ => ⟨lower,computed⟩,fun _ before => absurd before (Nat.not_lt_zero _)⟩
  | read running point more =>
    rename_i call outer i
    obtain ⟨now,_,own⟩ := sound.top running
    have entry : s.iser = call.entry := by
      rw [now]
      funext i
      simp [Call.current,point]
    have next : ({call with oldMask := readMask s.iser call.mask call.oldMask i,point := .reading (i+1)} :
        Call _).Sound masks := by
      refine ⟨fun _ => own.masked (by simp [point]),?_⟩
      intro j before masked
      have before : j < i+1 := before
      unfold readMask
      by_cases here : j = i
      · subst here
        rw [if_pos masked,chunk_setIfInBounds,if_pos more,Function.update_self,entry]
      · have kept := own.saved j (by rw [point]; exact (by omega : j < i)) masked
        split
        · rw [chunk_setIfInBounds,if_pos more,Function.update_of_ne here]
          exact kept
        · exact kept
    exact sound.advance running {call with oldMask := _,point := .reading (i+1)} rfl next entry
  | kept running point =>
    rename_i call outer
    have same : call.current = ({call with point := .clearing 0} : Call _).current := by
      funext i
      simp [Call.current,point]
    refine sound.move running (by simp [point]) ?_ ((sound.top running).1.trans same)
    intro i masked
    rw [point]
    by_contra outside
    exact masked (chunk_outside _ (Nat.le_of_not_lt outside))
  | cleared running point more =>
    refine sound.move running (by simp [point]) (fun _ _ => by simp [point,Point.saved]) ?_
    rw [(sound.top running).1]
    exact current_clears point
  | entered running point =>
    refine sound.move running (by simp [point]) (fun _ _ => by simp [point,Point.saved]) ?_
    exact (sound.top running).1.trans (current_entered point)
  | left running point =>
    rename_i call outer
    have same : call.current = ({call with point := .restoring 0} : Call _).current := by
      funext i
      simp [Call.current,point]
    refine sound.move running (by simp [point]) (fun _ _ => by simp [point,Point.saved]) ?_
    exact (sound.top running).1.trans same
  | restored running point more =>
    obtain ⟨now,_,own⟩ := sound.top running
    refine sound.move running (by simp [point]) (fun _ _ => by simp [point,Point.saved]) ?_
    rw [now]
    exact current_restores own point
  | returned running point => exact (sound.finish running (current_returned point)).2

theorem initial_sound : Sound masks first ⟨first,[]⟩ := ⟨rfl,by simp⟩

theorem run_sound (run : Run masks first s) : Sound masks first s :=
  run.invariant (fun _ s => Sound masks first s) initial_sound step_sound

theorem step_restores (sound : Sound masks first s) (taken : Step masks s e t) : Restores s t := by
  intro call split
  cases taken with
  | disabled | called => exact absurd (congrArg List.length split) (by simp; omega)
  | read running | kept running | cleared running | entered running | left running | restored running =>
    rw [running] at split
    exact absurd (congrArg List.length split) (by simp)
  | enabled running point =>
    rw [running] at split
    cases split
    exact (sound.finish running (by funext i; simp [Call.current,point])).1
  | returned running point =>
    rw [running] at split
    cases split
    exact (sound.finish running (current_returned point)).1
end

-- Calls only take enables away.
theorem mem_current {call : Call m} {number : Nat} (enabled : number ∈ bits call.current) : number ∈ bits call.entry := by
  rw [BitBank.mem_bits] at enabled ⊢
  unfold Call.current at enabled
  split at enabled
  · exact enabled
  · exact enabled
  · split at enabled
    · exact ((Bool.and_eq_true _ _).mp (BitVec.getLsbD_and ▸ enabled)).1
    · exact enabled
  · exact ((Bool.and_eq_true _ _).mp (BitVec.getLsbD_and ▸ enabled)).1
  · split at enabled
    · exact enabled
    · exact ((Bool.and_eq_true _ _).mp (BitVec.getLsbD_and ▸ enabled)).1

-- What a call does not mask it leaves as it was.
theorem current_other {call : Call m} {number : Nat} (unmasked : call.point ≠ .section_ → number ∉ call.mask.bits) :
    number ∈ bits call.current ↔ number ∈ bits call.entry := by
  refine ⟨mem_current,fun enabled => ?_⟩
  rw [BitBank.mem_bits] at enabled ⊢
  by_cases ordinary : call.point = .section_
  · simpa [Call.current,ordinary] using enabled
  · have free : (call.mask.chunk (number/32)).getLsbD (number%32) = false := by
      simpa [Mask.bits] using unmasked ordinary
    have kept : (call.entry (number/32) &&& ~~~call.mask.chunk (number/32)).getLsbD (number%32) = true := by
      rw [BitVec.getLsbD_and,BitVec.getLsbD_not,enabled,free]
      simpa using BitVec.lt_of_getLsbD enabled
    unfold Call.current
    split
    · exact enabled
    · exact enabled
    · split
      · exact kept
      · exact enabled
    · exact kept
    · split
      · exact enabled
      · exact kept

theorem closure_masked {call : Call m} (point : call.point = .closure) {number : Nat} (masked : number ∈ call.mask.bits) :
    number ∉ bits call.current := by
  have set_ : (call.mask.chunk (number/32)).getLsbD (number%32) = true := masked
  simp [Call.current,point,set_]

section
variable {first iser : Bank 32} {calls : List (Call m)} {number : Nat}

theorem Nested.disabled (nested : Nested first iser calls) {call : Call m} (member : call ∈ calls)
    (off : number ∉ bits call.current) : number ∉ bits iser := by
  induction calls generalizing iser with
  | nil => cases member
  | cons top outer ih =>
    obtain ⟨rfl,around⟩ := nested
    rcases List.mem_cons.mp member with rfl | member
    · exact off
    · exact fun enabled => ih around member (mem_current enabled)

theorem Nested.same (nested : Nested first iser calls)
    (unmasked : ∀ call ∈ calls, call.point ≠ .section_ → number ∉ call.mask.bits) :
    number ∈ bits iser ↔ number ∈ bits first := by
  induction calls generalizing iser with
  | nil => rw [show iser = first from nested]
  | cons top outer ih =>
    obtain ⟨rfl,around⟩ := nested
    rw [current_other (unmasked top List.mem_cons_self)]
    exact ih around fun call member => unmasked call (List.mem_cons_of_mem _ member)
end

theorem Sound.obeys {assigned : List (Nat × Nat)} {masks : Masks} (generated : generateMasks assigned = some masks)
    {first : Bank 32} {s : State masks.chunks} (sound : Sound masks first s) : Obeys assigned first s := by
  constructor
  case masked =>
    intro call member point priority number listed positive within
    obtain ⟨low,computed⟩ := (sound.calls call member).masked (by simp [point])
    have masked := (generateMasks_bits generated computed (by omega)).mpr ⟨priority,listed,positive,within⟩
    exact sound.nested.disabled member (closure_masked point masked)
  case above =>
    intro number higher
    refine sound.nested.same fun call member ordinary masked => ?_
    obtain ⟨low,computed⟩ := (sound.calls call member).masked ordinary
    obtain ⟨priority,listed,_,within⟩ := (generateMasks_bits generated computed (by omega)).mp masked
    exact absurd (higher call member priority listed) (Nat.not_lt_of_le within)

-- For every assignment of numbers to priorities and whatever was enabled at first.
theorem lock_exact (assigned : List (Nat × Nat)) :
    ∃ masks, generateMasks assigned = some masks ∧
      (∀ ceiling ≤ 3, ∃ mask, computeMask 0 ceiling masks.levels = some mask ∧
        ∀ n, n ∈ mask.bits ↔ ∃ priority, (priority,n) ∈ assigned ∧ 1 ≤ priority ∧ priority ≤ ceiling) ∧
      ∀ first s (run : Run masks first s), run.Through (fun _ s => Obeys assigned first s) ∧
        run.Every fun _ s _ t => Restores s t := by
  obtain ⟨masks,generated⟩ := generateMasks_some assigned
  refine ⟨masks,generated,?_,?_⟩
  · intro ceiling small
    obtain ⟨mask,computed⟩ := computeMask_some masks.levels ceiling small
    exact ⟨mask,computed,fun n => generateMasks_bits generated computed small⟩
  · intro first s run
    constructor
    · exact run.through_of (fun _ s => Sound masks first s) initial_sound (fun sound taken _ => step_sound sound taken)
        (fun sound => sound.obeys generated) run.every_true
    · exact run.every (fun _ s => Sound masks first s) initial_sound step_sound
        (fun sound taken => step_restores sound taken)

-- The calls that the frames of an application have in progress, without their ghosts.
def pointCalls : CortexSourceMask.Point m → List (Point × Mask m × Mask m)
  | .body => []
  | .reading _ mask out i => [(.reading i,mask,out)]
  | .clearing _ mask oldMask i => [(.clearing i,mask,oldMask)]
  | .restoring mask oldMask i => [(.restoring i,mask,oldMask)]

def heldCall (lock : CortexSourceMask.Held m) : Point × Mask m × Mask m :=
  match lock.entry with
  | .section_ _ => (.section_,Mask.zero m,Mask.zero m)
  | .masks mask oldMask => (.closure,mask,oldMask)

def stackCalls (stack : List (CortexSourceMask.Frame m)) : List (Point × Mask m × Mask m) :=
  stack.flatMap fun f => pointCalls f.point++f.held.map heldCall

def Call.variables (call : Call m) : Point × Mask m × Mask m := (call.point,call.mask,call.oldMask)

structure Shows (u : State m) (s : CortexSourceMask.State m) : Prop where
  iser : u.iser = s.iser
  calls : u.calls.map Call.variables = stackCalls s.stack

@[simp] theorem stackCalls_cons (f : CortexSourceMask.Frame m) (below : List (CortexSourceMask.Frame m)) :
    stackCalls (f::below) = pointCalls f.point++(f.held.map heldCall++stackCalls below) := by
  simp [stackCalls]

section
open CortexSourceMask (Device)
variable {device : Device} {app : Syntax.App} {analysis : Syntax.Analyze.Analysis} {masks : Masks}
  {s t : CortexSourceMask.State masks.chunks} {e : CortexSourceMask.Event} {u : State masks.chunks}

-- The innermost call, where the running handler is in one.
theorem Shows.top (shows_ : Shows u s) {point : Point} {mask oldMask : Mask masks.chunks}
    {rest : List (Point × Mask masks.chunks × Mask masks.chunks)} (first : stackCalls s.stack = (point,mask,oldMask)::rest) :
    ∃ call outer, u.calls = call::outer ∧ call.point = point ∧ call.mask = mask ∧ call.oldMask = oldMask ∧
      outer.map Call.variables = rest := by
  have calls := shows_.calls
  rw [first] at calls
  obtain ⟨call,outer,split,same,more⟩ := List.map_eq_cons_iff.mp calls
  cases same
  exact ⟨call,outer,split,rfl,rfl,rfl,more⟩

-- A step of an application is a step of its calls, or none of theirs.
theorem application_step (shows_ : Shows u s) (taken : CortexSourceMask.Step device app analysis masks s e t) :
    ∃ v, (v = u ∨ ∃ event, Step masks u event v) ∧ Shows v t := by
  cases taken with
  | preempted running member above delivered =>
    exact ⟨u,Or.inl rfl,shows_.iser,by simpa [pointCalls] using shows_.calls⟩
  | called running point free mine =>
    exact ⟨u,Or.inl rfl,shows_.iser,by simpa [running,point,free] using shows_.calls⟩
  | returned running handler point free =>
    exact ⟨u,Or.inl rfl,shows_.iser,by simpa [running,point,free,pointCalls] using shows_.calls⟩
  | disabled running point task mine highest =>
    refine ⟨_,Or.inr ⟨_,.disabled highest⟩,shows_.iser,?_⟩
    simpa [running,point,pointCalls,heldCall,Call.variables] using shows_.calls
  | computed running point task mine lower computed =>
    refine ⟨_,Or.inr ⟨_,.called lower computed⟩,shows_.iser,?_⟩
    simpa [running,point,pointCalls,Call.variables] using shows_.calls
  | read running point more =>
    obtain ⟨call,outer,split,at_,mask,oldMask,rest⟩ := shows_.top (by rw [running,stackCalls_cons,point]; rfl)
    refine ⟨_,Or.inr ⟨_,.read split at_ more⟩,shows_.iser,?_⟩
    simp [Call.variables,pointCalls,shows_.iser,mask,oldMask,rest]
  | kept running point =>
    obtain ⟨call,outer,split,at_,mask,oldMask,rest⟩ := shows_.top (by rw [running,stackCalls_cons,point]; rfl)
    refine ⟨_,Or.inr ⟨_,.kept split at_⟩,shows_.iser,?_⟩
    simp [Call.variables,pointCalls,mask,oldMask,rest]
  | cleared running point more =>
    obtain ⟨call,outer,split,at_,mask,oldMask,rest⟩ := shows_.top (by rw [running,stackCalls_cons,point]; rfl)
    refine ⟨_,Or.inr ⟨_,.cleared split at_ more⟩,by rw [shows_.iser,mask],?_⟩
    simp [Call.variables,pointCalls,mask,oldMask,rest]
  | entered running point =>
    obtain ⟨call,outer,split,at_,mask,oldMask,rest⟩ := shows_.top (by rw [running,stackCalls_cons,point]; rfl)
    refine ⟨_,Or.inr ⟨_,.entered split at_⟩,shows_.iser,?_⟩
    simp [Call.variables,pointCalls,heldCall,mask,oldMask,rest]
  | enabled running point inner =>
    obtain ⟨call,outer,split,at_,_,_,rest⟩ := shows_.top (by rw [running,stackCalls_cons,point,inner]; rfl)
    refine ⟨_,Or.inr ⟨_,.enabled split at_⟩,shows_.iser,?_⟩
    simpa [point,pointCalls] using rest
  | left running point inner =>
    obtain ⟨call,outer,split,at_,mask,oldMask,rest⟩ := shows_.top (by rw [running,stackCalls_cons,point,inner]; rfl)
    refine ⟨_,Or.inr ⟨_,.left split at_⟩,shows_.iser,?_⟩
    simpa [Call.variables,pointCalls,mask,oldMask] using rest
  | restored running point more =>
    obtain ⟨call,outer,split,at_,mask,oldMask,rest⟩ := shows_.top (by rw [running,stackCalls_cons,point]; rfl)
    refine ⟨_,Or.inr ⟨_,.restored split at_ more⟩,by rw [shows_.iser,mask,oldMask],?_⟩
    simp [Call.variables,pointCalls,mask,oldMask,rest]
  | unlocked running point =>
    obtain ⟨call,outer,split,at_,_,_,rest⟩ := shows_.top (by rw [running,stackCalls_cons,point]; rfl)
    refine ⟨_,Or.inr ⟨_,.returned split at_⟩,shows_.iser,?_⟩
    simpa [pointCalls] using rest

theorem application_run (run : CortexSourceMask.Run device app analysis masks s) :
    ∃ u, Nonempty (Run masks (CortexSourceMask.initial device app masks).iser u) ∧ Shows u s := by
  induction run with
  | start => exact ⟨_,⟨.start⟩,rfl,rfl⟩
  | snoc prior event taken ih =>
    obtain ⟨u,⟨calls⟩,shows_⟩ := ih
    obtain ⟨v,rfl | ⟨event',step⟩,shows'⟩ := application_step shows_ taken
    · exact ⟨_,⟨calls⟩,shows'⟩
    · exact ⟨v,⟨calls.snoc event' step⟩,shows'⟩

-- While no task is in a lock, the enables are those of the start-up code.
theorem application_rests (run : CortexSourceMask.Run device app analysis masks s) (outside : stackCalls s.stack = []) :
    s.iser = (CortexSourceMask.initial device app masks).iser := by
  obtain ⟨u,⟨calls⟩,shows_⟩ := application_run run
  have sound := run_sound calls
  have idle : u.calls = [] := by simpa [outside] using shows_.calls
  have nested := sound.nested
  rw [idle] at nested
  exact shows_.iser.symm.trans nested
end

end Rtic.Export.SourceMaskRestore
