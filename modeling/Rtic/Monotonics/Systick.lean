import Mathlib.Algebra.Order.Group.Nat
import Mathlib.Data.List.Basic
import Rtic.Library.Transition
namespace Rtic.Monotonics.Systick
open Transition

-- The functions of SystickBackend that read COUNTFLAG.
inductive Call where
  | now
  | onInterrupt
  deriving DecidableEq, Repr

-- Before has_wrapped, fetch_add and load.
inductive Point where
  | hasWrapped
  | fetchAdd
  | load
  deriving DecidableEq, Repr

-- A call in progress, and how many wraps there had been when it started.
structure Frame where
  call : Call
  point : Point
  start : Nat
  deriving DecidableEq, Repr

-- `count` is SYSTICK_CNT, of 32 or 64 bits. `frames` are the calls in progress, each
-- preempted by the one before it in the list. `wraps` is the true time.
structure State (w : Nat) where
  flag : Bool
  count : BitVec w
  frames : List Frame
  wraps : Nat

inductive Event (w : Nat) where
  | wrapped
  | called (call : Call)
  | tested (hasWrapped : Bool)
  | added
  | loaded (value : BitVec w)
  deriving DecidableEq, Repr

-- What is left of a call once the wrap that it found is counted.
def Call.rest (call : Call) (start : Nat) : List Frame :=
  match call with
  | .now => [⟨.now,.load,start⟩]
  | .onInterrupt => []

-- Only the first frame runs; a call from a context of higher priority may come at any time.
inductive Step : State w → Event w → State w → Prop where
  | wrapped : Step s .wrapped {s with flag := true,wraps := s.wraps+1}
  | called : Step s (.called call) {s with frames := ⟨call,.hasWrapped,s.wraps⟩::s.frames}
  | found (running : s.frames = ⟨call,.hasWrapped,start⟩::below) (flag : s.flag = true) :
      Step s (.tested true) {s with flag := false,frames := ⟨call,.fetchAdd,start⟩::below}
  | notFound (running : s.frames = ⟨call,.hasWrapped,start⟩::below) (flag : s.flag = false) :
      Step s (.tested false) {s with frames := call.rest start++below}
  | added (running : s.frames = ⟨call,.fetchAdd,start⟩::below) :
      Step s .added {s with count := s.count+1,frames := call.rest start++below}
  -- `now` returns what it loads
  | loaded (running : s.frames = ⟨call,.load,start⟩::below) : Step s (.loaded s.count) {s with frames := below}

def initial : State w := ⟨false,0,[],0⟩

abbrev Run (s : State w) := Transition.Run Step (initial : State w) s

-- COUNTFLAG is read in each period, and the wraps can be counted in the width of SYSTICK_CNT.
def ReadEachPeriod (_ : List (Event w)) (s : State w) : Event w → State w → Prop
  | .wrapped,_ => s.flag = false
  | _,_ => True

def Fits (_ : List (Event w)) (_ : State w) : Event w → State w → Prop
  | .wrapped,t => t.wraps < 2^w
  | _,_ => True

def Frame.adds (frame : Frame) : Bool := decide (frame.point = .fetchAdd)

-- The calls that have found a wrap and have yet to add it.
def pending (s : State w) : Nat := s.frames.countP Frame.adds

-- The wraps whose flag has been read.
def found (s : State w) : Nat := s.wraps-s.flag.toNat

-- Each wrap is in the count, or about to be added by one call, or still in the flag.
def Counted (_ : List (Event w)) (s : State w) : Prop := s.count.toNat+pending s+s.flag.toNat = s.wraps

def NeverDecreases (evs : List (Event w)) (_ : State w) : Event w → State w → Prop
  | .loaded value,_ => ∀ earlier, .loaded earlier ∈ evs → earlier.toNat ≤ value.toNat
  | _,_ => True

-- The wraps go up one by one, so there is a moment in the call with each number
-- from the one at its start to the one at its end.
def Linearizable (_ : List (Event w)) (s : State w) : Event w → State w → Prop
  | .loaded value,_ => ∀ frame below, s.frames = frame::below →
    ∃ wraps, frame.start ≤ wraps ∧ wraps ≤ s.wraps ∧ value.toNat = wraps
  | _,_ => True

-- The calls that `now` preempted have no more wraps to add than came after it started and have been found.
def NotBehind (_ : List (Event w)) (s : State w) : Event w → State w → Prop
  | .loaded _,_ => ∀ frame below, s.frames = frame::below → frame.start+pending s ≤ found s
  | _,_ => True

section
variable {w : Nat} {evs : List (Event w)} {s t : State w} {e : Event w}

theorem pending_rest (call : Call) (start : Nat) (below : List Frame) :
    (call.rest start++below).countP Frame.adds = below.countP Frame.adds := by
  cases call <;> simp [Call.rest,Frame.adds]

-- There is room for the wrap that a call is about to add.
theorem count_succ (evs : List (Event w)) {call : Call} {start : Nat} {below : List Frame} (counted : Counted evs s) (fits : s.wraps < 2^w)
    (running : s.frames = ⟨call,.fetchAdd,start⟩::below) : (s.count+1).toNat = s.count.toNat+1 := by
  unfold Counted pending at counted
  rw [running] at counted
  have room : s.count.toNat+1 < 2^w := by
    simp [Frame.adds] at counted
    omega
  rw [BitVec.toNat_add,show BitVec.toNat 1 = 1%2^w from BitVec.toNat_ofNat 1 w,Nat.add_mod_mod,Nat.mod_eq_of_lt room]

theorem step_counted (counted : Counted evs s) (fits : s.wraps < 2^w) (taken : Step s e t)
    (read : ReadEachPeriod evs s e t) : Counted (evs++[e]) t := by
  unfold Counted pending at counted ⊢
  cases taken with
  | wrapped =>
    rw [show s.flag = false from read] at counted
    simpa using counted
  | called => simpa [Frame.adds] using counted
  | found running flag =>
    rw [running,flag] at counted
    simp [Frame.adds] at counted ⊢
    omega
  | notFound running flag =>
    rw [running] at counted
    simp only [pending_rest]
    simpa [Frame.adds] using counted
  | added running =>
    have next := count_succ evs counted fits running
    rw [running] at counted
    simp only [next,pending_rest]
    simp [Frame.adds] at counted
    omega
  | loaded running =>
    rw [running] at counted
    simpa [Frame.adds] using counted

structure Sound (evs : List (Event w)) (s : State w) : Prop where
  fits : s.wraps < 2^w
  counted : Counted evs s
  latest : ∀ value, .loaded value ∈ evs → value.toNat ≤ s.count.toNat

theorem initial_sound : Sound [] (initial : State w) := ⟨Nat.two_pow_pos w,by simp [Counted,initial,pending],nofun⟩

theorem step_fits (fits : s.wraps < 2^w) (taken : Step s e t) (guard : Fits evs s e t) : t.wraps < 2^w := by
  cases taken with
  | wrapped => exact guard
  | _ => exact fits

theorem Sound.count_le (sound : Sound evs s) : s.count.toNat ≤ s.wraps := by
  have counted := sound.counted
  unfold Counted at counted
  omega

theorem count_mono (sound : Sound evs s) (taken : Step s e t) : s.count.toNat ≤ t.count.toNat := by
  cases taken with
  | added running =>
    rw [count_succ _ sound.counted sound.fits running]
    exact Nat.le_succ _
  | _ => exact Nat.le_refl _

theorem step_sound (sound : Sound evs s) (taken : Step s e t) (read : ReadEachPeriod evs s e t)
    (fits : Fits evs s e t) : Sound (evs++[e]) t := by
  refine ⟨step_fits sound.fits taken fits,step_counted sound.counted sound.fits taken read,fun value member => ?_⟩
  have mono := count_mono sound taken
  rcases List.mem_append.mp member with before | last
  · exact Nat.le_trans (sound.latest value before) mono
  · cases List.mem_singleton.mp last
    cases taken
    exact Nat.le_refl _

theorem Sound.neverDecreases (sound : Sound evs s) (taken : Step s e t) : NeverDecreases evs s e t := by
  cases taken with
  | loaded running => exact sound.latest
  | _ => exact True.intro

theorem Sound.linearizable_iff (sound : Sound evs s) (taken : Step s e t) :
    Linearizable evs s e t ↔ NotBehind evs s e t := by
  cases taken with
  | loaded running =>
    have counted := sound.counted
    unfold Counted at counted
    refine forall₂_congr fun frame below => imp_congr_right fun _ => ?_
    unfold found
    constructor
    · rintro ⟨wraps,after,_,rfl⟩
      omega
    · intro caught
      exact ⟨_,by omega,sound.count_le,rfl⟩
  | _ => exact Iff.rfl
end

-- No wrap is lost or counted twice and the values never decrease, in every run; each
-- is the time at a moment of its call in exactly the runs where no call is behind.
theorem now_linearizable_iff {w : Nat} {s : State w} (run : Run s) (read : run.Every ReadEachPeriod)
    (fits : run.Every Fits) :
    run.Through Counted ∧ run.Every NeverDecreases ∧ (run.Every Linearizable ↔ run.Every NotBehind) := by
  have admitted := read.and fits
  have preserved : ∀ {evs : List (Event w)} {s e t}, Sound evs s → Step s e t →
      ReadEachPeriod evs s e t ∧ Fits evs s e t → Sound (evs++[e]) t :=
    fun sound taken guard => step_sound sound taken guard.1 guard.2
  refine ⟨?_,?_,?_⟩
  · exact run.through_of Sound initial_sound preserved (fun sound => sound.counted) admitted
  · exact run.every_of Sound initial_sound preserved (fun sound taken _ => sound.neverDecreases taken) admitted
  · exact run.every_iff_of Sound initial_sound preserved (fun sound taken _ => sound.linearizable_iff taken) admitted

-- A call finds the wrap and is preempted before it adds it; the call that preempts
-- it returns the time before the wrap.
def readsStale :=
  ((((((((Transition.Run.start : Run (w:=32) _).snoc
    .wrapped .wrapped).snoc
    (.called .now) .called).snoc
    (.tested true) (.found rfl rfl)).snoc
    (.called .now) .called).snoc
    (.tested false) (.notFound rfl rfl)).snoc
    (.loaded _) (.loaded rfl)).snoc
    .added (.added rfl)).snoc
    (.loaded _) (.loaded rfl)

theorem readsStale_read : readsStale.Every ReadEachPeriod :=
  ⟨⟨⟨⟨⟨⟨⟨⟨True.intro,rfl⟩,True.intro⟩,True.intro⟩,True.intro⟩,True.intro⟩,True.intro⟩,True.intro⟩,True.intro⟩

theorem readsStale_fits : readsStale.Every Fits :=
  ⟨⟨⟨⟨⟨⟨⟨⟨True.intro,Nat.one_lt_two_pow (by decide)⟩,True.intro⟩,True.intro⟩,True.intro⟩,True.intro⟩,True.intro⟩,
    True.intro⟩,True.intro⟩

theorem readsStale_counted : readsStale.Through Counted ∧ readsStale.Every NeverDecreases ∧
    ¬readsStale.Every Linearizable := by
  obtain ⟨counted,monotone_,exact_⟩ := now_linearizable_iff readsStale readsStale_read readsStale_fits
  refine ⟨counted,monotone_,fun linear => ?_⟩
  obtain ⟨⟨⟨_,behind⟩,_⟩,_⟩ := exact_.mp linear
  exact absurd (behind _ _ rfl) (by decide)

theorem readsStale_not_linearizable : ¬ ∀ (s : State 32) (run : Run s), run.Every ReadEachPeriod → run.Every Fits →
    run.Every Linearizable := by
  intro all
  obtain ⟨⟨⟨_,stale⟩,_⟩,_⟩ := all _ readsStale readsStale_read readsStale_fits
  obtain ⟨wraps,after,_,same⟩ := stale _ _ rfl
  cases same
  exact nomatch after

end Rtic.Monotonics.Systick
