import Rtic.Library.Behaviors
import Rtic.Library.WaitLine
import Rtic.Sync.ArbiterOwnership
namespace Rtic.Sync.Arbiter
open Function Transition Behaviors Rtic.Common

abbrev Behavior := Behaviors.Behavior Step initial

-- Whoever has the access drops it some time, a future that has been woken is polled or dropped, and what its executor
-- or its owner has begun comes to its end.
structure Fair (b : Behavior) : Prop where
  releases : ∀ n, 0 < (b.state n).tokens → b.Comes n fun e => ∃ handed, e = .released handed
  polls : ∀ n i, (b.state n).point i = .waiting → (b.state n).waitQueue.popped i →
    b.Comes n fun e => (∃ waker outcome, e = .polled i waker outcome) ∨ e = .cancelled i
  unlinks : ∀ n i ready, (b.state n).point i = .unlink ready → b.Comes n (· = .unlinked i ready)
  obtains : ∀ n i, (b.state n).point i = .granted → b.Comes n (· = .obtained i)

-- The future has the access, or it has been dropped.
def Settled (i : Nat) (e : Event) : Prop := e = .obtained i ∨ e = .unlinked i false

section
variable {s t : State} {e : Event} {i : Nat} {evs : List Event} {d : Nat}

-- A future that waits for its next poll does so until it is polled, where none is dropped then.
theorem step_awaits (kept : Kept evs s e t) (waiting : s.point i = .waiting) (popped : s.waitQueue.popped i)
    (taken : Step s e t) :
    (∃ waker outcome, e = .polled i waker outcome) ∨ t.point i = .waiting ∧ t.waitQueue.popped i := by
  have apart : ∀ {j}, s.point j ≠ .waiting → i ≠ j := fun other same => other (same ▸ waiting)
  obtain ⟨waker,linked⟩ := popped
  cases taken with
  | created here => exact .inr ⟨(update_of_ne (apart (by simp [here])) _ _).trans waiting,waker,linked⟩
  | forgotten here => exact .inr ⟨(update_of_ne (apart (by simp [here])) _ _).trans waiting,waker,linked⟩
  | polled here result =>
    rename_i outcome next j other
    by_cases same : i = j
    · subst same
      exact .inl ⟨_,_,rfl⟩
    · refine .inr ⟨(update_of_ne same _ _).trans waiting,waker,?_⟩
      rcases poll_cases result with ⟨_,_,_,rfl⟩ | ⟨_,⟨_,_,_,rfl⟩ | ⟨_,_,rfl⟩ | ⟨_,_,rfl⟩⟩
      · exact linked
      · exact linked
      · exact linked
      · exact (WaitQueue.push_other same).trans linked
  | unlinked here =>
    have other := apart (by rw [here]; simp)
    exact .inr ⟨(update_of_ne other _ _).trans waiting,waker,(WaitQueue.removeFromList_other other).trans linked⟩
  | obtained here =>
    have other := apart (by rw [here]; simp)
    exact .inr ⟨(update_of_ne other _ _).trans waiting,waker,(WaitQueue.free_other other).trans linked⟩
  | cancelled here =>
    rename_i j
    by_cases same : i = j
    · subst same
      exact absurd ⟨waker,linked⟩ kept
    · exact .inr ⟨(update_of_ne same _ _).trans waiting,waker,linked⟩
  | dropped here =>
    have other := apart (by rw [here]; simp)
    exact .inr ⟨(update_of_ne other _ _).trans waiting,waker,
      ((WaitQueue.free_other other).trans (WaitQueue.removeFromList_other other)).trans linked⟩
  | tryAccessed result => rcases tryAccess_cases result with ⟨_,_,_,rfl⟩ | ⟨_,rfl⟩ <;> exact .inr ⟨waiting,waker,linked⟩
  | released held result =>
    rcases release_cases result with ⟨_,_,rfl⟩ | ⟨j,rest,link,_,here,_,rfl⟩
    · exact .inr ⟨waiting,waker,linked⟩
    · refine .inr ⟨waiting,?_⟩
      by_cases same : i = j
      · subst same
        exact ⟨link.waker,update_self _ _ _⟩
      · exact ⟨waker,(update_of_ne same _ _).trans linked⟩

-- What is queued stays in the queue, and nobody gets before it.
theorem step_queued (locked : Locked evs s) (queued : i ∈ s.waitQueue.queue) (taken : Step s e t) :
    e = .unlinked i false ∨ (∃ waker, e = .released (some (i,waker)) ∧ t.waitQueue.popped i ∧ t.point i = s.point i) ∨
      i ∈ t.waitQueue.queue ∧ t.waitQueue.queue.idxOf i ≤ s.waitQueue.queue.idxOf i ∧
        ∀ handed, e = .released handed → t.waitQueue.queue.idxOf i < s.waitQueue.queue.idxOf i := by
  obtain ⟨lock,_,refines⟩ := locked
  cases taken with
  | polled here result =>
    rcases poll_cases result with ⟨_,_,_,rfl⟩ | ⟨_,⟨_,_,_,rfl⟩ | ⟨_,_,rfl⟩ | ⟨_,_,rfl⟩⟩
    · exact .inr (.inr ⟨queued,Nat.le_refl _,nofun⟩)
    · exact .inr (.inr ⟨queued,Nat.le_refl _,nofun⟩)
    · exact .inr (.inr ⟨queued,Nat.le_refl _,nofun⟩)
    · refine .inr (.inr ⟨List.mem_append_left _ queued,?_,nofun⟩)
      exact Nat.le_of_eq (List.idxOf_append_of_mem queued)
  | unlinked here =>
    rename_i j
    have out : s.waitQueue.removeFromList j = s.waitQueue := WaitQueue.removeFromList_out (refines.out j (.inl here))
    refine .inr (.inr ?_)
    dsimp only
    rw [out]
    exact ⟨queued,Nat.le_refl _,nofun⟩
  | dropped here =>
    rename_i j
    by_cases same : i = j
    · subst same
      exact .inl rfl
    · have queue : ((s.waitQueue.removeFromList j).free j).queue = s.waitQueue.queue.erase j :=
        WaitQueue.removeFromList_queue refines.queue
      refine .inr (.inr ?_)
      dsimp only
      rw [queue]
      exact ⟨(List.mem_erase_of_ne same).mpr queued,WaitLine.idxOf_erase_le same,nofun⟩
  | tryAccessed result =>
    rcases tryAccess_cases result with ⟨_,_,_,rfl⟩ | ⟨_,rfl⟩ <;> exact .inr (.inr ⟨queued,Nat.le_refl _,nofun⟩)
  | released held result =>
    rcases release_cases result with ⟨empty,_,rfl⟩ | ⟨j,rest,link,queue,_,rfl,rfl⟩
    · rw [empty] at queued
      cases queued
    · rw [queue] at queued ⊢
      by_cases same : j = i
      · subst same
        exact .inr (.inl ⟨link.waker,rfl,⟨link.waker,update_self _ _ _⟩,rfl⟩)
      · have less : rest.idxOf i < (j::rest).idxOf i := by
          rw [List.idxOf_cons_ne _ same]
          exact Nat.lt_succ_self _
        exact .inr (.inr ⟨(List.mem_cons.mp queued).resolve_left (Ne.symm same),Nat.le_of_lt less,fun _ _ => less⟩)
  | _ => exact .inr (.inr ⟨queued,Nat.le_refl _,nofun⟩)

theorem Locked.queued_point (locked : Locked evs s) (queued : i ∈ s.waitQueue.queue) :
    s.point i = .waiting ∨ s.point i = .unlink false := by
  obtain ⟨lock,_,refines⟩ := locked
  have waits := (refines.queue.queued i).mp queued
  obtain ⟨waker,linked⟩ := waits
  cases at_ : s.point i with
  | waiting => exact .inl rfl
  | gone =>
    rw [refines.unlinked i (.inl at_)] at linked
    cases linked
  | fresh =>
    rw [refines.unlinked i (.inr at_)] at linked
    cases linked
  | granted => exact absurd ⟨waker,linked⟩ (refines.out i (.inr at_))
  | unlink ready =>
    cases ready with
    | true => exact absurd ⟨waker,linked⟩ (refines.out i (.inl at_))
    | false => exact .inr rfl

theorem step_granted (recoverable : Recoverable evs s) (waiting : s.point i = .waiting) (popped : s.waitQueue.popped i)
    {waker : Waker} {outcome : Polled} (taken : Step s (.polled i waker outcome) t) : t.point i = .unlink true := by
  cases taken with
  | polled here result =>
    have granted := recoverable.2.1 i waker waiting popped
    rw [result] at granted
    subst granted
    exact update_self _ _ _

theorem step_unlinked (taken : Step s (.unlinked i true) t) : t.point i = .granted := by
  cases taken with
  | unlinked here => exact update_self _ _ _

theorem step_obtained (taken : Step s (.obtained i) t) : 0 < t.tokens := by
  cases taken with
  | obtained here => exact Nat.succ_pos _
end

section
variable {b : Behavior} {i n : Nat}

theorem every_recoverable (kept : b.Every Kept) (n : Nat) :
    Locked (b.events n) (b.state n) ∧ Recoverable (b.events n) (b.state n) := by
  refine b.guarded (fun evs s => Locked evs s ∧ Recoverable evs s)
    ⟨initial_locked,initial_locked.recoverable.mpr nofun⟩ (fun both taken kept => ?_) kept n
  have locked := step_locked both.1 taken
  exact ⟨locked,locked.recoverable.mpr ((step_kept both.1 both.2.1 taken).mpr kept)⟩

theorem Fair.unlinking (fair : Fair b) (here : (b.state n).point i = .unlink true) : b.Comes n (· = .obtained i) := by
  obtain ⟨m,later,_,unlinked,rfl⟩ := fair.unlinks n i true here
  exact (fair.obtains (m+1) i (step_unlinked (b.taken m _ unlinked))).later (Nat.le_succ_of_le later)

-- A future that has been woken gets the access.
theorem Fair.granted (fair : Fair b) (kept : b.Every Kept) (waiting : (b.state n).point i = .waiting)
    (popped : (b.state n).waitQueue.popped i) : b.Comes n (· = .obtained i) := by
  let awaits (_ : List Event) (s : State) : Prop := s.point i = .waiting ∧ s.waitQueue.popped i
  have keeps : ∀ m e, n ≤ m → b.event m = some e → awaits (b.events m) (b.state m) →
      ((∃ waker outcome, e = .polled i waker outcome) ∨ e = .cancelled i) ∨ False ∨
        awaits (b.events (m+1)) (b.state (m+1)) := fun m e _ here ⟨waiting,popped⟩ =>
    (step_awaits (kept m e here) waiting popped (b.taken m e here)).imp .inl .inr
  obtain ⟨m,later,⟨waiting,popped⟩,stop | ⟨e,here,⟨waker,outcome,rfl⟩ | rfl⟩⟩ :=
    b.meets awaits ⟨waiting,popped⟩ keeps (fair.polls n i waiting popped)
  · exact stop.elim
  · have granted := step_granted (every_recoverable kept m).2 waiting popped (b.taken m _ here)
    exact (fair.unlinking granted).later (Nat.le_succ_of_le later)
  · exact absurd popped (kept m _ here)

theorem Fair.passes (fair : Fair b) (obtained : b.event n = some (.obtained i)) :
    b.Comes n fun e => ∃ handed, e = .released handed :=
  (fair.releases (n+1) (step_obtained (b.taken n _ obtained))).later (Nat.le_succ n)

-- An access that is taken is returned.
theorem Fair.returned (fair : Fair b) (kept : b.Every Kept) (taken : (b.state n).taken = true) :
    b.Comes n fun e => ∃ handed, e = .released handed := by
  have through : ∀ i, b.Comes n (· = .obtained i) → b.Comes n fun e => ∃ handed, e = .released handed := by
    rintro i ⟨m,later,_,obtained,rfl⟩
    exact (fair.passes obtained).later later
  obtain ⟨o,live⟩ := (every_recoverable kept n).2.1 taken
  cases o with
  | token => exact fair.releases n live
  | future i =>
    rcases live with unlink | granted | ⟨waiting,popped⟩
    · exact through i (fair.unlinking unlink)
    · exact through i (fair.obtains n i granted)
    · exact through i (fair.granted kept waiting popped)

-- A future that is woken at this moment settles.
theorem Fair.woken_settles (fair : Fair b) (kept : b.Every Kept) {waker : Waker}
    (queued : i ∈ (b.state n).waitQueue.queue) (released : b.event n = some (.released (some (i,waker))))
    (popped : (b.state (n+1)).waitQueue.popped i) (same : (b.state (n+1)).point i = (b.state n).point i) :
    b.Comes n (Settled i) := by
  have waiting := ((every_recoverable kept n).1.queued_point queued).resolve_right (kept n _ released)
  obtain ⟨m,later,e,here,obtained⟩ := fair.granted kept (same.trans waiting) popped
  exact ⟨m,Nat.le_of_succ_le later,e,here,.inl obtained⟩

end

-- No future that waits for the access waits for ever, unless one is dropped that has been granted it.
theorem access_obtained (b : Behavior) (kept : b.Every Kept) (fair : Fair b) (n i : Nat)
    (queued : i ∈ (b.state n).waitQueue.queue) : b.Comes n (Settled i) := by
  -- the place in the queue goes down with each access that is returned
  let near (_ : List Event) (s : State) (d : Nat) : Prop := i ∈ s.waitQueue.queue ∧ s.waitQueue.queue.idxOf i ≤ d
  have locked (m : Nat) := (every_recoverable kept m).1
  obtain ⟨m,later,settles⟩ : ∃ m, n ≤ m ∧ b.Comes m (Settled i) := by
    refine b.arrives (p:=fun e => ∃ handed, e = .released handed) near ?_ ?_ ?_ ⟨queued,Nat.le_refl _⟩
    · exact fun m d ⟨queued,_⟩ => fair.returned kept ((locked m).busy (List.ne_nil_of_mem queued))
    · intro m d e here ⟨queued,place⟩
      rcases step_queued (locked m) queued (b.taken m e here) with left | ⟨waker,released,popped,same⟩ | ⟨still,nearer,_⟩
      · exact .inr (.inl ⟨m,Nat.le_refl m,e,here,.inr left⟩)
      · exact .inl ⟨_,released⟩
      · exact .inr (.inr ⟨still,Nat.le_trans nearer place⟩)
    · intro m d e here ⟨queued,place⟩ ⟨handed,returned⟩
      rcases step_queued (locked m) queued (b.taken m e here) with left | ⟨waker,released,popped,same⟩ | ⟨still,_,less⟩
      · exact .inl ⟨m,Nat.le_refl m,e,here,.inr left⟩
      · exact .inl (fair.woken_settles kept queued (released ▸ here) popped same)
      · exact .inr ⟨_,Nat.lt_of_lt_of_le (less handed returned) place,still,Nat.le_refl _⟩
  exact settles.later later

-- A future waits for another context and has the access, and then nothing happens any more.
def waitsThenRests : Behavior :=
  .after (.created 0) (.created rfl) <|
  .after (.tryAccessed true) (.tryAccessed rfl) <|
  .after (.polled 0 ⟨1,0⟩ .queued) (.polled rfl rfl) <|
  .after (.released (some (0,⟨1,0⟩))) (.released (by decide) rfl) <|
  .after (.polled 0 ⟨1,0⟩ .granted) (.polled rfl rfl) <|
  .after (.unlinked 0 true) (.unlinked rfl) <|
  .after (.obtained 0) (.obtained rfl) <|
  .after (.released none) (.released (by decide) rfl) (.rest _)

theorem waitsThenRests_other (n i : Nat) (other : i ≠ 0) : (waitsThenRests.state n).point i = .gone := by
  match n with
  | 0 => rfl
  | 1 | 2 => exact update_of_ne other _ _
  | 3 | 4 | 5 | 6 | 7 => simp [waitsThenRests,Behavior.after,initial,update_of_ne other]
  | n+8 => simp [waitsThenRests,Behavior.after,Behavior.rest,initial]

theorem waitsThenRests_first (n : Nat) :
    ((waitsThenRests.state n).point 0 = .gone ∨ (waitsThenRests.state n).point 0 = .fresh) ∨
      n ≤ 4 ∧ (waitsThenRests.state n).point 0 = .waiting ∨ n ≤ 5 ∧ (waitsThenRests.state n).point 0 = .unlink true ∨
      n ≤ 6 ∧ (waitsThenRests.state n).point 0 = .granted := by
  match n with
  | 0 => exact .inl (.inl rfl)
  | 1 | 2 => exact .inl (.inr rfl)
  | 3 | 4 => exact .inr (.inl ⟨by decide,rfl⟩)
  | 5 => exact .inr (.inr (.inl ⟨by decide,rfl⟩))
  | 6 => exact .inr (.inr (.inr ⟨by decide,rfl⟩))
  | 7 => exact .inl (.inl rfl)
  | n+8 => exact .inl (.inl rfl)

theorem waitsThenRests_kept : waitsThenRests.Every Kept := by
  intro n e here
  match n with
  | 0 | 1 | 2 | 4 | 5 | 6 | 7 =>
    cases here
    exact True.intro
  | 3 =>
    cases here
    exact FuturePoint.noConfusion
  | n+8 => cases here

theorem waitsThenRests_fair : Fair waitsThenRests := by
  refine ⟨fun n held => ?_,fun n i waiting _ => ?_,fun n i ready dropped => ?_,fun n i granted => ?_⟩
  · match n with
    | 0 | 1 => cases held
    | 2 | 3 => exact ⟨3,by decide,_,rfl,_,rfl⟩
    | 4 | 5 | 6 | 7 => exact ⟨7,by decide,_,rfl,_,rfl⟩
    | n+8 => cases held
  · by_cases first : i = 0
    · subst first
      rcases waitsThenRests_first n with (at_ | at_) | ⟨early,_⟩ | ⟨_,at_⟩ | ⟨_,at_⟩
      · cases at_.symm.trans waiting
      · cases at_.symm.trans waiting
      · exact ⟨4,early,_,rfl,.inl ⟨_,_,rfl⟩⟩
      · cases at_.symm.trans waiting
      · cases at_.symm.trans waiting
    · cases (waitsThenRests_other n i first).symm.trans waiting
  · by_cases first : i = 0
    · subst first
      rcases waitsThenRests_first n with (at_ | at_) | ⟨_,at_⟩ | ⟨early,at_⟩ | ⟨_,at_⟩
      · cases at_.symm.trans dropped
      · cases at_.symm.trans dropped
      · cases at_.symm.trans dropped
      · cases at_.symm.trans dropped
        exact ⟨5,early,_,rfl,rfl⟩
      · cases at_.symm.trans dropped
    · cases (waitsThenRests_other n i first).symm.trans dropped
  · by_cases first : i = 0
    · subst first
      rcases waitsThenRests_first n with (at_ | at_) | ⟨_,at_⟩ | ⟨_,at_⟩ | ⟨early,_⟩
      · cases at_.symm.trans granted
      · cases at_.symm.trans granted
      · cases at_.symm.trans granted
      · cases at_.symm.trans granted
      · exact ⟨6,early,_,rfl,rfl⟩
    · cases (waitsThenRests_other n i first).symm.trans granted

theorem waitsThenRests_obtained : waitsThenRests.Comes 3 (Settled 0) :=
  access_obtained waitsThenRests waitsThenRests_kept waitsThenRests_fair 3 0 List.mem_cons_self

end Rtic.Sync.Arbiter
