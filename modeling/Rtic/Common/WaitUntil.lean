import Rtic.Common.WaitQueue
import Rtic.Library.Transition
namespace Rtic.Common.WaitUntil
open Function Transition

-- Where a `wait_until` future stands between two accesses to what it shares. Within
-- a poll, `waker` is the waker of that poll.
inductive FuturePoint where
  | gone
  -- before its first poll, and after one that returned Pending
  | fresh
  | waiting (waker : Waker)
  -- link_guard.execute(), the call of `f`, and push of the new link
  | unlink (waker : Waker)
  | evaluate (waker : Waker)
  | push (waker : Waker)
  -- the link_guard is dropped
  | dropping
  deriving DecidableEq, Repr

def FuturePoint.suspended : FuturePoint → Bool
  | .fresh => true
  | .waiting _ => true
  | _ => false

-- A link lies in the future only while one of these holds.
def FuturePoint.linked : FuturePoint → Bool
  | .waiting _ => true
  | .unlink _ => true
  | .dropping => true
  | _ => false

-- Where a notifier stands: it makes `f` return Some, then pops and wakes until
-- there is nothing to pop.
inductive NotifierPoint where
  | idle
  | pop
  | wake (i : Nat) (waker : Waker)
  deriving DecidableEq, Repr

-- `settled`: from now on `f` returns Some.
structure State where
  waitQueue : WaitQueue
  settled : Bool
  future : Nat → FuturePoint
  notifier : Nat → NotifierPoint

-- A future is named by its address, which may be taken again when it is gone.
inductive Event where
  | created (i : Nat)
  | polled (i : Nat) (waker : Waker)
  | unlinked (i : Nat)
  | evaluated (i : Nat) (found : Bool)
  | pushed (i : Nat)
  | forgotten (i : Nat)
  | cancelled (i : Nat)
  | dropped (i : Nat)
  | changed (k : Nat)
  | popped (k i : Nat)
  | woke (k i : Nat) (waker : Waker)
  | completed (k : Nat)
  deriving DecidableEq, Repr

inductive Step : State → Event → State → Prop where
  | created (here : s.future i = .gone) : Step s (.created i) {s with future := update s.future i .fresh}
  | polled (here : (s.future i).suspended = true) :
      Step s (.polled i waker) {s with future := update s.future i (.unlink waker)}
  | unlinked (here : s.future i = .unlink waker) :
      Step s (.unlinked i)
        {s with waitQueue := (s.waitQueue.removeFromList i).free i,future := update s.future i (.evaluate waker)}
  -- Poll::Ready ends the future
  | found (here : s.future i = .evaluate waker) :
      Step s (.evaluated i true) {s with future := update s.future i .gone}
  | notFound (here : s.future i = .evaluate waker) (unsettled : s.settled = false) :
      Step s (.evaluated i false) {s with future := update s.future i (.push waker)}
  | pushed (here : s.future i = .push waker) :
      Step s (.pushed i)
        {s with waitQueue := s.waitQueue.push i waker,future := update s.future i (.waiting waker)}
  -- drop of a future, with a link_guard only if it was polled
  | forgotten (here : s.future i = .fresh) : Step s (.forgotten i) {s with future := update s.future i .gone}
  | cancelled (here : s.future i = .waiting waker) :
      Step s (.cancelled i) {s with future := update s.future i .dropping}
  | dropped (here : s.future i = .dropping) :
      Step s (.dropped i)
        {s with waitQueue := (s.waitQueue.removeFromList i).free i,future := update s.future i .gone}
  | changed (here : s.notifier k = .idle) :
      Step s (.changed k) {s with settled := true,notifier := update s.notifier k .pop}
  | popped (here : s.notifier k = .pop) (result : s.waitQueue.pop = some (some (i,waker),next)) :
      Step s (.popped k i) {s with waitQueue := next,notifier := update s.notifier k (.wake i waker)}
  | woke (here : s.notifier k = .wake i waker) :
      Step s (.woke k i waker) {s with notifier := update s.notifier k .pop}
  | completed (here : s.notifier k = .pop) (result : s.waitQueue.pop = some (none,next)) :
      Step s (.completed k) {s with waitQueue := next,notifier := update s.notifier k .idle}

def initial : State := ⟨WaitQueue.new,false,fun _ => .gone,fun _ => .idle⟩

abbrev Run (s : State) := Transition.Run Step initial s

def Event.completes : Event → Bool
  | .completed _ => true
  | _ => false

def completed (evs : List Event) : Prop := ∃ e ∈ evs, e.completes = true

instance (evs : List Event) : Decidable (completed evs) :=
  inferInstanceAs (Decidable (∃ e ∈ evs, e.completes = true))

def Event.evaluates (i : Nat) : Event → Bool
  | .evaluated j _ => decide (j = i)
  | _ => false

-- A waker of the future at `i` has been woken after the last call of its `f`.
def woken (evs : List Event) (i : Nat) (waker : Waker) : Prop :=
  ∃ k, Event.woke k i waker ∈ since (Event.evaluates i) evs

-- A notifier has taken the waker out of the list and is about to wake it.
def inHand (s : State) (i : Nat) (waker : Waker) : Prop := ∃ k, s.notifier k = .wake i waker

def Woken (evs : List Event) (s : State) : Prop :=
  completed evs → ∀ i waker, s.future i = .waiting waker → woken evs i waker

def WokenOrInHand (evs : List Event) (s : State) : Prop :=
  completed evs → ∀ i waker, s.future i = .waiting waker → woken evs i waker ∨ inHand s i waker

-- No future puts its link into the list after a notifier has emptied it.
def NotLate (evs : List Event) (_ : State) : Event → State → Prop
  | .pushed _,_ => ¬completed evs
  | _,_ => True

-- No notifier ends while another one has the waker of a future in hand that waits for it.
def NoneInHand (_ : List Event) (s : State) : Event → State → Prop
  | .completed _,_ => ∀ i waker, s.future i = .waiting waker → ¬inHand s i waker
  | _,_ => True

section
variable {evs : List Event} {s t : State} {e : Event} {i : Nat} {waker : Waker}

theorem completed_snoc : completed (evs++[e]) ↔ completed evs ∨ e.completes = true := by
  simp [completed,or_and_right,exists_or]

theorem woken_keep (other : Event.evaluates i e = false) (before : woken evs i waker) : woken (evs++[e]) i waker := by
  obtain ⟨k,member⟩ := before
  refine ⟨k,?_⟩
  rw [since_snoc,other]
  exact List.mem_append_left _ member

theorem woken_now {k : Nat} : woken (evs++[.woke k i waker]) i waker := by
  refine ⟨k,?_⟩
  rw [since_snoc]
  exact List.mem_append_right _ List.mem_cons_self

-- Another notifier moves on, one that has nothing in hand.
theorem inHand_move {k : Nat} {point : NotifierPoint} (empty : ∀ j other, s.notifier k ≠ .wake j other)
    (held : inHand s i waker) : ∃ m, update s.notifier k point m = .wake i waker := by
  obtain ⟨m,holds⟩ := held
  have other : m ≠ k := by
    rintro rfl
    exact empty i waker holds
  exact ⟨m,(update_of_ne other _ _).trans holds⟩

-- Where the links lie, and whether those of the suspended futures were popped by a
-- notifier that has woken them or is about to.
structure Sound (evs : List Event) (s : State) : Prop where
  queue : s.waitQueue.Sound
  unlinked : ∀ i, (s.future i).linked = false → s.waitQueue.link i = none
  stored : ∀ i waker, s.future i = .waiting waker → ∃ isPopped, s.waitQueue.link i = some ⟨waker,isPopped⟩
  handed : ∀ i waker, s.future i = .waiting waker → s.waitQueue.popped i → woken evs i waker ∨ inHand s i waker

theorem initial_sound : Sound [] initial := ⟨WaitQueue.new_sound,fun _ _ => rfl,nofun,nofun⟩

-- The steps of one future that leave the list as it is.
theorem Sound.move {point : FuturePoint} (sound : Sound evs s) (silent : ∀ j, j ≠ i → Event.evaluates j e = false)
    (unlinked : point.linked = false → s.waitQueue.link i = none) (awake : ∀ waker, point ≠ .waiting waker) :
    Sound (evs++[e]) {s with future := update s.future i point} := by
  refine ⟨sound.queue,fun j out => ?_,fun j waker here => ?_,fun j waker here popped => ?_⟩ <;> by_cases same : j = i
  · subst same
    exact unlinked (by simpa using out)
  · exact sound.unlinked j (by simpa [update_of_ne same] using out)
  · subst same
    exact absurd (by simpa using here) (awake waker)
  · exact sound.stored j waker (by simpa [update_of_ne same] using here)
  · subst same
    exact absurd (by simpa using here) (awake waker)
  · have here : s.future j = .waiting waker := by simpa [update_of_ne same] using here
    exact (sound.handed j waker here popped).imp_left (woken_keep (silent j same))

-- The future takes its link out of the list, where a notifier may have popped it before.
theorem Sound.unlink {point : FuturePoint} (sound : Sound evs s) (silent : ∀ j, Event.evaluates j e = false)
    (awake : ∀ waker, point ≠ .waiting waker) :
    Sound (evs++[e]) {s with waitQueue := (s.waitQueue.removeFromList i).free i,future := update s.future i point} := by
  have link : ∀ j, j ≠ i → ((s.waitQueue.removeFromList i).free i).link j = s.waitQueue.link j := fun j other =>
    (WaitQueue.free_other other).trans (WaitQueue.removeFromList_other other)
  refine ⟨sound.queue.removeFromList.free WaitQueue.removeFromList_not_waits,fun j out => ?_,fun j waker here => ?_,
    fun j waker here popped => ?_⟩ <;> by_cases same : j = i
  · subst same
    exact WaitQueue.free_link
  · exact (link j same).trans (sound.unlinked j (by simpa [update_of_ne same] using out))
  · subst same
    exact absurd (by simpa using here) (awake waker)
  · rw [link j same]
    exact sound.stored j waker (by simpa [update_of_ne same] using here)
  · subst same
    exact absurd (by simpa using here) (awake waker)
  · have here : s.future j = .waiting waker := by simpa [update_of_ne same] using here
    have popped : s.waitQueue.popped j := by simpa [WaitQueue.popped,link j same] using popped
    exact (sound.handed j waker here popped).imp_left (woken_keep (silent j))

theorem step_sound (sound : Sound evs s) (taken : Step s e t) : Sound (evs++[e]) t := by
  cases taken with
  | created here =>
    rename_i i
    exact sound.move (fun _ _ => rfl) (fun _ => sound.unlinked i (by rw [here]; rfl)) nofun
  | polled here =>
    exact sound.move (fun _ _ => rfl) nofun nofun
  | unlinked here => exact sound.unlink (fun _ => rfl) nofun
  | found here =>
    rename_i i waker
    exact sound.move (fun j other => decide_eq_false other.symm) (fun _ => sound.unlinked i (by rw [here]; rfl)) nofun
  | notFound here unsettled =>
    rename_i i waker
    exact sound.move (fun j other => decide_eq_false other.symm) (fun _ => sound.unlinked i (by rw [here]; rfl)) nofun
  | pushed here =>
    rename_i i waker
    have unlinked : s.waitQueue.link i = none := sound.unlinked i (by rw [here]; rfl)
    refine ⟨sound.queue.push unlinked,fun j out => ?_,fun j waker here => ?_,fun j waker' here popped => ?_⟩ <;>
      by_cases same : j = i
    · subst same
      simp [FuturePoint.linked] at out
    · exact (WaitQueue.push_other same).trans (sound.unlinked j (by simpa [update_of_ne same] using out))
    · subst same
      have same : waker = _ := (FuturePoint.waiting.inj (by simpa using here)).symm
      subst same
      exact ⟨false,WaitQueue.push_link⟩
    · rw [WaitQueue.push_other same]
      exact sound.stored j waker (by simpa [update_of_ne same] using here)
    · subst same
      exact absurd ⟨waker,WaitQueue.push_link⟩ (WaitQueue.popped_not_waits popped)
    · have here : s.future j = .waiting waker' := by simpa [update_of_ne same] using here
      have popped : s.waitQueue.popped j := by simpa [WaitQueue.popped,WaitQueue.push_other same] using popped
      exact (sound.handed j waker' here popped).imp_left (woken_keep rfl)
  | forgotten here =>
    rename_i i
    exact sound.move (fun _ _ => rfl) (fun _ => sound.unlinked i (by rw [here]; rfl)) nofun
  | cancelled here => exact sound.move (fun _ _ => rfl) nofun nofun
  | dropped here => exact sound.unlink (fun _ => rfl) nofun
  | changed here =>
    refine ⟨sound.queue,sound.unlinked,sound.stored,fun j waker here' popped => ?_⟩
    exact (sound.handed j waker here' popped).imp (woken_keep rfl) (inHand_move (by rw [here]; nofun))
  | popped here result =>
    rename_i i waker next k
    have queue := sound.queue.pop result
    rcases WaitQueue.pop_cases result with ⟨_,empty,_⟩ | ⟨i',rest,link,_,linked,taken,rfl⟩
    · cases empty
    cases taken
    refine ⟨queue,fun j out => ?_,fun j waker here => ?_,fun j waker here' popped => ?_⟩ <;> by_cases same : j = i
    · subst same
      rw [sound.unlinked j out] at linked
      cases linked
    · exact (update_of_ne same _ _).trans (sound.unlinked j out)
    · subst same
      obtain ⟨_,stored⟩ := sound.stored j waker here
      rw [linked] at stored
      cases stored
      exact ⟨true,update_self j _ _⟩
    · obtain ⟨isPopped,stored⟩ := sound.stored j waker here
      exact ⟨isPopped,(update_of_ne same _ _).trans stored⟩
    · subst same
      obtain ⟨_,stored⟩ := sound.stored j waker here'
      rw [linked] at stored
      cases stored
      exact Or.inr ⟨k,update_self k _ _⟩
    · have popped : s.waitQueue.popped j := by simpa [WaitQueue.popped,update_of_ne same] using popped
      exact (sound.handed j waker here' popped).imp (woken_keep rfl) (inHand_move (by rw [here]; nofun))
  | woke here =>
    rename_i k i waker
    refine ⟨sound.queue,sound.unlinked,sound.stored,fun j waker' here' popped => ?_⟩
    rcases sound.handed j waker' here' popped with before | ⟨m,holds⟩
    · exact Or.inl (woken_keep rfl before)
    · by_cases same : m = k
      · subst same
        rw [here] at holds
        cases holds
        exact Or.inl woken_now
      · exact Or.inr ⟨m,(update_of_ne same _ _).trans holds⟩
  | completed here result =>
    rcases WaitQueue.pop_cases result with ⟨_,_,rfl⟩ | ⟨_,_,_,_,_,taken,_⟩
    · refine ⟨sound.queue,sound.unlinked,sound.stored,fun j waker here' popped => ?_⟩
      exact (sound.handed j waker here' popped).imp (woken_keep rfl) (inHand_move (by rw [here]; nofun))
    · cases taken

-- From the first completion on the list is empty, and no waker that a future waits for is in anybody's hand.
def Drained (evs : List Event) (s : State) : Prop := completed evs → s.waitQueue.queue = []
def Released (evs : List Event) (s : State) : Prop :=
  completed evs → ∀ i waker, s.future i = .waiting waker → ¬inHand s i waker

theorem Sound.unlink_empty (sound : Sound evs s) (empty : s.waitQueue.queue = []) :
    ((s.waitQueue.removeFromList i).free i).queue = [] := by
  rw [WaitQueue.free_queue,WaitQueue.removeFromList_queue sound.queue,empty]
  rfl

theorem step_drained (sound : Sound evs s) (drained : Drained evs s) (taken : Step s e t) (guard : NotLate evs s e t) :
    Drained (evs++[e]) t := by
  intro done
  rw [completed_snoc] at done
  cases taken with
  | unlinked here => exact sound.unlink_empty (drained (done.resolve_right nofun))
  | dropped here => exact sound.unlink_empty (drained (done.resolve_right nofun))
  | pushed here => exact absurd (done.resolve_right nofun) guard
  | popped here result =>
    have empty := drained (done.resolve_right nofun)
    rcases WaitQueue.pop_cases result with ⟨_,none_,_⟩ | ⟨_,_,_,queue,_⟩
    · cases none_
    · rw [empty] at queue
      cases queue
  | completed here result =>
    rcases WaitQueue.pop_cases result with ⟨empty,_,rfl⟩ | ⟨_,_,_,_,_,some_,_⟩
    · exact empty
    · cases some_
  | _ => exact drained (done.resolve_right nofun)

-- A future comes to wait only with a push.
theorem step_waiting (taken : Step s e t) (other : ∀ j, e ≠ .pushed j) (here : t.future i = .waiting waker) :
    s.future i = .waiting waker := by
  have kept : ∀ {j point}, point ≠ .waiting waker → update s.future j point i = .waiting waker →
      s.future i = .waiting waker := by
    intro j point awake here
    by_cases same : i = j
    · subst same
      exact absurd ((update_self i _ _).symm.trans here) awake
    · exact (update_of_ne same _ _).symm.trans here
  cases taken with
  | created => exact kept (by simp) here
  | polled => exact kept (by simp) here
  | unlinked => exact kept (by simp) here
  | found => exact kept (by simp) here
  | notFound => exact kept (by simp) here
  | pushed => exact absurd rfl (other _)
  | forgotten => exact kept (by simp) here
  | cancelled => exact kept (by simp) here
  | dropped => exact kept (by simp) here
  | changed | popped | woke | completed => exact here

theorem step_released (drained : Drained evs s) (released : Released evs s) (taken : Step s e t)
    (early : NotLate evs s e t) (guard : NoneInHand evs s e t) : Released (evs++[e]) t := by
  intro done i waker here
  rw [completed_snoc] at done
  -- A notifier that moves to another point than between pop and wake.
  have move : ∀ {k point}, ¬inHand s i waker → (∀ i waker, point ≠ .wake i waker) →
      ¬∃ m, update s.notifier k point m = .wake i waker := by
    rintro k point before free ⟨m,holds⟩
    by_cases same : m = k
    · subst same
      exact free i waker ((update_self m _ _).symm.trans holds)
    · exact before ⟨m,(update_of_ne same _ _).symm.trans holds⟩
  by_cases pushes : ∃ j, e = .pushed j
  · obtain ⟨j,rfl⟩ := pushes
    exact absurd (done.resolve_right nofun) early
  have waits := step_waiting taken (not_exists.mp pushes) here
  cases taken with
  | changed => exact move (released (done.resolve_right nofun) i waker waits) nofun
  | popped _ result =>
    have empty := drained (done.resolve_right nofun)
    rcases WaitQueue.pop_cases result with ⟨_,none_,_⟩ | ⟨_,_,_,queue,_⟩
    · cases none_
    · rw [empty] at queue
      cases queue
  | woke => exact move (released (done.resolve_right nofun) i waker waits) nofun
  | completed => exact move (guard i waker waits) nofun
  | _ => exact released (done.resolve_right nofun) i waker waits

theorem Sound.wokenOrInHand (sound : Sound evs s) (drained : Drained evs s) : WokenOrInHand evs s := by
  intro done i waker here
  obtain ⟨isPopped,linked⟩ := sound.stored i waker here
  cases isPopped with
  | true => exact sound.handed i waker here ⟨waker,linked⟩
  | false =>
    have queued := (sound.queue.queued i).mpr ⟨waker,linked⟩
    rw [drained done] at queued
    cases queued
end

-- In every run where no link is pushed after a drain, all who still wait have been
-- woken or are just being woken; if no notifier ends while another one has such a waker
-- in hand, they have been woken.
theorem no_lost_wakeup {s : State} (run : Run s) (early : run.Every NotLate) :
    run.Through WokenOrInHand ∧ (run.Every NoneInHand → run.Through Woken) := by
  let inv (evs : List Event) (s : State) := Sound evs s ∧ Drained evs s
  have base : inv [] initial := ⟨initial_sound,fun _ => rfl⟩
  have preserved : ∀ {evs s e t}, inv evs s → Step s e t → NotLate evs s e t → inv (evs++[e]) t :=
    fun both taken guard => ⟨step_sound both.1 taken,step_drained both.1 both.2 taken guard⟩
  refine ⟨run.through_of inv base preserved (fun both => both.1.wokenOrInHand both.2) early,fun apart => ?_⟩
  have admitted : run.Every fun evs s e t => NotLate evs s e t ∧ NoneInHand evs s e t := early.and apart
  refine run.through_of (fun evs s => inv evs s ∧ Released evs s) ⟨base,nofun⟩
    (fun all taken guard => ⟨preserved all.1 taken guard.1,step_released all.1.2 all.2 taken guard.1 guard.2⟩)
    (fun all done i waker here => ?_) admitted
  exact (all.1.1.wokenOrInHand all.1.2 done i waker here).resolve_right (all.2 done i waker here)

-- A notifier wakes the future that waits.
def wakesWaiting :=
  (((((((((Transition.Run.start : Run _).snoc
    (.created 0) (.created rfl)).snoc
    (.polled 0 ⟨3,0⟩) (.polled rfl)).snoc
    (.unlinked 0) (.unlinked rfl)).snoc
    (.evaluated 0 false) (.notFound rfl rfl)).snoc
    (.pushed 0) (.pushed rfl)).snoc
    (.changed 0) (.changed rfl)).snoc
    (.popped 0 0) (.popped rfl rfl)).snoc
    (.woke 0 0 ⟨3,0⟩) (.woke rfl)).snoc
    (.completed 0) (.completed rfl rfl)

theorem wakesWaiting_no_lost_wakeup : wakesWaiting.Every NotLate ∧ wakesWaiting.Through Woken := by
  have early : wakesWaiting.Every NotLate := by
    refine ⟨⟨⟨⟨⟨⟨⟨⟨⟨True.intro,?_⟩,?_⟩,?_⟩,?_⟩,?push⟩,?_⟩,?_⟩,?_⟩,?_⟩
    case push =>
      change ¬completed [.created 0,.polled 0 ⟨3,0⟩,.unlinked 0,.evaluated 0 false]
      decide
    all_goals exact True.intro
  refine ⟨early,(no_lost_wakeup wakesWaiting early).2 ⟨⟨⟨⟨⟨⟨⟨⟨⟨True.intro,?_⟩,?_⟩,?_⟩,?_⟩,?_⟩,?_⟩,?_⟩,?_⟩,?complete⟩⟩
  case complete =>
    rintro i waker _ ⟨k,holds⟩
    change update (update (update (fun _ => NotifierPoint.idle) 0 .pop) 0 (.wake 0 ⟨3,0⟩)) 0 .pop k = _ at holds
    by_cases only : k = 0 <;> simp [update,only] at holds
  all_goals exact True.intro

-- The notifier runs between the call of `f` and the push.
def pushesLate :=
  ((((((Transition.Run.start : Run _).snoc
    (.created 0) (.created rfl)).snoc
    (.polled 0 ⟨4,0⟩) (.polled rfl)).snoc
    (.unlinked 0) (.unlinked rfl)).snoc
    (.evaluated 0 false) (.notFound rfl rfl)).snoc
    (.changed 0) (.changed rfl)).snoc
    (.completed 0) (.completed rfl rfl)

theorem pushesLate_sleeps : ¬ ∀ (s : State) (run : Run s), run.Through Woken := by
  intro all
  obtain ⟨k,woke⟩ := (all _ (pushesLate.snoc (.pushed 0) (.pushed rfl))).last ⟨.completed 0,by decide,rfl⟩ 0 ⟨4,0⟩ rfl
  revert woke
  change Event.woke k 0 ⟨4,0⟩ ∉ ([.changed 0,.completed 0,.pushed 0] : List Event)
  simp

end Rtic.Common.WaitUntil
