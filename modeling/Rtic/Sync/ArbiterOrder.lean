import Rtic.Sync.ArbiterOwnership
namespace Rtic.Sync.Arbiter
open Function Transition Rtic.Common

def Event.queued : Event → Option Nat
  | .polled i _ .queued => some i
  | _ => none

-- The futures that were polled to Pending and neither popped nor dropped since.
def queuedFutures : WaitLine.Rules Event Nat where
  joins := Event.queued
  leaves
    | .released handed => handed.map Prod.fst
    | .unlinked i false => some i
    | _ => none

-- The same, where a future that was popped waits on until it returns its access.
def waitingFutures : WaitLine.Rules Event Nat where
  joins := Event.queued
  leaves
    | .obtained i => some i
    | .unlinked i false => some i
    | _ => none

-- At most one future that was popped stands before those that are queued.
structure Lines (evs : List Event) (s : State) : Prop where
  queued : queuedFutures.line evs = s.waitQueue.queue
  waiting : ∃ first : Option Nat, waitingFutures.line evs = first.toList++s.waitQueue.queue ∧
    ∀ i, first = some i ↔ s.waitQueue.popped i

def AtMostOne (_ : List Event) (s : State) : Prop := s.tokens ≤ 1 ∧ (s.waitQueue.queue ≠ [] → s.taken = true)

-- Who is popped next, and who returns its access next, is the first in line.
def GrantedInOrder (evs : List Event) (_ : State) (e : Event) (_ : State) : Prop :=
  match e with
  | .released (some (j,_)) => (queuedFutures.line evs).head? = some j
  | .obtained i => i ∈ waitingFutures.line evs → (waitingFutures.line evs).head? = some i
  | _ => True

-- Nobody gets the access past a future that waits for it.
def NotOvertaken (evs : List Event) (_ : State) (e : Event) (_ : State) : Prop :=
  match e with
  | .polled _ _ .entered => waitingFutures.line evs = []
  | .tryAccessed true => waitingFutures.line evs = []
  | _ => True

section
variable {s t : State} {e : Event} {evs : List Event} {i : Nat}

theorem initial_lines : Lines [] initial := ⟨rfl,none,rfl,fun i => by simp [initial,Arbiter.new,WaitQueue.new,WaitQueue.popped]⟩

-- A step that leaves the wait queue and the popped links as they are.
theorem Lines.keep (lines : Lines evs s) (joins : e.queued = none) (leaves : queuedFutures.leaves e = none)
    (ends : waitingFutures.leaves e = none) (queue : t.waitQueue.queue = s.waitQueue.queue)
    (popped : ∀ i, t.waitQueue.popped i ↔ s.waitQueue.popped i) : Lines (evs++[e]) t := by
  obtain ⟨first,line,mine⟩ := lines.waiting
  refine ⟨?_,first,?_,fun i => by rw [mine,popped]⟩
  · rw [WaitLine.line_keep joins leaves,queue,lines.queued]
  · rw [WaitLine.line_keep joins ends,queue,line]

-- A step that takes the future `i`, popped or not queued any more, out of both lines.
theorem popped_erase {first : Option Nat} (mine : ∀ j, first = some j ↔ s.waitQueue.popped j)
    (popped : s.waitQueue.popped i) :
    (first.toList++s.waitQueue.queue).erase i = s.waitQueue.queue := by
  rw [(mine i).mpr popped]
  simp

theorem unpopped_erase {first : Option Nat} (mine : ∀ j, first = some j ↔ s.waitQueue.popped j)
    (unpopped : ¬s.waitQueue.popped i) :
    (first.toList++s.waitQueue.queue).erase i = first.toList++s.waitQueue.queue.erase i := by
  refine List.erase_append_right _ ?_
  rw [Option.mem_toList]
  exact fun here => unpopped ((mine i).mp here)

theorem dropped_lines (locked : Locked evs s) (lines : Lines evs s) :
    Lines (evs++[.unlinked i false]) {s with
      waitQueue := (s.waitQueue.removeFromList i).free i,point := update s.point i .gone} := by
  obtain ⟨lock,_,refines⟩ := locked
  obtain ⟨first,line,mine⟩ := lines.waiting
  have sound := refines.queue
  have queue : ((s.waitQueue.removeFromList i).free i).queue = s.waitQueue.queue.erase i :=
    WaitQueue.removeFromList_queue sound
  have others : ∀ j, j ≠ i → (((s.waitQueue.removeFromList i).free i).popped j ↔ s.waitQueue.popped j) := by
    intro j other
    simp only [WaitQueue.popped,WaitQueue.free_other other,WaitQueue.removeFromList_other other]
  have out : ¬((s.waitQueue.removeFromList i).free i).popped i := by simp [WaitQueue.popped]
  refine ⟨?_,?_⟩
  · rw [WaitLine.line_leave rfl rfl,lines.queued,queue]
  · rw [WaitLine.line_leave rfl rfl,line,queue]
    by_cases popped : s.waitQueue.popped i
    · have outside : i ∉ s.waitQueue.queue := by
        rw [sound.queued]
        exact WaitQueue.popped_not_waits popped
      refine ⟨none,by rw [popped_erase mine popped,List.erase_of_not_mem outside]; rfl,fun j => ?_⟩
      by_cases same : j = i
      · subst same
        exact iff_of_false (Option.some_ne_none j).symm out
      · rw [others j same,← mine j,(mine i).mpr popped]
        simp [Ne.symm same]
    · refine ⟨first,unpopped_erase mine popped,fun j => ?_⟩
      by_cases same : j = i
      · subst same
        exact iff_of_false ((mine j).not.mpr popped) out
      · rw [others j same,mine j]

theorem step_lines (locked : Locked evs s) (lines : Lines evs s) (taken : Step s e t) : Lines (evs++[e]) t := by
  cases taken with
  | polled here result =>
    rename_i outcome next i waker
    rcases poll_cases result with ⟨_,_,rfl,rfl⟩ | ⟨_,⟨link,linked,rfl,rfl⟩ | ⟨waits,rfl,rfl⟩ | ⟨unlinked,rfl,rfl⟩⟩
    · exact lines.keep rfl rfl rfl rfl fun _ => Iff.rfl
    · exact lines.keep rfl rfl rfl rfl fun _ => Iff.rfl
    · exact lines.keep rfl rfl rfl rfl fun _ => Iff.rfl
    · obtain ⟨first,line,mine⟩ := lines.waiting
      refine ⟨?_,first,?_,fun j => ?_⟩
      · rw [WaitLine.line_join rfl rfl,lines.queued]
        rfl
      · rw [WaitLine.line_join rfl rfl,line,List.append_assoc]
        rfl
      · rw [mine]
        by_cases same : j = i
        · subst same
          simp [WaitQueue.popped,unlinked]
        · simp only [WaitQueue.popped,WaitQueue.push_other same]
  | unlinked here =>
    rename_i i
    obtain ⟨lock,_,refines⟩ := locked
    have kept : s.waitQueue.removeFromList i = s.waitQueue := WaitQueue.removeFromList_out (refines.out i (Or.inl here))
    refine lines.keep rfl rfl rfl ?_ fun j => ?_ <;> simp only [kept]
  | obtained here =>
    rename_i i
    have mine : s.holds (.future i) := Or.inr (Or.inl here)
    have only : ∀ j, s.waitQueue.popped j → j = i := fun j popped =>
      Owner.future.inj (locked.unique (o:=.future j) (Or.inr (Or.inr popped)) mine)
    obtain ⟨lock,_,refines⟩ := locked
    obtain ⟨first,line,popped_iff⟩ := lines.waiting
    have outside : i ∉ s.waitQueue.queue := by
      rw [refines.queue.queued]
      exact refines.out i (Or.inr here)
    refine ⟨by rw [WaitLine.line_keep rfl rfl,lines.queued]; rfl,none,?_,fun j => iff_of_false (Option.some_ne_none j).symm ?_⟩
    · rw [WaitLine.line_leave rfl rfl,line]
      by_cases popped : s.waitQueue.popped i
      · exact popped_erase popped_iff popped
      · -- it never waited, and nobody else has been popped
        have none_ : first = none := Option.eq_none_iff_forall_ne_some.mpr fun j held => by
          have held := (popped_iff j).mp held
          rw [only j held] at held
          exact popped held
        rw [none_]
        exact List.erase_of_not_mem outside
    · by_cases same : j = i
      · subst same
        simp [WaitQueue.popped]
      · simp only [WaitQueue.popped,WaitQueue.free_other same]
        exact fun popped => same (only j popped)
  | dropped here => exact dropped_lines locked lines
  | tryAccessed result =>
    rcases tryAccess_cases result with ⟨_,_,rfl,rfl⟩ | ⟨rfl,rfl⟩ <;>
      exact lines.keep rfl rfl rfl rfl fun _ => Iff.rfl
  | released held result =>
    rcases release_cases result with ⟨_,rfl,rfl⟩ | ⟨j,rest,link,queue,linked,rfl,rfl⟩
    · exact lines.keep rfl rfl rfl rfl fun _ => Iff.rfl
    · obtain ⟨first,line,mine⟩ := lines.waiting
      have unpopped : ∀ k, ¬s.waitQueue.popped k := by
        intro k popped
        have other : s.holds (.future k) := Or.inr (Or.inr popped)
        cases locked.unique (o:=.token) held other
      have none_ : first = none :=
        Option.eq_none_iff_forall_ne_some.mpr fun k held => unpopped k ((mine k).mp held)
      refine ⟨?_,some j,?_,fun k => ?_⟩
      · rw [WaitLine.line_leave rfl rfl,lines.queued,queue,List.erase_cons_head]
      · rw [WaitLine.line_keep rfl rfl,line,none_,queue]
        rfl
      · by_cases same : k = j
        · subst same
          exact iff_of_true rfl ⟨link.waker,update_self k _ _⟩
        · refine iff_of_false (fun held => same (Option.some.inj held).symm) ?_
          simp only [WaitQueue.popped,update_of_ne same]
          exact unpopped k
  | _ => exact lines.keep rfl rfl rfl rfl fun _ => Iff.rfl

theorem Locked.atMostOne (locked : Locked evs s) : AtMostOne evs s := by
  refine ⟨?_,locked.busy⟩
  obtain ⟨lock,_,refines⟩ := locked
  exact refines.tokens

theorem granted_in_order (locked : Locked evs s) (lines : Lines evs s) (taken : Step s e t) :
    GrantedInOrder evs s e t := by
  cases taken with
  | obtained here =>
    rename_i i
    intro waits
    obtain ⟨lock,_,refines⟩ := locked
    obtain ⟨first,line,mine⟩ := lines.waiting
    rw [line] at waits ⊢
    rcases List.mem_append.mp waits with ahead | inside
    · rw [Option.mem_toList.mp ahead]
      rfl
    · exact absurd ((refines.queue.queued i).mp inside) (refines.out i (Or.inr here))
  | released held result =>
    rcases release_cases result with ⟨_,rfl,_⟩ | ⟨j,rest,link,queue,_,rfl,_⟩
    · exact True.intro
    · change (queuedFutures.line evs).head? = some j
      rw [lines.queued,queue]
      rfl
  | _ => exact True.intro

-- An access that nobody has taken leaves nobody waiting.
theorem free_line (locked : Locked evs s) (lines : Lines evs s) (empty : s.waitQueue.queue = [])
    (free : s.taken = false) : waitingFutures.line evs = [] := by
  obtain ⟨first,line,mine⟩ := lines.waiting
  have none_ : first = none := Option.eq_none_iff_forall_ne_some.mpr fun i held => by
    have taken := locked.taken (o:=.future i) (Or.inr (Or.inr ((mine i).mp held)))
    rw [free] at taken
    cases taken
  rw [line,none_,empty]
  rfl

theorem not_overtaken (locked : Locked evs s) (lines : Lines evs s) (taken : Step s e t) : NotOvertaken evs s e t := by
  cases taken with
  | polled here result =>
    rcases poll_cases result with ⟨empty,free,rfl,_⟩ | ⟨_,⟨link,_,rfl,_⟩ | ⟨_,rfl,_⟩ | ⟨_,rfl,_⟩⟩
    · exact free_line locked lines empty free
    all_goals exact True.intro
  | tryAccessed result =>
    rcases tryAccess_cases result with ⟨empty,free,rfl,_⟩ | ⟨rfl,_⟩
    · exact free_line locked lines empty free
    · exact True.intro
  | _ => exact True.intro
end

theorem exclusive_in_order {s : State} (run : Run s) :
    run.Through AtMostOne ∧ run.Every GrantedInOrder ∧ run.Every NotOvertaken := by
  let inv (evs : List Event) (s : State) := Locked evs s ∧ Lines evs s
  have base : inv [] initial := ⟨initial_locked,initial_lines⟩
  have preserved : ∀ {evs s e t}, inv evs s → Step s e t → inv (evs++[e]) t := fun both taken =>
    ⟨step_locked both.1 taken,step_lines both.1 both.2 taken⟩
  refine ⟨?_,?_,?_⟩
  · exact run.through_of inv base (fun both taken _ => preserved both taken) (fun both => both.1.atMostOne) run.every_true
  · exact run.every inv base preserved fun both taken => granted_in_order both.1 both.2 taken
  · exact run.every inv base preserved fun both taken => not_overtaken both.1 both.2 taken

end Rtic.Sync.Arbiter
