import Rtic.Sync.Watch
namespace Rtic.Sync.Watch
open Function Transition Rtic.Common
variable {T : Type}

-- A poll of `changed` that nothing interrupts.
def pollChanged (self : Signal T) (waker : Waker) : Signal T × Option T :=
  let registered := (self.register waker).1
  if registered.seen then (registered,none) else
    match registered.store with
    | .unset => (registered,none)
    | .set value => (registered.markSeen,some value)

def quiet (s : State T) : Prop := (∀ i, s.writer i = .idle) ∧ (s.reader = .idle ∨ s.reader.awaiting = true)

-- The last write has not been returned by try_get nor by changed.
def unread (evs : List (Event T)) : Prop := 0 < (history evs).writes ∧ (history evs).writes ∉ (history evs).returned

def NoUpdateLost (evs : List (Event T)) (s : State T) : Prop :=
  quiet s → unread evs → s.seen = false ∧
    ∃ value, valueOf evs (history evs).writes = some value ∧ ∀ waker, (pollChanged s.toSignal waker).2 = some value

def ReportedOnce (evs : List (Event T)) (_ : State T) : Event T → State T → Prop
  | .returned (some _) value,_ =>
    (history evs).loaded ∉ (history evs).returned ∧ valueOf evs (history evs).loaded = some value
  | _,_ => True

-- mark_seen comes after a newer store only while a writer has yet to clear the mark.
def NotStale (evs : List (Event T)) (s : State T) : Event T → State T → Prop
  | .returned _ _,_ => (history evs).loaded = (history evs).writes ∨ ∃ i, s.writer i = .clearSeen
  | _,_ => True

-- No writer clears the mark once the value that is stored has been returned.
def NotReopened (evs : List (Event T)) (_ : State T) : Event T → State T → Prop
  | .cleared _,_ => (history evs).writes ∉ (history evs).returned
  | _,_ => True

section
variable {evs : List (Event T)} {s t : State T} {e : Event T}

-- What the steps of one poll compute when nothing comes between them.
theorem pollChanged_steps (awaiting : s.reader.awaiting = true) (waker : Waker) :
    ∃ (t : State T) (_ : Transition.Run Step s t), t.toSignal = (pollChanged s.toSignal waker).1 ∧
      t.writer = s.writer ∧ t.reader = match (pollChanged s.toSignal waker).2 with
        | some _ => .idle
        | none => .pending waker := by
  have enter := (Transition.Run.start.snoc (Event.polled waker) (Step.polled awaiting)).snoc _ (Step.registered rfl)
  unfold pollChanged
  cases mark : s.seen with
  | true => exact ⟨_,enter.snoc _ (.seen rfl mark),by simp [Signal.register,mark],rfl,by simp [Signal.register,mark]⟩
  | false =>
    have enter := enter.snoc _ (.unseen rfl mark)
    cases filled : s.store with
    | unset =>
      exact ⟨_,enter.snoc _ (.foundUnset rfl filled),by simp [Signal.register,mark,filled],rfl,
        by simp [Signal.register,mark,filled,ReaderPoint.suspended]⟩
    | set value =>
      exact ⟨_,(enter.snoc _ (.loaded rfl filled)).snoc _ (.returned rfl),by simp [Signal.register,mark,filled],rfl,
        by simp [Signal.register,mark,filled]⟩

theorem pollChanged_unseen {value : T} (unseen : s.seen = false) (filled : s.store = .set value) (waker : Waker) :
    (pollChanged s.toSignal waker).2 = some value := by
  simp [pollChanged,Signal.register,unseen,filled]

-- An unread value is unseen, or a writer is about to make it so.
def Announced (evs : List (Event T)) (s : State T) : Prop :=
  unread evs → s.seen = false ∨ ∃ i, s.writer i = .clearSeen

theorem Announced.keep (announced : Announced evs s) (silent : ∀ h : History, (h.observe e).writes = h.writes)
    (returned : ∀ h : History, (h.observe e).returned = h.returned) (seen : t.seen = s.seen)
    (writer : ∀ i, s.writer i = .clearSeen → t.writer i = .clearSeen) : Announced (evs++[e]) t := by
  intro unread_
  unfold unread at unread_
  rw [history_snoc,silent,returned] at unread_
  rw [seen]
  exact (announced unread_).imp_right fun ⟨i,here⟩ => ⟨i,writer i here⟩

theorem step_announced (announced : Announced evs s) (taken : Step s e t) (guard : NotStale evs s e t) :
    Announced (evs++[e]) t := by
  cases taken with
  | stored alive here =>
    rename_i i value
    exact fun _ => Or.inr ⟨i,update_self i _ _⟩
  | cleared here => exact fun _ => Or.inl rfl
  | woke here =>
    rename_i i
    refine announced.keep (fun _ => rfl) (fun _ => rfl) rfl fun j standing => ?_
    have other : j ≠ i := by
      rintro rfl
      rw [here] at standing
      cases standing
    exact (update_of_ne other _ _).trans standing
  | returned here =>
    intro unread_
    rcases guard with latest | standing
    · refine absurd ?_ unread_.2
      rw [history_snoc]
      exact List.mem_append_right _ (List.mem_singleton.mpr latest.symm)
    · exact Or.inr standing
  | _ => exact announced.keep (fun _ => rfl) (fun _ => rfl) rfl fun _ standing => standing

theorem Traced.last (traced : Traced evs s) (written : 0 < (history evs).writes) :
    ∃ value, valueOf evs (history evs).writes = some value ∧ s.store = .set value := by
  unfold valueOf
  rw [traced.store,traced.writes,← List.getLast?_eq_getElem?]
  rw [traced.writes,List.length_pos_iff] at written
  rw [List.getLast?_eq_some_getLast written]
  exact ⟨_,rfl,rfl⟩

theorem Announced.noUpdateLost (announced : Announced evs s) (traced : Traced evs s) : NoUpdateLost evs s := by
  intro quiet_ unread_
  obtain ⟨value,stored,filled⟩ := traced.last unread_.1
  rcases announced unread_ with unseen | ⟨i,standing⟩
  · exact ⟨unseen,value,stored,pollChanged_unseen unseen filled⟩
  · rw [quiet_.1 i] at standing
    cases standing

-- What has been returned is marked as seen; a poll that found the mark cleared
-- carries a write that has not been returned.
structure Fresh (evs : List (Event T)) (s : State T) : Prop where
  seen : (history evs).writes ∈ (history evs).returned → s.seen = true
  load : ∀ waker, s.reader = .load (some waker) → (history evs).writes ∉ (history evs).returned
  markSeen : ∀ waker value, s.reader = .markSeen (some waker) value → (history evs).loaded ∉ (history evs).returned

theorem Fresh.keep (fresh : Fresh evs s) (silent : ∀ h : History, h.observe e = h) (seen : t.seen = s.seen)
    (load : ∀ waker, t.reader = .load (some waker) → s.reader = .load (some waker))
    (markSeen : ∀ waker value, t.reader = .markSeen (some waker) value → s.reader = .markSeen (some waker) value) :
    Fresh (evs++[e]) t := by
  have same : history (evs++[e]) = history evs := history_snoc.trans (silent _)
  refine ⟨?_,?_,?_⟩
  · rw [same,seen]
    exact fresh.seen
  · rw [same]
    exact fun waker here => fresh.load waker (load waker here)
  · rw [same]
    exact fun waker value here => fresh.markSeen waker value (markSeen waker value here)

theorem step_fresh (traced : Traced evs s) (fresh : Fresh evs s) (taken : Step s e t) (guard : NotReopened evs s e t) :
    Fresh (evs++[e]) t := by
  cases taken with
  | stored alive here =>
    rename_i i value
    have next : history (evs++[.stored i value]) = {history evs with writes := (history evs).writes+1} := history_snoc
    have new : (history evs).writes+1 ∉ (history evs).returned := fun member =>
      Nat.not_succ_le_self _ (traced.returned _ member).2
    refine ⟨?_,?_,?_⟩ <;> rw [next]
    · exact fun member => absurd member new
    · exact fun _ _ => new
    · exact fresh.markSeen
  | cleared here =>
    rename_i i
    have same : history (evs++[.cleared i]) = history evs := history_snoc
    refine ⟨?_,?_,?_⟩ <;> rw [same]
    · exact fun member => absurd member guard
    · exact fresh.load
    · exact fresh.markSeen
  | unseen here unseen =>
    rename_i waker
    have same : history (evs++[.checked false]) = history evs := history_snoc
    refine ⟨?_,?_,nofun⟩ <;> rw [same]
    · exact fresh.seen
    · intro _ _ member
      have marked := fresh.seen member
      rw [unseen] at marked
      cases marked
  | loaded here filled =>
    rename_i value origin
    have next : history (evs++[.loaded value]) = {history evs with loaded := (history evs).writes} := history_snoc
    refine ⟨?_,nofun,?_⟩ <;> rw [next]
    · exact fresh.seen
    · intro waker value' here'
      cases here'
      exact fresh.load waker here
  | returned here => exact ⟨fun _ => rfl,nofun,nofun⟩
  | foundUnset here empty =>
    rename_i origin
    exact fresh.keep (fun _ => rfl) rfl (by cases origin <;> nofun) (by cases origin <;> nofun)
  | tryGetCalled here => exact fresh.keep (fun _ => rfl) rfl nofun nofun
  | _ =>
    exact fresh.keep (fun _ => rfl) rfl (by first | exact fun _ here => here | nofun)
      (by first | exact fun _ _ here => here | nofun)

theorem reported_once (traced : Traced evs s) (fresh : Fresh evs s) (taken : Step s e t) : ReportedOnce evs s e t := by
  cases taken with
  | returned here =>
    rename_i origin value
    cases origin with
    | none => exact True.intro
    | some waker =>
      obtain ⟨_,_,stored⟩ := traced.loaded _ _ here
      exact ⟨fresh.markSeen waker value here,stored⟩
  | _ => exact True.intro
end

-- Every unread value is found by the next poll, in every run where each mark_seen
-- follows a load of the last write, or precedes the clearSeen of a writer.
theorem no_update_lost {s : State T} (run : Run s) (fresh : run.Every NotStale) : run.Through NoUpdateLost := by
  let inv (evs : List (Event T)) (s : State T) := Traced evs s ∧ Announced evs s
  have base : inv [] (initial : State T) := ⟨initial_traced,fun unread_ => absurd unread_.1 (Nat.lt_irrefl 0)⟩
  exact run.through_of inv base
    (fun both taken guard => ⟨step_traced both.1 taken,step_announced both.2 taken guard⟩)
    (fun both => both.2.noUpdateLost both.1) fresh

-- A write of 5 whose value `changed` returns.
def readsWrite :=
  (((((((((Transition.Run.start : Run (T:=Nat) _).snoc
    (.stored 0 5) (.stored (by decide) rfl)).snoc
    (.cleared 0) (.cleared rfl)).snoc
    (.woke 0 none) (.woke rfl)).snoc
    .changedCalled (.changedCalled rfl)).snoc
    (.polled ⟨1,0⟩) (.polled rfl)).snoc
    (.registered none) (.registered rfl)).snoc
    (.checked false) (.unseen rfl rfl)).snoc
    (.loaded 5) (.loaded rfl rfl)).snoc
    (.returned (some ⟨1,0⟩) 5) (.returned rfl)

theorem readsWrite_no_update_lost : readsWrite.Every NotStale ∧ readsWrite.Through NoUpdateLost := by
  have fresh : readsWrite.Every NotStale := by
    refine ⟨⟨⟨⟨⟨⟨⟨⟨⟨True.intro,?_⟩,?_⟩,?_⟩,?_⟩,?_⟩,?_⟩,?_⟩,?_⟩,Or.inl rfl⟩
    all_goals exact True.intro
  exact ⟨fresh,no_update_lost readsWrite fresh⟩

-- The reader has loaded 5 when a writer stores 6 and clears the mark; the reader
-- then sets it again, and 6 is never announced.
def marksStale :=
  ((((((((Transition.Run.start : Run (T:=Nat) _).snoc
    (.stored 0 5) (.stored (by decide) rfl)).snoc
    (.cleared 0) (.cleared rfl)).snoc
    (.woke 0 none) (.woke rfl)).snoc
    .tryGetCalled (.tryGetCalled rfl)).snoc
    (.loaded 5) (.loaded rfl rfl)).snoc
    (.stored 0 6) (.stored (by decide) rfl)).snoc
    (.cleared 0) (.cleared rfl)).snoc
    (.woke 0 none) (.woke rfl)

theorem marksStale_loses_update : ¬ ∀ (s : State Nat) (run : Run s), run.Through NoUpdateLost := by
  intro all
  have lost := (all _ (marksStale.snoc (.returned none 5) (.returned rfl))).last
  have quiet_ : ∀ i, update (update (update (update (update (update (fun _ => WriterPoint.idle)
      0 .clearSeen) 0 .wake) 0 .idle) 0 .clearSeen) 0 .wake) 0 .idle i = .idle := fun i => by
    by_cases first : i = 0 <;> simp [update,first]
  exact nomatch (lost ⟨quiet_,Or.inl rfl⟩ ⟨by decide,by decide⟩).1

-- Each call of `changed` returns the value of a write that has not been returned,
-- in every run where no writer clears the mark of a value already returned.
theorem reported_at_most_once {s : State T} (run : Run s) (fresh : run.Every NotReopened) :
    run.Every ReportedOnce := by
  let inv (evs : List (Event T)) (s : State T) := Traced evs s ∧ Fresh evs s
  have base : inv [] (initial : State T) := ⟨initial_traced,nofun,nofun,nofun⟩
  exact run.every_of inv base
    (fun both taken guard => ⟨step_traced both.1 taken,step_fresh both.1 both.2 taken guard⟩)
    (fun both taken _ => reported_once both.1 both.2 taken) fresh

theorem marksStale_reported_once : marksStale.Every NotReopened ∧ marksStale.Every ReportedOnce := by
  have fresh : marksStale.Every NotReopened := by
    refine ⟨⟨⟨⟨⟨⟨⟨⟨True.intro,True.intro⟩,?_⟩,True.intro⟩,True.intro⟩,True.intro⟩,True.intro⟩,?_⟩,True.intro⟩
    · exact List.not_mem_nil
    · exact List.not_mem_nil
  exact ⟨fresh,reported_at_most_once marksStale fresh⟩

-- try_get returns 7 before the writer clears the mark, and `changed` returns it again.
def reopensRead :=
  (((((((((((Transition.Run.start : Run (T:=Nat) _).snoc
    (.stored 0 7) (.stored (by decide) rfl)).snoc
    .tryGetCalled (.tryGetCalled rfl)).snoc
    (.loaded 7) (.loaded rfl rfl)).snoc
    (.returned none 7) (.returned rfl)).snoc
    (.cleared 0) (.cleared rfl)).snoc
    (.woke 0 none) (.woke rfl)).snoc
    .changedCalled (.changedCalled rfl)).snoc
    (.polled ⟨2,0⟩) (.polled rfl)).snoc
    (.registered none) (.registered rfl)).snoc
    (.checked false) (.unseen rfl rfl)).snoc
    (.loaded 7) (.loaded rfl rfl)

theorem reopensRead_reports_twice : ¬ ∀ (s : State Nat) (run : Run s), run.Every ReportedOnce := by
  intro all
  obtain ⟨_,new,_⟩ := all _ (reopensRead.snoc (.returned (some ⟨2,0⟩) 7) (.returned rfl))
  exact new (by decide)

end Rtic.Sync.Watch
