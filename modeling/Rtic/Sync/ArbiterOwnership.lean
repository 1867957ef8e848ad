import Rtic.Library.FifoLock
import Rtic.Library.WaitLine
import Rtic.Sync.Arbiter
namespace Rtic.Sync.Arbiter
open Function Transition Rtic.Common

-- What can hold the access: the one ExclusiveAccess, or a future that has been
-- granted it, or whose link has been popped.
inductive Owner where
  | token
  | future (i : Nat)
  deriving DecidableEq, Repr

def State.holds (s : State) : Owner → Prop
  | .token => 0 < s.tokens
  | .future i => s.point i = .unlink true ∨ s.point i = .granted ∨ s.waitQueue.popped i

-- The code keeps a lock that is handed over in the order of its wait queue.
structure Refines (s : State) (lock : FifoLock.Lock Owner) : Prop where
  line : lock.line = s.waitQueue.queue.map .future
  holder : ∀ o, s.holds o ↔ lock.holder = some o
  taken : s.taken = lock.locked
  tokens : s.tokens ≤ 1
  queue : s.waitQueue.Sound
  unlinked : ∀ i, s.point i = .gone ∨ s.point i = .fresh → s.waitQueue.link i = none
  out : ∀ i, s.point i = .unlink true ∨ s.point i = .granted → ¬s.waitQueue.waits i

section
variable {s t : State} {e : Event} {lock : FifoLock.Lock Owner} {i : Nat}

theorem initial_refines : Refines initial FifoLock.Lock.open_ := by
  refine ⟨rfl,?_,rfl,Nat.zero_le _,WaitQueue.new_sound,fun _ _ => rfl,?_⟩
  · rintro (_|i)
    · simp [State.holds,initial,FifoLock.Lock.open_]
    · simp [State.holds,initial,FifoLock.Lock.open_,Arbiter.new,WaitQueue.new,WaitQueue.popped]
  · intro i at_
    simp [initial] at at_

theorem Refines.open (refines : Refines s lock) (sound : FifoLock.Sound lock) (free : s.taken = false) :
    lock = FifoLock.Lock.open_ := sound.free (by rw [← refines.taken,free])

theorem Refines.idle (refines : Refines s lock) (out : lock.holder ≠ some (.future i)) :
    s.point i ≠ .unlink true ∧ s.point i ≠ .granted ∧ ¬s.waitQueue.popped i := by
  have holds := (refines.holder (.future i)).not.mpr out
  simpa [State.holds,not_or] using holds

-- Only the point and the link of the future `i`, or the tokens, change.
theorem holds_other {o : Owner} (tokens : t.tokens = s.tokens) (point : ∀ j, j ≠ i → t.point j = s.point j)
    (link : ∀ j, j ≠ i → t.waitQueue.link j = s.waitQueue.link j) (other : o ≠ .future i) :
    t.holds o ↔ s.holds o := by
  cases o with
  | token => simp only [State.holds,tokens]
  | future j =>
    have apart : j ≠ i := fun same => other (by rw [same])
    simp only [State.holds,WaitQueue.popped,point j apart,link j apart]

-- So it is only that future of which there is something to show.
theorem Refines.beside (refines : Refines s lock) (point : ∀ j, j ≠ i → t.point j = s.point j)
    (link : ∀ j, j ≠ i → t.waitQueue.link j = s.waitQueue.link j)
    (unlinked : t.point i = .gone ∨ t.point i = .fresh → t.waitQueue.link i = none)
    (out : t.point i = .unlink true ∨ t.point i = .granted → ¬t.waitQueue.waits i) :
    (∀ j, t.point j = .gone ∨ t.point j = .fresh → t.waitQueue.link j = none) ∧
      ∀ j, t.point j = .unlink true ∨ t.point j = .granted → ¬t.waitQueue.waits j := by
  refine ⟨fun j => ?_,fun j => ?_⟩
  · by_cases same : j = i
    · rw [same]
      exact unlinked
    · rw [point j same,link j same]
      exact refines.unlinked j
  · by_cases same : j = i
    · rw [same]
      exact out
    · simpa only [WaitQueue.waits,point j same,link j same] using refines.out j

theorem Refines.keep (refines : Refines s lock) (queue : t.waitQueue.queue = s.waitQueue.queue)
    (sound : t.waitQueue.Sound) (taken : t.taken = s.taken) (tokens : t.tokens = s.tokens)
    (point : ∀ j, j ≠ i → t.point j = s.point j) (link : ∀ j, j ≠ i → t.waitQueue.link j = s.waitQueue.link j)
    (mine : t.holds (.future i) ↔ s.holds (.future i))
    (unlinked : t.point i = .gone ∨ t.point i = .fresh → t.waitQueue.link i = none)
    (out : t.point i = .unlink true ∨ t.point i = .granted → ¬t.waitQueue.waits i) : Refines t lock := by
  obtain ⟨unlinked,out⟩ := refines.beside point link unlinked out
  refine ⟨by rw [queue,refines.line],fun o => ?_,by rw [taken,refines.taken],by rw [tokens]; exact refines.tokens,
    sound,unlinked,out⟩
  rw [← refines.holder o]
  by_cases same : o = .future i
  · rw [same]
    exact mine
  · exact holds_other tokens point link same

-- As `keep`, where the future `i` or the token is what changes hands.
theorem Refines.pass {next : FifoLock.Lock Owner} (refines : Refines s lock)
    (line : next.line = t.waitQueue.queue.map .future) (sound : t.waitQueue.Sound) (taken : t.taken = next.locked)
    (tokens : t.tokens ≤ 1) (holder : ∀ o, t.holds o ↔ next.holder = some o)
    (point : ∀ j, j ≠ i → t.point j = s.point j) (link : ∀ j, j ≠ i → t.waitQueue.link j = s.waitQueue.link j)
    (unlinked : t.point i = .gone ∨ t.point i = .fresh → t.waitQueue.link i = none)
    (out : t.point i = .unlink true ∨ t.point i = .granted → ¬t.waitQueue.waits i) : Refines t next := by
  obtain ⟨unlinked,out⟩ := refines.beside point link unlinked out
  exact ⟨line,holder,taken,tokens,sound,unlinked,out⟩

theorem polled_refines {waker : Waker} {outcome : Polled} {next : Arbiter} (refines : Refines s lock)
    (sound : FifoLock.Sound lock) (here : (s.point i).suspended = true) (result : s.poll i waker = (outcome,next)) :
    ∃ lock', (lock' = lock ∨ FifoLock.Step lock lock') ∧
      Refines {s with
        toArbiter := next
        point := update s.point i (if outcome.ready then .unlink true else .waiting)} lock' := by
  have suspended : s.point i ≠ .unlink true ∧ s.point i ≠ .granted := by
    constructor <;> intro at_ <;> rw [at_] at here <;> cases here
  rcases poll_cases result with ⟨empty,free,rfl,rfl⟩ | ⟨busy,⟨link,linked,rfl,rfl⟩ | ⟨waits,rfl,rfl⟩ | ⟨unlinked,rfl,rfl⟩⟩
  · have open_ := refines.open sound free
    subst open_
    refine ⟨⟨some (.future i),false,[]⟩,Or.inr .enter,?_⟩
    refine refines.pass (i:=i) (by simp [empty]) refines.queue rfl refines.tokens (fun o => ?_)
      (fun j other => update_of_ne other _ _) (fun _ _ => rfl) (by simp [Polled.ready]) (fun _ inside => ?_)
    · by_cases same : o = .future i
      · simp [same,State.holds,Polled.ready]
      · have nobody : ¬s.holds o := by simp [refines.holder,FifoLock.Lock.open_]
        refine (holds_other (s:=s) (i:=i) ?_ (fun j other => ?_) (fun _ _ => ?_) same).trans ?_
        · rfl
        · exact update_of_ne other _ _
        · rfl
        · simp [nobody,Ne.symm same]
    · exact absurd ((refines.queue.queued i).mpr inside) (by simp [empty])
  · refine ⟨lock,Or.inl rfl,refines.keep (i:=i) rfl refines.queue rfl rfl (fun j other => update_of_ne other _ _)
      (fun _ _ => rfl) ?_ ?_ fun _ => WaitQueue.popped_not_waits ⟨link,linked⟩⟩
    · have popped : s.waitQueue.popped i := ⟨link,linked⟩
      simp [State.holds,popped]
    · simp [Polled.ready]
  · refine ⟨lock,Or.inl rfl,refines.keep (i:=i) rfl refines.queue rfl rfl (fun j other => update_of_ne other _ _)
      (fun _ _ => rfl) ?_ ?_ ?_⟩
    · simp [State.holds,Polled.ready,suspended]
    · simp [Polled.ready]
    · simp [Polled.ready]
  · have locked : lock.locked = true := by
      rcases busy with filled | taken
      · exact sound.busy (by rw [refines.line]; simpa using filled)
      · rw [← refines.taken,taken]
    refine ⟨{lock with line := lock.line++[.future i]},Or.inr (.join locked),?_⟩
    refine refines.pass (i:=i) (by simp [refines.line]) (refines.queue.push unlinked) refines.taken refines.tokens
      (fun o => ?_) (fun j other => update_of_ne other _ _) (fun j other => WaitQueue.push_other other)
      (by simp [Polled.ready]) (by simp [Polled.ready])
    change _ ↔ lock.holder = some o
    rw [← refines.holder o]
    by_cases same : o = .future i
    · simp [same,State.holds,Polled.ready,suspended,WaitQueue.popped,unlinked]
    · refine holds_other (i:=i) ?_ (fun j other => ?_) (fun j other => WaitQueue.push_other other) same
      · rfl
      · exact update_of_ne other _ _

theorem dropped_refines (refines : Refines s lock) (sound : FifoLock.Sound lock) (here : s.point i = .unlink false) :
    ∃ lock', (lock' = lock ∨ FifoLock.Step lock lock') ∧
      Refines {s with waitQueue := (s.waitQueue.removeFromList i).free i,point := update s.point i .gone} lock' := by
  have points : ∀ j, j ≠ i → update s.point i .gone j = s.point j := fun j other => update_of_ne other _ _
  have links : ∀ j, j ≠ i → ((s.waitQueue.removeFromList i).free i).link j = s.waitQueue.link j := fun j other =>
    (WaitQueue.free_other other).trans (WaitQueue.removeFromList_other other)
  have freed := refines.queue.removeFromList (i:=i).free WaitQueue.removeFromList_not_waits
  have gone_ : ¬State.holds {s with
      waitQueue := (s.waitQueue.removeFromList i).free i,point := update s.point i .gone} (.future i) := by
    simp [State.holds,WaitQueue.popped]
  have others : ∀ {o}, o ≠ .future i → (State.holds {s with
      waitQueue := (s.waitQueue.removeFromList i).free i,point := update s.point i .gone} o ↔ s.holds o) :=
    fun other => holds_other rfl points links other
  by_cases popped : s.waitQueue.popped i
  · have mine : lock.holder = some (.future i) := (refines.holder (.future i)).mp (Or.inr (Or.inr popped))
    have kept : s.waitQueue.removeFromList i = s.waitQueue :=
      WaitQueue.removeFromList_out (WaitQueue.popped_not_waits popped)
    obtain ⟨holder,lost,line⟩ := lock
    cases mine
    have safe : lost = false := Bool.eq_false_iff.mpr fun yes => nomatch sound.lost yes
    subst safe
    refine ⟨⟨none,true,line⟩,Or.inr .abandon,refines.pass (i:=i) ?_ freed ?_ refines.tokens (fun o => ?_) points links
      (fun _ => WaitQueue.free_link) (by simp)⟩
    · change line = _
      rw [WaitQueue.free_queue,kept]
      exact refines.line
    · exact refines.taken
    · by_cases same : o = .future i
      · subst same
        simpa using gone_
      · rw [others same,refines.holder]
        simp [Ne.symm same]
  · have out : lock.holder ≠ some (.future i) := fun mine => by
      have holds := (refines.holder (.future i)).mpr mine
      simp [State.holds,here,popped] at holds
    refine ⟨{lock with line := lock.line.erase (.future i)},Or.inr .leave,refines.pass (i:=i) ?_ freed refines.taken
      refines.tokens (fun o => ?_) points links (fun _ => WaitQueue.free_link) (by simp)⟩
    · change lock.line.erase _ = _
      rw [WaitQueue.free_queue,WaitQueue.removeFromList_queue refines.queue,refines.line,
        List.map_erase (fun _ _ same => Owner.future.inj same)]
    · change _ ↔ lock.holder = some o
      by_cases same : o = .future i
      · subst same
        exact iff_of_false gone_ out
      · rw [others same,refines.holder]

theorem released_refines {handed : Option (Nat × Waker)} {next : Arbiter} (refines : Refines s lock)
    (sound : FifoLock.Sound lock) (held : 0 < s.tokens) (result : s.release = some (handed,next)) :
    ∃ lock', (lock' = lock ∨ FifoLock.Step lock lock') ∧
      Refines {s with toArbiter := next,tokens := s.tokens-1} lock' := by
  have none_ : s.tokens-1 = 0 := by have := refines.tokens; omega
  have mine : lock.holder = some .token := (refines.holder .token).mp held
  obtain ⟨holder,lost,line⟩ := lock
  cases mine
  have safe : lost = false := Bool.eq_false_iff.mpr fun yes => nomatch sound.lost yes
  subst safe
  have others : ∀ i, ¬s.holds (.future i) := fun i => by simp [refines.holder]
  rcases release_cases result with ⟨empty,rfl,rfl⟩ | ⟨j,rest,link,queue,linked,rfl,rfl⟩
  · have line_ := refines.line
    rw [empty] at line_
    cases line_
    refine ⟨⟨none,false,[]⟩,Or.inr .release,refines.pass (i:=0) (by simp [empty]) refines.queue rfl (by simp [none_])
      (fun o => ?_) (fun _ _ => rfl) (fun _ _ => rfl) (refines.unlinked 0) (refines.out 0)⟩
    cases o with
    | token => simp [State.holds,none_]
    | future i => exact iff_of_false (others i) nofun
  · have line_ := refines.line
    rw [queue] at line_
    cases line_
    obtain ⟨waker,first⟩ := (refines.queue.queued j).mp (by rw [queue]; exact List.mem_cons_self)
    obtain rfl := Option.some.inj (first.symm.trans linked)
    have popping : s.waitQueue.pop = some (some (j,waker),⟨rest,update s.waitQueue.link j (some ⟨waker,true⟩)⟩) := by
      simp [WaitQueue.pop,queue,linked]
    refine ⟨⟨some (.future j),false,rest.map .future⟩,Or.inr .handOver,refines.pass (i:=j) rfl
      (refines.queue.pop popping) refines.taken (by simp [none_]) (fun o => ?_) (fun _ _ => rfl)
      (fun k other => update_of_ne other _ _) (fun at_ => ?_) (fun _ => ?_)⟩
    · cases o with
      | token => simp [State.holds,none_]
      | future k =>
        by_cases same : k = j
        · subst same
          simp [State.holds,WaitQueue.popped]
        · have nobody := others k
          simp only [State.holds,WaitQueue.popped,not_or] at nobody
          simp [State.holds,WaitQueue.popped,update_of_ne same,nobody,Ne.symm same]
    · rw [refines.unlinked j at_] at linked
      cases linked
    · exact WaitQueue.popped_not_waits ⟨waker,update_self j _ _⟩

theorem step_refines (refines : Refines s lock) (sound : FifoLock.Sound lock) (taken : Step s e t) :
    ∃ lock', (lock' = lock ∨ FifoLock.Step lock lock') ∧ Refines t lock' := by
  cases taken with
  | created here =>
    rename_i i
    refine ⟨lock,Or.inl rfl,refines.keep (i:=i) rfl refines.queue rfl rfl (fun j other => update_of_ne other _ _)
      (fun _ _ => rfl) ?_ (fun _ => refines.unlinked i (Or.inl here)) (by simp)⟩
    simp [State.holds,here]
  | polled here result => exact polled_refines refines sound here result
  | unlinked here =>
    rename_i i
    have kept : s.waitQueue.removeFromList i = s.waitQueue := WaitQueue.removeFromList_out (refines.out i (Or.inl here))
    rw [kept]
    refine ⟨lock,Or.inl rfl,refines.keep (i:=i) rfl refines.queue rfl rfl (fun j other => update_of_ne other _ _)
      (fun _ _ => rfl) ?_ (by simp) fun _ => refines.out i (Or.inl here)⟩
    simp [State.holds,here]
  | obtained here =>
    rename_i i
    have mine : lock.holder = some (.future i) := (refines.holder (.future i)).mp (Or.inr (Or.inl here))
    have none_ : s.tokens = 0 := by
      have nobody : ¬s.holds .token := by simp [refines.holder,mine]
      simpa [State.holds] using nobody
    obtain ⟨holder,lost,line⟩ := lock
    cases mine
    have safe : lost = false := Bool.eq_false_iff.mpr fun yes => nomatch sound.lost yes
    subst safe
    refine ⟨⟨some .token,false,line⟩,Or.inr .rename,refines.pass (i:=i) refines.line
      (refines.queue.free (refines.out i (Or.inr here))) refines.taken (by simp [none_]) (fun o => ?_)
      (fun j other => update_of_ne other _ _) (fun j other => WaitQueue.free_other other)
      (fun _ => WaitQueue.free_link) (by simp)⟩
    cases o with
    | token => simp [State.holds]
    | future j =>
      by_cases same : j = i
      · subst same
        simp [State.holds,WaitQueue.popped]
      · have nobody : ¬s.holds (.future j) := by simp [refines.holder,Ne.symm same]
        simp only [State.holds,WaitQueue.popped,not_or] at nobody
        simp [State.holds,WaitQueue.popped,update_of_ne same,WaitQueue.free_other same,nobody]
  | forgotten here =>
    rename_i i
    refine ⟨lock,Or.inl rfl,refines.keep (i:=i) rfl refines.queue rfl rfl (fun j other => update_of_ne other _ _)
      (fun _ _ => rfl) ?_ (fun _ => refines.unlinked i (Or.inr here)) (by simp)⟩
    simp [State.holds,here]
  | cancelled here =>
    rename_i i
    refine ⟨lock,Or.inl rfl,refines.keep (i:=i) rfl refines.queue rfl rfl (fun j other => update_of_ne other _ _)
      (fun _ _ => rfl) ?_ (by simp) (by simp)⟩
    simp [State.holds,here]
  | dropped here => exact dropped_refines refines sound here
  | tryAccessed result =>
    rcases tryAccess_cases result with ⟨empty,free,rfl,rfl⟩ | ⟨rfl,rfl⟩
    · have open_ := refines.open sound free
      subst open_
      have none_ : s.tokens = 0 := by
        have nobody : ¬s.holds .token := by simp [refines.holder,FifoLock.Lock.open_]
        simpa [State.holds] using nobody
      refine ⟨⟨some .token,false,[]⟩,Or.inr .enter,refines.pass (i:=0) (by simp [empty]) refines.queue rfl
        (by simp [none_]) (fun o => ?_) (fun _ _ => rfl) (fun _ _ => rfl) (refines.unlinked 0) (refines.out 0)⟩
      cases o with
      | token => simp [State.holds]
      | future i =>
        have nobody : ¬s.holds (.future i) := by simp [refines.holder,FifoLock.Lock.open_]
        simpa [State.holds] using nobody
    · exact ⟨lock,Or.inl rfl,refines.keep (i:=0) rfl refines.queue rfl rfl (fun _ _ => rfl) (fun _ _ => rfl) Iff.rfl
        (refines.unlinked 0) (refines.out 0)⟩
  | released held result => exact released_refines refines sound held result

-- The lock that the state is at, with what holds of it in every run.
def Locked (_ : List Event) (s : State) : Prop := ∃ lock, FifoLock.Sound lock ∧ Refines s lock

theorem initial_locked : Locked [] initial := ⟨_,FifoLock.open_sound,initial_refines⟩

theorem step_locked {evs : List Event} (locked : Locked evs s) (taken : Step s e t) : Locked (evs++[e]) t := by
  obtain ⟨lock,sound,refines⟩ := locked
  obtain ⟨next,same | step,after⟩ := step_refines refines sound taken
  · exact ⟨next,by rw [same]; exact sound,after⟩
  · exact ⟨next,step.sound sound,after⟩
end

-- As `holds`, where a future that is being dropped does not count.
def State.live (s : State) : Owner → Prop
  | .token => 0 < s.tokens
  | .future i => s.point i = .unlink true ∨ s.point i = .granted ∨ s.point i = .waiting ∧ s.waitQueue.popped i

-- While the access is taken, somebody has it or will be given it by its next
-- poll; while nobody has it, whoever asks next gets it.
def Recoverable (_ : List Event) (s : State) : Prop :=
  (s.taken = true → ∃ o, s.live o) ∧
  (∀ i waker, s.point i = .waiting → s.waitQueue.popped i → (s.poll i waker).1 = .granted) ∧
  ((∀ o, ¬s.live o) → s.tryAccess.1 = true ∧ ∀ i waker, (s.poll i waker).1 = .entered)

-- No future is dropped that has been popped, and none is popped that is being dropped.
def Kept (_ : List Event) (s : State) (e : Event) (_ : State) : Prop :=
  match e with
  | .cancelled i => ¬s.waitQueue.popped i
  | .released (some (j,_)) => s.point j ≠ .unlink false
  | _ => True

section
variable {s t : State} {e : Event} {evs : List Event} {i : Nat}

theorem live_holds {o : Owner} (live : s.live o) : s.holds o := by
  cases o with
  | token => exact live
  | future i => exact live.imp_right fun rest => rest.imp_right And.right

theorem Locked.unique (locked : Locked evs s) {o o' : Owner} (left : s.holds o) (right : s.holds o') : o = o' := by
  obtain ⟨lock,_,refines⟩ := locked
  exact Option.some.inj (((refines.holder o).mp left).symm.trans ((refines.holder o').mp right))

theorem Locked.taken (locked : Locked evs s) {o : Owner} (holds : s.holds o) : s.taken = true := by
  obtain ⟨lock,_,refines⟩ := locked
  rw [refines.taken]
  simp [FifoLock.Lock.locked,(refines.holder o).mp holds]

theorem Locked.busy (locked : Locked evs s) (filled : s.waitQueue.queue ≠ []) : s.taken = true := by
  obtain ⟨lock,sound,refines⟩ := locked
  rw [refines.taken]
  exact sound.busy (by rw [refines.line]; simpa using filled)

theorem Locked.recoverable (locked : Locked evs s) : Recoverable evs s ↔ (s.taken = true → ∃ o, s.live o) := by
  refine ⟨And.left,fun owned => ⟨owned,fun i waker waiting popped => ?_,fun nobody => ?_⟩⟩
  · have taken := locked.taken (o:=.future i) (Or.inr (Or.inr popped))
    obtain ⟨link,linked⟩ := popped
    simp [Arbiter.poll,taken,linked]
  · have free : s.taken = false := Bool.eq_false_iff.mpr fun taken => by
      obtain ⟨o,live⟩ := owned taken
      exact nobody o live
    have empty : s.waitQueue.queue = [] := by
      by_contra filled
      rw [locked.busy filled] at free
      cases free
    exact ⟨by simp [Arbiter.tryAccess,WaitQueue.isEmpty,empty,free],fun i waker => by
      simp [Arbiter.poll,WaitQueue.isEmpty,empty,free]⟩

theorem live_other {o : Owner} (tokens : t.tokens = s.tokens) (point : ∀ j, j ≠ i → t.point j = s.point j)
    (link : ∀ j, j ≠ i → t.waitQueue.link j = s.waitQueue.link j) (other : o ≠ .future i) (live : s.live o) :
    t.live o := by
  cases o with
  | token => simpa only [State.live,tokens] using live
  | future j =>
    have apart : j ≠ i := fun same => other (by rw [same])
    simpa only [State.live,WaitQueue.popped,point j apart,link j apart] using live

-- Somebody else than the future `i` has the access, and keeps it.
theorem still_owned (owned : s.taken = true → ∃ o, s.live o) (taken : t.taken = s.taken) (tokens : t.tokens = s.tokens)
    (point : ∀ j, j ≠ i → t.point j = s.point j) (link : ∀ j, j ≠ i → t.waitQueue.link j = s.waitQueue.link j)
    (idle : ¬s.live (.future i)) : t.taken = true → ∃ o, t.live o := by
  intro taken_
  rw [taken] at taken_
  obtain ⟨o,live⟩ := owned taken_
  have other : o ≠ .future i := fun same => idle (same ▸ live)
  exact ⟨o,live_other tokens point link other live⟩

theorem step_kept (locked : Locked evs s) (owned : s.taken = true → ∃ o, s.live o) (taken : Step s e t) :
    (t.taken = true → ∃ o, t.live o) ↔ Kept evs s e t := by
  have after := step_locked locked taken
  cases taken with
  | created here =>
    rename_i i
    refine iff_of_true (still_owned (i:=i) owned rfl rfl (fun j other => update_of_ne other _ _) (fun _ _ => rfl) ?_)
      True.intro
    simp [State.live,here]
  | polled here result =>
    rename_i outcome next i waker
    refine iff_of_true ?_ True.intro
    have suspended : s.point i ≠ .unlink true ∧ s.point i ≠ .granted := by
      constructor <;> intro at_ <;> rw [at_] at here <;> cases here
    rcases poll_cases result with ⟨_,_,rfl,rfl⟩ | ⟨_,⟨link,linked,rfl,rfl⟩ | ⟨waits,rfl,rfl⟩ | ⟨unlinked,rfl,rfl⟩⟩
    · exact fun _ => ⟨.future i,Or.inl (by simp [Polled.ready])⟩
    · exact fun _ => ⟨.future i,Or.inl (by simp [Polled.ready])⟩
    · refine still_owned (i:=i) owned rfl rfl (fun j other => update_of_ne other _ _) (fun _ _ => rfl) ?_
      simp only [State.live,suspended,false_or,not_and]
      exact fun _ popped => WaitQueue.popped_not_waits popped waits
    · refine still_owned (i:=i) owned rfl rfl (fun j other => update_of_ne other _ _)
        (fun j other => WaitQueue.push_other other) ?_
      simp [State.live,suspended,WaitQueue.popped,unlinked]
  | unlinked here =>
    rename_i i
    exact iff_of_true (fun _ => ⟨.future i,Or.inr (Or.inl (update_self i _ _))⟩) True.intro
  | obtained here => exact iff_of_true (fun _ => ⟨.token,Nat.succ_pos _⟩) True.intro
  | forgotten here =>
    rename_i i
    refine iff_of_true (still_owned (i:=i) owned rfl rfl (fun j other => update_of_ne other _ _) (fun _ _ => rfl) ?_)
      True.intro
    simp [State.live,here]
  | cancelled here =>
    rename_i i
    constructor
    · intro kept popped
      have mine : s.holds (.future i) := Or.inr (Or.inr popped)
      obtain ⟨o,live⟩ := kept (locked.taken mine)
      have same : o = .future i := after.unique (live_holds live) (Or.inr (Or.inr popped))
      subst same
      simp [State.live] at live
    · intro unpopped
      have unpopped : ¬s.waitQueue.popped i := unpopped
      refine still_owned (i:=i) owned rfl rfl (fun j other => update_of_ne other _ _) (fun _ _ => rfl) ?_
      simp [State.live,here,unpopped]
  | dropped here =>
    rename_i i
    refine iff_of_true (still_owned (i:=i) owned rfl rfl (fun j other => update_of_ne other _ _) (fun j other =>
      (WaitQueue.free_other other).trans (WaitQueue.removeFromList_other other)) ?_) True.intro
    simp [State.live,here]
  | tryAccessed result =>
    refine iff_of_true ?_ True.intro
    rcases tryAccess_cases result with ⟨_,_,rfl,rfl⟩ | ⟨rfl,rfl⟩
    · exact fun _ => ⟨.token,Nat.succ_pos _⟩
    · exact owned
  | released held result =>
    rcases release_cases result with ⟨_,rfl,rfl⟩ | ⟨j,rest,link,queue,linked,rfl,rfl⟩
    · exact iff_of_true nofun True.intro
    · have popped : WaitQueue.popped ⟨rest,update s.waitQueue.link j (some {link with isPopped := true})⟩ j :=
        ⟨link.waker,update_self j _ _⟩
      constructor
      · intro kept dropping
        have dropping : s.point j = .unlink false := dropping
        obtain ⟨o,live⟩ := kept (locked.taken (o:=.token) held)
        have same : o = .future j := after.unique (live_holds live) (Or.inr (Or.inr popped))
        subst same
        simp [State.live,dropping] at live
      · intro kept _
        refine ⟨.future j,Or.inr (Or.inr ⟨?_,popped⟩)⟩
        obtain ⟨lock,_,refines⟩ := locked
        have waits := (refines.queue.queued j).mp (by rw [queue]; exact List.mem_cons_self)
        cases at_ : s.point j with
        | waiting => rfl
        | gone => rw [refines.unlinked j (Or.inl at_)] at linked; cases linked
        | fresh => rw [refines.unlinked j (Or.inr at_)] at linked; cases linked
        | granted => exact absurd waits (refines.out j (Or.inr at_))
        | unlink ready =>
          cases ready with
          | true => exact absurd waits (refines.out j (Or.inl at_))
          | false => exact absurd at_ kept
end

-- Drop of an ExclusiveAccess never fails: each link in the queue is alive.
theorem Locked.releases {s : State} {evs : List Event} (locked : Locked evs s) (held : 0 < s.tokens) :
    ∃ handed t, Step s (.released handed) t := by
  obtain ⟨lock,_,refines⟩ := locked
  by_cases empty : s.waitQueue.isEmpty = true
  · exact ⟨_,_,.released held (by unfold Arbiter.release; rw [if_pos empty])⟩
  · obtain ⟨popped,got⟩ := refines.queue.pop_returns
    exact ⟨_,_,.released held (by unfold Arbiter.release; rw [if_neg empty,got]; rfl)⟩

theorem recoverable_iff {s : State} (run : Run s) : run.Through Recoverable ↔ run.Every Kept := by
  have start : Recoverable [] initial := initial_locked.recoverable.mpr nofun
  refine run.through_iff Locked initial_locked step_locked start fun locked recoverable taken => ?_
  rw [(step_locked locked taken).recoverable]
  exact step_kept locked recoverable.1 taken

-- One future waits while another context has the access, is handed it, and is
-- dropped before it is polled again.
def cancelsGranted :=
  (((((Transition.Run.start : Run _).snoc
    (.tryAccessed true) (.tryAccessed rfl)).snoc
    (.created 0) (.created rfl)).snoc
    (.polled 0 ⟨1,0⟩ .queued) (.polled rfl rfl)).snoc
    (.released (some (0,⟨1,0⟩))) (.released (by decide) rfl)).snoc
    (.cancelled 0) (.cancelled rfl)

theorem cancelsGranted_locks_out : ¬ ∀ (s : State) (run : Run s), run.Through Recoverable := by
  intro all
  obtain ⟨o,live⟩ := (all _ cancelsGranted).last.1 rfl
  cases o with
  | token => exact Nat.lt_irrefl 0 live
  | future i =>
    by_cases first : i = 0
    · subst first
      rcases live with point | point | ⟨point,_⟩ <;> cases point
    · rcases live with point | point | ⟨point,_⟩ <;> simp [initial,update_of_ne first] at point

end Rtic.Sync.Arbiter
