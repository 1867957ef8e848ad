import Rtic.Common.PollHistory
import Rtic.Sync.ArbiterOwnership
import Rtic.Sync.ChannelSlots
namespace Rtic.Sync
open Function Rtic.Common Transition

namespace Channel
variable {D T : Type}

def Event.pops : Event T → Option (Nat × Waker)
  | .gaveBack _ _ handed => handed
  | .received _ _ handed => handed
  | .unqueued j waker => some (j,waker)
  | _ => none

-- The send futures. One is popped as it is handed a slot, and by Receiver::drop.
def sends (D T : Type) : Futures (Event T) (State D T) where
  created
    | .sendCalled i _ => some i
    | _ => none
  pending
    | .queued i _ => some i
    | .stillPending i => some i
    | _ => none
  clones
    | .queued _ waker => some waker
    | _ => none
  woken e _ := e.pops

abbrev PolledRun (api : Deque D) (N : Nat) (s : State D T) :=
  Transition.Run ((sends D T).Step (Step api)) (initial api N) s

-- The link of a send future holds the waker of the first of these polls.
def Sender.Captures (x : Sender T) (wakers : List Waker) : Prop :=
  match x.point with
  | .fresh _ => x.link = none ∧ wakers = []
  | .waiting _ => ∃ link, x.link = some link ∧ wakers.head? = some link.waker
  | .unlink _ _ => ∀ link, x.link = some link → wakers.head? = some link.waker
  | .takeSlot _ _ => ∀ link, x.link = some link → wakers.head? = some link.waker
  | .giveBack _ _ _ => ∀ link, x.link = some link → wakers.head? = some link.waker
  | .leave _ _ => ∀ link, x.link = some link → wakers.head? = some link.waker
  | _ => x.link = none

def Captures (evs : List (InContext (Event T))) (s : State D T) : Prop :=
  ∀ i, (s.sender i).Captures ((sends D T).polls evs i)

section
variable {api : Deque D} {evs : List (InContext (Event T))} {s t : State D T} {l : InContext (Event T)} {i : Nat}
  {x y : Sender T} {wakers : List Waker} {e : Event T} {waker : Waker}

theorem Sender.Captures.held {link : Link} (captures : x.Captures wakers) (linked : x.link = some link) :
    wakers.head? = some link.waker := by
  unfold Sender.Captures at captures
  split at captures
  case h_2 =>
    obtain ⟨own,same,first⟩ := captures
    cases same.symm.trans linked
    exact first
  all_goals simp_all

-- Popping a link leaves its waker where it is.
theorem Sender.Captures.popped {link : Link} {slot : Option Nat} (captures : x.Captures wakers) (linked : x.link = some link) :
    Sender.Captures ⟨x.point,some link.popped,slot⟩ wakers := by
  have first := captures.held linked
  unfold Sender.Captures at *
  cases point : x.point <;> simp_all [Link.popped]

theorem local_captures {context : Waker} (moves : Local api s i x e y) (captures : x.Captures wakers) :
    y.Captures ((sends D T).next i wakers ⟨e,context⟩) := by
  have held : ∀ link, x.link = some link → wakers.head? = some link.waker := fun link linked => captures.held linked
  cases moves with
  | stillPending future alive queued =>
    exact ⟨_,rfl,Futures.head_next (captures.held rfl) rfl rfl⟩
  | pollClosed future closed =>
    rename_i p _ _ _
    simpa [Sender.Captures,Futures.next,sends] using held
  | cancelled => exact fun link linked => captures.held linked
  | left =>
    rename_i outcome _ _
    cases outcome <;> exact rfl
  | _ => simp_all [Sender.Captures,Futures.next,sends]

theorem local_only (moves : Local api s i x e y) {j : Nat} (other : j ≠ i) :
    (sends D T).created e ≠ some j ∧ (sends D T).pending e ≠ some j := by
  cases moves with
  | sendCalled => exact ⟨by simpa [sends] using Ne.symm other,by simp [sends]⟩
  | stillPending => exact ⟨by simp [sends],by simpa [sends] using Ne.symm other⟩
  | _ => simp [sends]

-- A step that replaces one Sender.
theorem Captures.set (captures : Captures evs s) (sender : t.sender = update s.sender i y)
    (own : y.Captures ((sends D T).next i ((sends D T).polls evs i) l))
    (only : ∀ j, j ≠ i → (sends D T).created l.event ≠ some j ∧ (sends D T).pending l.event ≠ some j) :
    Captures (evs++[l]) t := by
  intro j
  rw [sender]
  by_cases same : j = i
  · subst same
    rwa [update_self,Futures.polls_snoc]
  · rw [update_of_ne same,Futures.polls_keep (only j same).1 (only j same).2]
    exact captures j

-- No send future is created, and none is polled in vain.
def quiet (e : Event T) : Prop := (sends D T).created e = none ∧ (sends D T).pending e = none

theorem Captures.own (captures : Captures evs s) (sender : t.sender = update s.sender i y) (still : quiet (D:=D) l.event)
    (own : y.Captures ((sends D T).polls evs i)) : Captures (evs++[l]) t := by
  refine captures.set sender ?_ fun j _ => by simp [still.1,still.2]
  simpa [Futures.next,still.1,still.2] using own

theorem Captures.keep (captures : Captures evs s) (sender : t.sender = s.sender) (still : quiet (D:=D) l.event) :
    Captures (evs++[l]) t := by
  intro j
  rw [sender,Futures.polls_keep (by simp [still.1]) (by simp [still.2])]
  exact captures j

theorem Captures.popped {k : Nat} {link : Link} {slot : Option Nat} (captures : Captures evs s)
    (linked : (s.sender k).link = some link)
    (sender : t.sender = update s.sender k ⟨(s.sender k).point,some link.popped,slot⟩) : Captures evs t := by
  intro j
  rw [sender]
  by_cases same : j = k
  · subst same
    simpa using (captures j).popped linked
  · simpa [update_of_ne same] using captures j

theorem Captures.popWaiter {waiter : Option (Nat × Waker)} (captures : Captures evs s) (popped : popWaiter s = some (waiter,t)) :
    Captures evs t := by
  rcases popWaiter_cases popped with ⟨_,_,rfl⟩ | ⟨k,rest,link,_,linked,_,rfl⟩
  · exact captures
  · exact captures.popped linked rfl

theorem Captures.returnFreeSlot {slot : Nat} {handed : Option (Nat × Waker)} (captures : Captures evs s)
    (returned : returnFreeSlot api s slot = some (handed,t)) : Captures evs t := by
  rcases returnFreeSlot_cases returned with ⟨_,_,rfl⟩ | ⟨k,rest,link,_,linked,_,rfl⟩
  · exact captures
  · exact captures.popped linked rfl

theorem step_captures (captures : Captures evs s) (taken : (sends D T).Step (Step api) s l t) : Captures (evs++[l]) t := by
  obtain ⟨e,context⟩ := l
  obtain ⟨taken,clones⟩ := taken
  have at_ : ∀ {i x}, s.sender i = x → x.Captures ((sends D T).polls evs i) := fun here => here ▸ captures _
  cases taken with
  | sends i here moves => exact captures.set rfl (local_captures moves (at_ here)) fun j other => local_only moves other
  | receives here moves => exact captures.keep rfl (by cases moves <;> exact ⟨rfl,rfl⟩)
  | tryClaimed here got => exact captures.own rfl ⟨rfl,rfl⟩ (at_ here :)
  | tryFull here got => exact captures.own rfl ⟨rfl,rfl⟩ (at_ here :)
  | claimed here future alive first some_ => exact captures.own rfl ⟨rfl,rfl⟩ nofun
  | queued here future alive full =>
    rename_i val i waker f p
    have context_ : waker = context := clones waker rfl
    subst context_
    refine captures.set rfl ?_ fun j other => ⟨by simp [sends],by simpa [sends] using Ne.symm other⟩
    have before := at_ here
    rcases future_cases future with rfl | rfl
    · obtain ⟨_,none_⟩ := before
      refine ⟨_,rfl,?_⟩
      rw [none_,Futures.next_pending rfl rfl]
      rfl
    · obtain ⟨_,none_,_⟩ := before
      cases none_
  | unlinked here queued =>
    refine captures.own rfl ⟨rfl,rfl⟩ ?_
    rintro link ⟨⟩
    have first := (at_ here).held rfl
    exact first
  | gaveBack here returned =>
    rename_i slot handed u i val outcome c f
    have after := captures.returnFreeSlot returned
    have own := after i
    rw [returnFreeSlot_at returned here] at own
    exact after.own rfl ⟨rfl,rfl⟩ (own :)
  | wrote here => exact captures.own rfl ⟨rfl,rfl⟩ (at_ here :)
  | pushed here => exact captures.own rfl ⟨rfl,rfl⟩ (at_ here :)
  | sent here => exact captures.own rfl ⟨rfl,rfl⟩ (at_ here :)
  | cloned here => exact captures.own rfl ⟨rfl,rfl⟩ rfl
  | senderDropped here =>
    refine captures.own rfl ⟨rfl,rfl⟩ ?_
    have before := at_ here
    split <;> exact before
  | lastWoke here => exact captures.own rfl ⟨rfl,rfl⟩ (at_ here :)
  | received here returned => exact (captures.returnFreeSlot returned).keep rfl ⟨rfl,rfl⟩
  | unqueued here got => exact (captures.popWaiter got).keep rfl ⟨rfl,rfl⟩
  | _ => exact captures.keep rfl ⟨rfl,rfl⟩

theorem wakes_first (captures : Captures evs s) (taken : (sends D T).Step (Step api) s l t) :
    (sends D T).WakesFirst evs s l t := by
  obtain ⟨e,context⟩ := l
  obtain ⟨taken,_⟩ := taken
  have returned : ∀ {slot handed u}, returnFreeSlot api s slot = some (handed,u) → ∀ i waker, handed = some (i,waker) →
      ((sends D T).polls evs i).head? = some waker := by
    intro slot handed u returned i waker woken
    rcases returnFreeSlot_cases returned with ⟨_,none_,_⟩ | ⟨_,rest,link,_,linked,same,_⟩
    · rw [none_] at woken
      cases woken
    · rw [same] at woken
      cases woken
      exact (captures _).held linked
  intro i waker woken
  cases taken with
  | sends i here moves => cases moves <;> cases woken
  | receives here moves => cases moves <;> cases woken
  | gaveBack here result => exact returned result i waker woken
  | received here result => exact returned result i waker woken
  | unqueued here got =>
    obtain ⟨rest,link,_,linked,rfl,_⟩ := popWaiter_some got
    cases woken
    exact (captures _).held linked
  | _ => cases woken

theorem send_woken_iff {K : Type} (task : Waker → K) {N : Nat} (run : PolledRun api N s) :
    run.Every ((sends D T).WakesLatest task) ↔ run.Every ((sends D T).Unmoved task) := by
  refine Futures.wakesLatest_iff run (run.every Captures ?_ step_captures wakes_first)
  intro i
  by_cases first : i = 0 <;> simp [opened,first,idle,gone,Sender.Captures]

end

-- A send future waits for the one slot. It is polled by the task of one waker, then by that of
-- another, and the first is woken as the slot is handed over.
def wakesFormer :=
  ((((((((((((((Transition.Run.start : PolledRun (T:=Nat) (BoundedDeque.listApi 1) 1 _).snoc
    ⟨.tryCalled 0 7,⟨0,0⟩⟩ ⟨.sends 0 rfl .tryCalled,nofun⟩).snoc
    ⟨.passed 0,⟨0,0⟩⟩ ⟨.sends 0 rfl (.queueEmpty rfl),nofun⟩).snoc
    ⟨.passed 0,⟨0,0⟩⟩ ⟨.sends 0 rfl (.isOpen rfl),nofun⟩).snoc
    ⟨.claimed 0 0,⟨0,0⟩⟩ ⟨.tryClaimed rfl rfl,nofun⟩).snoc
    ⟨.wrote 0 0 7,⟨0,0⟩⟩ ⟨.wrote rfl,nofun⟩).snoc
    ⟨.pushed 0 0 7,⟨0,0⟩⟩ ⟨.pushed rfl,nofun⟩).snoc
    ⟨.sent 0 7 none,⟨0,0⟩⟩ ⟨.sent rfl,nofun⟩).snoc
    ⟨.sendCalled 0 1,⟨0,0⟩⟩ ⟨.sends 0 rfl .sendCalled,nofun⟩).snoc
    ⟨.queued 0 ⟨1,0⟩,⟨1,0⟩⟩
      ⟨.queued rfl rfl rfl (Or.inr rfl),fun _ made => (Option.some.inj made).symm⟩).snoc
    ⟨.stillPending 0,⟨2,0⟩⟩ ⟨.sends 0 rfl (.stillPending rfl rfl rfl),nofun⟩).snoc
    ⟨.tryRecvCalled,⟨0,0⟩⟩ ⟨.receives rfl .tryRecvCalled,nofun⟩).snoc
    ⟨.popped 0,⟨0,0⟩⟩ ⟨.popped rfl rfl,nofun⟩).snoc
    ⟨.slotRead 0 7,⟨0,0⟩⟩ ⟨.receives rfl (.read rfl),nofun⟩).snoc
    ⟨.received 0 7 (some (0,⟨1,0⟩)),⟨0,0⟩⟩ ⟨.received rfl rfl,nofun⟩

end Channel

namespace Arbiter

-- The access futures, whose polls show their wakers. One is popped as it is granted the access.
def accesses : Futures Event State where
  created
    | .created i => some i
    | _ => none
  pending
    | .polled i _ .queued => some i
    | .polled i _ .stillQueued => some i
    | _ => none
  clones
    | .polled _ waker _ => some waker
    | _ => none
  woken
    | .released handed,_ => handed
    | _,_ => none

abbrev PolledRun (s : State) := Transition.Run (accesses.Step Step) initial s

def FuturePoint.Captures (point : FuturePoint) (link : Option Link) (wakers : List Waker) : Prop :=
  match point with
  | .gone => link = none
  | .fresh => link = none ∧ wakers = []
  | .waiting => ∃ own, link = some own ∧ wakers.head? = some own.waker
  | _ => ∀ own, link = some own → wakers.head? = some own.waker

def Captures (evs : List (InContext Event)) (s : State) : Prop :=
  ∀ i, (s.point i).Captures (s.waitQueue.link i) (accesses.polls evs i)

section
variable {evs : List (InContext Event)} {s t : State} {l : InContext Event} {i : Nat} {point : FuturePoint} {link : Option Link}
  {wakers : List Waker}

theorem FuturePoint.Captures.held {own : Link} (captures : point.Captures (some own) wakers) :
    wakers.head? = some own.waker := by
  cases point with
  | gone => cases captures
  | fresh => cases captures.1
  | waiting =>
    obtain ⟨_,same,first⟩ := captures
    cases same
    exact first
  | unlink ready => exact captures own rfl
  | granted => exact captures own rfl

theorem FuturePoint.Captures.popped {own : Link} (captures : point.Captures (some own) wakers) :
    point.Captures (some {own with isPopped := true}) wakers := by
  have first := captures.held
  cases point <;> simp_all [FuturePoint.Captures]

-- The link of one future changes, or where it stands.
theorem Captures.set (captures : Captures evs s) (points : t.point = update s.point i point)
    (links : ∀ j, j ≠ i → t.waitQueue.link j = s.waitQueue.link j)
    (own : point.Captures (t.waitQueue.link i) (accesses.next i (accesses.polls evs i) l))
    (only : ∀ j, j ≠ i → accesses.created l.event ≠ some j ∧ accesses.pending l.event ≠ some j) :
    Captures (evs++[l]) t := by
  intro j
  rw [points]
  by_cases same : j = i
  · subst same
    rwa [update_self,Futures.polls_snoc]
  · rw [update_of_ne same,links j same,Futures.polls_keep (only j same).1 (only j same).2]
    exact captures j

theorem Captures.own (captures : Captures evs s) (still : accesses.created l.event = none ∧ accesses.pending l.event = none)
    (points : t.point = update s.point i point) (links : ∀ j, j ≠ i → t.waitQueue.link j = s.waitQueue.link j)
    (own : point.Captures (t.waitQueue.link i) (accesses.polls evs i)) : Captures (evs++[l]) t := by
  refine captures.set points links ?_ fun j _ => by simp [still.1,still.2]
  simpa [Futures.next,still.1,still.2] using own

theorem removeFromList_captures (captures : point.Captures (s.waitQueue.link i) wakers) :
    point.Captures ((s.waitQueue.removeFromList i).link i) wakers := by
  unfold WaitQueue.removeFromList
  split
  · rename_i own linked
    split
    · exact captures
    · rw [linked] at captures
      simpa using captures.popped
  · exact captures

-- A link is kept, and so is its waker, from the poll that makes it to the end of the future.
theorem Captures.past (captures : Captures evs s) : ∀ own, s.waitQueue.link i = some own →
    (accesses.polls evs i).head? = some own.waker := by
  intro own linked
  have here := captures i
  rw [linked] at here
  exact here.held

theorem polled_captures {waker : Waker} {outcome : Polled} {next : Arbiter} (captures : Captures evs s)
    (here : (s.point i).suspended = true) (result : s.poll i waker = (outcome,next)) :
    Captures (evs++[⟨.polled i waker outcome,waker⟩])
      {s with toArbiter := next,point := update s.point i (if outcome.ready then .unlink true else .waiting)} := by
  have only : ∀ j, j ≠ i → accesses.created (.polled i waker outcome) ≠ some j ∧
      accesses.pending (.polled i waker outcome) ≠ some j := by
    intro j other
    cases outcome <;> simp [accesses,Ne.symm other]
  have before := captures i
  rcases poll_cases result with ⟨_,_,rfl,rfl⟩ | ⟨_,⟨link,linked,rfl,rfl⟩ | ⟨⟨link,linked⟩,rfl,rfl⟩ | ⟨unlinked,rfl,rfl⟩⟩
  · exact captures.own ⟨rfl,rfl⟩ rfl (fun _ _ => rfl) captures.past
  · exact captures.own ⟨rfl,rfl⟩ rfl (fun _ _ => rfl) captures.past
  · exact captures.set rfl (fun _ _ => rfl) ⟨_,linked,Futures.head_next (captures.past _ linked) rfl rfl⟩ only
  · refine captures.set rfl (fun j other => WaitQueue.push_other other) ⟨_,WaitQueue.push_link,?_⟩ only
    -- Only a future that has not been polled has no link.
    have none_ : accesses.polls evs i = [] := by
      cases point : s.point i with
      | fresh =>
        rw [point] at before
        exact before.2
      | waiting =>
        rw [point,unlinked] at before
        obtain ⟨_,impossible,_⟩ := before
        cases impossible
      | _ =>
        rw [point] at here
        cases here
    rw [none_,Futures.next_pending rfl rfl]
    rfl

theorem step_captures (captures : Captures evs s) (taken : accesses.Step Step s l t) : Captures (evs++[l]) t := by
  obtain ⟨e,context⟩ := l
  obtain ⟨taken,clones⟩ := taken
  cases taken with
  | created here =>
    rename_i i
    have before := captures i
    rw [here] at before
    refine captures.set rfl (fun _ _ => rfl) ⟨before,by simp [Futures.next,accesses]⟩ fun j other => ?_
    exact ⟨by simpa [accesses] using Ne.symm other,by simp [accesses]⟩
  | polled here result =>
    rename_i outcome next i waker
    have context_ : waker = context := clones waker rfl
    subst context_
    exact polled_captures captures here result
  | unlinked here =>
    rename_i i
    have past : FuturePoint.granted.Captures (s.waitQueue.link i) (accesses.polls evs i) := captures.past
    refine captures.own ⟨rfl,rfl⟩ rfl (fun j other => WaitQueue.removeFromList_other other) ?_
    exact removeFromList_captures past
  | obtained here => exact captures.own ⟨rfl,rfl⟩ rfl (fun j other => WaitQueue.free_other other) WaitQueue.free_link
  | forgotten here =>
    rename_i i
    have before := captures i
    rw [here] at before
    exact captures.own ⟨rfl,rfl⟩ rfl (fun _ _ => rfl) before.1
  | cancelled here => exact captures.own ⟨rfl,rfl⟩ rfl (fun _ _ => rfl) captures.past
  | dropped here =>
    refine captures.own ⟨rfl,rfl⟩ rfl (fun j other => ?_) WaitQueue.free_link
    exact (WaitQueue.free_other other).trans (WaitQueue.removeFromList_other other)
  | tryAccessed result =>
    rename_i success next
    intro j
    rw [Futures.polls_keep (by simp [accesses]) (by simp [accesses])]
    rcases tryAccess_cases result with ⟨_,_,_,rfl⟩ | ⟨_,rfl⟩ <;> exact captures j
  | released held result =>
    intro j
    rw [Futures.polls_keep (by simp [accesses]) (by simp [accesses])]
    rcases release_cases result with ⟨_,_,rfl⟩ | ⟨k,rest,link,_,linked,_,rfl⟩
    · exact captures j
    · by_cases same : j = k
      · subst same
        have before := captures j
        rw [linked] at before
        simpa using before.popped
      · simpa [update_of_ne same] using captures j

theorem wakes_first (captures : Captures evs s) (taken : accesses.Step Step s l t) : accesses.WakesFirst evs s l t := by
  obtain ⟨e,context⟩ := l
  obtain ⟨taken,_⟩ := taken
  intro i waker woken
  cases taken with
  | released held result =>
    rcases release_cases result with ⟨_,rfl,_⟩ | ⟨j,rest,link,_,linked,rfl,_⟩
    · cases woken
    · cases woken
      exact captures.past link linked
  | _ => cases woken

theorem access_woken_iff {K : Type} (task : Waker → K) (run : PolledRun s) :
    run.Every (accesses.WakesLatest task) ↔ run.Every (accesses.Unmoved task) := by
  have base : Captures [] initial := fun _ => rfl
  exact Futures.wakesLatest_iff run (run.every Captures base step_captures wakes_first)

end

-- The same of an access future.
def wakesFormer :=
  (((((Transition.Run.start : PolledRun _).snoc
    ⟨.tryAccessed true,⟨0,0⟩⟩ ⟨.tryAccessed rfl,nofun⟩).snoc
    ⟨.created 0,⟨0,0⟩⟩ ⟨.created rfl,nofun⟩).snoc
    ⟨.polled 0 ⟨1,0⟩ .queued,⟨1,0⟩⟩ ⟨.polled rfl rfl,fun _ made => (Option.some.inj made).symm⟩).snoc
    ⟨.polled 0 ⟨2,0⟩ .stillQueued,⟨2,0⟩⟩ ⟨.polled rfl rfl,fun _ made => (Option.some.inj made).symm⟩).snoc
    ⟨.released (some (0,⟨1,0⟩)),⟨0,0⟩⟩ ⟨.released (by decide) rfl,nofun⟩

end Arbiter

-- Exactly in the runs in which each future that is popped was polled last by the task that polled it first.
theorem granted_woken_iff {K : Type} (task : Waker → K) :
    (∀ {D T : Type} (api : Channel.Deque D) (N : Nat) (s : Channel.State D T) (run : Channel.PolledRun api N s),
      run.Every ((Channel.sends D T).WakesLatest task) ↔ run.Every ((Channel.sends D T).Unmoved task)) ∧
    ∀ (s : Arbiter.State) (run : Arbiter.PolledRun s),
      run.Every (Arbiter.accesses.WakesLatest task) ↔ run.Every (Arbiter.accesses.Unmoved task) :=
  ⟨fun _ _ _ run => Channel.send_woken_iff task run,fun _ run => Arbiter.access_woken_iff task run⟩

theorem wakesFormer_not_granted : ¬Channel.wakesFormer.Every ((Channel.sends _ Nat).WakesLatest Waker.data) ∧
    ¬Arbiter.wakesFormer.Every (Arbiter.accesses.WakesLatest Waker.data) := by
  constructor
  · rintro ⟨_,latest⟩
    have woken := latest 0 ⟨1,0⟩ rfl
    revert woken
    decide
  · rintro ⟨_,latest⟩
    have woken := latest 0 ⟨1,0⟩ rfl
    revert woken
    decide

end Rtic.Sync
