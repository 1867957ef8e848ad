import Rtic.Common.PollHistory
import Rtic.Time.TimerLinks
namespace Rtic.Time.TimerQueue
open Function Rtic.Common Transition

def HandlerPoint.waker : HandlerPoint → Option Waker
  | .wake _ waker => some waker
  | _ => none

-- A poll that finds the instant ahead ends as Pending, whether it makes a link or has made one before.
def delays (w : Nat) : Futures Event (State w) where
  created
    | .created i _ => some i
    | _ => none
  pending
    | .linkMade i _ _ => some i
    | .stillPending i => some i
    | _ => none
  clones
    | .linkMade _ _ waker => some waker
    | _ => none
  woken
    | .popped i _,t => t.handler.waker.map (i,·)
    | _,_ => none

abbrev PolledRun (gated : Bool) (start : Int) (s : State w) :=
  Transition.Run ((delays w).Step (Step gated)) (initial w gated start) s

def captured (queue : LinkedList WaitingWaker) (i : Nat) : Option Waker := (queue.value i).map WaitingWaker.waker

-- The link of a Delay holds the waker of the first poll.
def Captures (evs : List (InContext Event)) (s : State w) : Prop :=
  ∀ i, s.point i ≠ .gone → ((delays w).polls evs i).head? = captured s.queue i

section
variable {w : Nat} {gated : Bool} {start : Int} {evs : List (InContext Event)} {s t : State w} {l : InContext Event} {i : Nat}
  {list : List Nat} {queue next : LinkedList WaitingWaker}

theorem Captures.keep (captures : Captures evs s) (created : (delays w).created l.event = none)
    (pending : (delays w).pending l.event = none)
    (same : ∀ j, t.point j ≠ .gone → s.point j ≠ .gone ∧ captured t.queue j = captured s.queue j) :
    Captures (evs++[l]) t := by
  intro j alive
  obtain ⟨before,value⟩ := same j alive
  rw [Futures.polls_keep (by simp [created]) (by simp [pending]),value]
  exact captures j before

theorem captured_of_value {j : Nat} (same : next.value j = queue.value j) : captured next j = captured queue j :=
  congrArg _ same

theorem captured_other {i j : Nat} {link : Option (Link WaitingWaker)} (other : j ≠ i) :
    captured {queue with link := update queue.link i link} j = captured queue j := by
  simp [captured,LinkedList.value,update_of_ne other]

theorem point_other {j : Nat} {d : Delay} (moved : t.delay = update s.delay i d) (other : j ≠ i) : t.point j = s.point j := by
  simp [State.point,moved,update_of_ne other]

-- Popping a link leaves its waker where it is.
theorem Sound.captured_popped {now : Int} {val : WaitingWaker} (sound : Sound queue s.delay list)
    (result : queue.popIf (shouldPop w now) = some (some (i,val,true),next)) :
    captured queue i = some val.waker ∧ ∀ j, captured next j = captured queue j := by
  obtain ⟨rest,waker,rfl,rfl,before,_,_,after,others⟩ := sound.popped result
  have here : captured queue i = some waker := by simp [captured,before]
  refine ⟨here,fun j => ?_⟩
  by_cases same : j = i
  · subst same
    rw [here]
    simp [captured,after]
  · exact captured_of_value (others j same)

theorem Captures.move {point : DelayPoint} (captures : Captures evs s) (created : (delays w).created l.event = none)
    (pending : (delays w).pending l.event = none) (alive : s.point i ≠ .gone)
    (same : ∀ j, captured next j = captured s.queue j) : Captures (evs++[l]) {s.move i point with queue := next} := by
  refine captures.keep created pending fun j after => ⟨?_,same j⟩
  by_cases here : j = i
  · exact here ▸ alive
  · rwa [point_other rfl here] at after

theorem Captures.leave (captures : Captures evs s) (created : (delays w).created l.event = none)
    (pending : (delays w).pending l.event = none) (same : ∀ j, captured next j = captured s.queue j) :
    Captures (evs++[l]) {s.move i .gone with queue := next.free i} := by
  refine captures.keep created pending fun j after => ?_
  have other : j ≠ i := by
    rintro rfl
    exact after (by simp [State.point,State.move])
  refine ⟨by rwa [point_other rfl other] at after,?_⟩
  rw [← same j]
  exact captured_other other

theorem step_captures (sound : Sound s.queue s.delay list) (captures : Captures evs s)
    (taken : (delays w).Step (Step gated) s l t) : Captures (evs++[l]) t := by
  obtain ⟨e,context⟩ := l
  obtain ⟨taken,clones⟩ := taken
  have alive : ∀ {i p}, s.point i = p → p ≠ .gone → s.point i ≠ .gone := fun here other => here ▸ other
  cases taken with
  | created here =>
    rename_i i instant
    intro j after
    by_cases same : j = i
    · subst same
      rw [Futures.polls_created rfl]
      have stands := sound.stands j
      simp only [Stands,show (s.delay j).point = .gone from here] at stands
      simp [captured,stands.1]
    · rw [Futures.polls_keep (by simpa [delays] using Ne.symm same) (by simp [delays])]
      exact captures j (by rwa [point_other rfl same] at after)
  | linkMade here early unlinked =>
    rename_i i waker
    have context_ : waker = context := clones waker rfl
    subst context_
    intro j after
    by_cases same : j = i
    · subst same
      have none_ := captures j (alive here (by simp))
      rw [show captured s.queue j = none by simp [captured,LinkedList.value,unlinked]] at none_
      rw [Futures.polls_pending (by simp [delays]) rfl,List.head?_eq_none_iff.mp none_]
      simp [captured,value_place]
    · rw [Futures.polls_keep (by simp [delays]) (by simpa [delays] using Ne.symm same)]
      refine (captures j (by rwa [point_other rfl same] at after)).trans ?_
      exact (captured_other same).symm
  | stillPending here early linked =>
    rename_i link i
    intro j after
    by_cases same : j = i
    · subst same
      have kept := captures j after
      rw [Futures.polls_pending (by simp [delays]) rfl,List.head?_append,kept]
      simp [captured,LinkedList.value,linked]
    · rw [Futures.polls_keep (by simp [delays]) (by simpa [delays] using Ne.symm same)]
      exact captures j after
  | inserted here result =>
    obtain ⟨_,inserted,_⟩ := sound.insert here result
    exact captures.move rfl rfl (alive here (by simp)) fun j => captured_of_value (inserted.value j)
  | marked here =>
    rename_i i headUpdated
    refine captures.keep rfl rfl fun j after => ⟨?_,rfl⟩
    by_cases same : j = i
    · exact same ▸ alive here (by simp)
    · rwa [point_other rfl same] at after
  | pendInterrupt here => exact captures.move rfl rfl (alive here (by simp)) fun _ => rfl
  | returned here done => exact captures.leave rfl rfl fun _ => rfl
  | dropping here linked unpopped => exact captures.move rfl rfl (alive here (by simp)) fun _ => rfl
  | deleted here result =>
    obtain ⟨values,_⟩ := sound.delete here result
    exact captures.leave rfl rfl fun j => captured_of_value (values j)
  | popped at_ result =>
    obtain ⟨_,same⟩ := sound.captured_popped result
    exact captures.keep rfl rfl fun j after => ⟨after,same j⟩
  | notDue at_ result =>
    obtain ⟨_,_,_,_,_,_,values⟩ := sound.notDue result
    exact captures.keep rfl rfl fun j after => ⟨after,captured_of_value (values j)⟩
  | empty at_ result =>
    obtain ⟨_,rfl⟩ := sound.emptied result
    exact captures.keep rfl rfl fun j after => ⟨after,rfl⟩
  | _ => exact captures.keep rfl rfl fun j after => ⟨after,rfl⟩

theorem wakes_first (sound : Sound s.queue s.delay list) (captures : Captures evs s)
    (taken : (delays w).Step (Step gated) s l t) : (delays w).WakesFirst evs s l t := by
  obtain ⟨e,context⟩ := l
  obtain ⟨taken,_⟩ := taken
  intro i waker woken
  cases taken with
  | popped at_ result =>
    cases woken
    obtain ⟨here,_⟩ := sound.captured_popped result
    obtain ⟨rest,_,rfl,_⟩ := sound.popped result
    exact (captures _ sound.of_head.1).trans here
  | _ => cases woken
end

-- Exactly in the runs in which each Delay that is popped was polled last by the task that polled it first.
theorem delay_woken_iff {K : Type} (task : Waker → K) {w : Nat} {gated : Bool} {start : Int} {s : State w}
    (run : PolledRun gated start s) : run.Every ((delays w).WakesLatest task) ↔ run.Every ((delays w).Unmoved task) := by
  have base : (∃ list, Sound (initial w gated start).queue (initial w gated start).delay list) ∧
      Captures [] (initial w gated start) :=
    ⟨⟨_,initial_sound⟩,fun i alive => absurd rfl alive⟩
  refine Futures.wakesLatest_iff run (run.every (fun evs s => (∃ list, Sound s.queue s.delay list) ∧ Captures evs s)
    base ?_ ?_)
  · rintro evs s l t ⟨⟨list,sound⟩,captures⟩ taken
    obtain ⟨list',sound',_⟩ := step_sound sound taken.1
    exact ⟨⟨list',sound'⟩,step_captures sound captures taken⟩
  · rintro evs s l t ⟨⟨list,sound⟩,captures⟩ taken
    exact wakes_first sound captures taken

-- A Delay is polled by the task of one waker, then by that of another, and it is the first that is woken.
def wakesFormer :=
  (((((((((((Transition.Run.start : PolledRun (w:=32) false 0 _).snoc
    ⟨.created 0 5,⟨0,0⟩⟩ ⟨.created rfl,nofun⟩).snoc
    ⟨.linkMade 0 0 ⟨6,0⟩,⟨6,0⟩⟩ ⟨.linkMade rfl (by decide) rfl,fun _ made => (Option.some.inj made).symm⟩).snoc
    ⟨.inserted 0 0 true,⟨0,0⟩⟩ ⟨.inserted rfl (show LinkedList.insert _ _ 1 0 = _ from rfl),nofun⟩).snoc
    ⟨.marked 0,⟨0,0⟩⟩ ⟨.marked rfl,nofun⟩).snoc
    ⟨.pendInterrupt 0,⟨0,0⟩⟩ ⟨.pendInterrupt rfl,nofun⟩).snoc
    ⟨.stillPending 0,⟨7,0⟩⟩ ⟨.stillPending rfl (by decide) rfl,nofun⟩).snoc
    ⟨.advanced 5,⟨0,0⟩⟩ ⟨.advanced,nofun⟩).snoc
    ⟨.interrupted,⟨0,0⟩⟩ ⟨.interrupted rfl rfl,nofun⟩).snoc
    ⟨.flagCleared,⟨0,0⟩⟩ ⟨.flagCleared rfl,nofun⟩).snoc
    ⟨.hooked,⟨0,0⟩⟩ ⟨.hooked rfl,nofun⟩).snoc
    ⟨.popped 0 0,⟨0,0⟩⟩ ⟨.popped rfl rfl,nofun⟩

theorem wakesFormer_not_latest : ¬wakesFormer.Every ((delays 32).WakesLatest Waker.data) := by
  rintro ⟨_,latest⟩
  have woken := latest 0 ⟨6,0⟩ rfl
  revert woken
  decide

end Rtic.Time.TimerQueue
