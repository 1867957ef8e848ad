import Rtic.Library.StableOrder
import Rtic.Time.TimerLinks
namespace Rtic.Time.TimerQueue
open Function Rtic.Common Chain Transition TimerQueueTicks

def HandlerPoint.instant : HandlerPoint → Option Int
  | .enableTimer instant => some instant
  | .setCompare instant => some instant
  | .check instant => some instant
  | _ => none

-- Now, the instants in the queue or on their way into it, and the one that the handler has in hand.
def handled (s : State w) (instant : Int) : Prop :=
  instant = s.time ∨ (∃ i value, s.queue.value i = some value ∧ value.wasPopped = false ∧ instant = value.releaseAt) ∨
    s.handler.instant = some instant

def HandledNear (_ : List Event) (s : State w) : Prop := ∀ a b, handled s a → handled s b → Near w a b

def requested (s : State w) : Bool := s.pended || (s.matched && s.enabled)

-- A poll has linked a new head and has yet to call pend_interrupt.
def inserting (s : State w) : Prop := ∃ i, s.point i = .marker true ∨ s.point i = .pend

def Armed (_ : List Event) (s : State w) : Prop :=
  s.handler = .idle → requested s = false → ¬inserting s →
    s.queue.head = none ∨ ∃ i value, s.queue.head = some i ∧ s.queue.value i = some value ∧
      s.enabled = true ∧ ∃ instant, s.compare = wrap w instant ∧ s.time < instant ∧ instant ≤ value.releaseAt

-- Each link that is popped is due, and all that were popped are woken when the handler returns.
def WakesDue (evs : List Event) (s : State w) : Event → State w → Prop
  | .popped i _,_ => ∃ value, s.queue.value i = some value ∧ value.releaseAt ≤ s.time
  | .rechecked due,_ => due = false → ∀ number, wakes evs number = pops evs number
  | .timerDisabled,_ => ∀ number, wakes evs number = pops evs number
  | _,_ => True

def Event.byHandler : Event → Bool
  | .flagCleared => true
  | .hooked => true
  | .popped _ _ => true
  | .notDue _ => true
  | .empty => true
  | .woke _ _ => true
  | .timerEnabled => true
  | .compareSet => true
  | .rechecked _ => true
  | .timerDisabled => true
  | _ => false

-- The handler has a next step until it has returned.
def NeverStuck (gated : Bool) (_ : List Event) (s : State w) : Prop :=
  s.handler ≠ .idle → ∃ e t, e.byHandler = true ∧ Step gated s e t

-- Nothing is inserted, and no other run of the handler begins.
def Event.undisturbed : Event → Bool
  | .inserted _ _ _ => false
  | .interrupted => false
  | _ => true

-- When the handler returns, no link is left whose time has come.
def ReturnsClear (_ : List Event) (s : State w) : Event → State w → Prop
  | .rechecked due,_ => due = false →
    ∀ i value, s.queue.reachable i → s.queue.value i = some value → s.time < value.releaseAt
  | .timerDisabled,_ => ∀ i, ¬s.queue.reachable i
  | _,_ => True

-- The list in the order of the instants.
def Sorted (delay : Nat → Delay) (l : List Nat) : Prop := l.Pairwise fun i j => (delay i).instant ≤ (delay j).instant

section
variable {w : Nat} {gated : Bool} {start : Int} {evs : List Event} {s t : State w} {e : Event} {i : Nat} {l l' : List Nat}
  {instant : Int} {queue : LinkedList WaitingWaker} {delay delay' : Nat → Delay}

theorem sorted_insert {order : Nat → Nat → Prop} [DecidableRel order]
    (same : ∀ j ∈ l, order i j ↔ (delay i).instant < (delay j).instant) (sorted : Sorted delay l) :
    Sorted delay (l.orderedInsert order i) := by
  refine StableOrder.pairwise_insert sorted ?_ ?_ ?_
  · exact fun j member before => Int.le_of_lt ((same j member).mp before)
  · exact fun j member k _ before le => Int.le_trans (Int.le_of_lt ((same j member).mp before)) le
  · exact fun j member after => Int.not_lt.mp (mt (same j member).mpr after)

theorem Sound.value (sound : Sound s.queue s.delay l) (member : i ∈ l) :
    ∃ waker, s.queue.value i = some ⟨waker,(s.delay i).instant,false⟩ := by
  obtain ⟨_,_,val⟩ := Stands.of_queued (by simpa [member] using sound.stands i)
  exact val

theorem Sound.handled (sound : Sound s.queue s.delay l) (member : i ∈ l) : handled s (s.delay i).instant := by
  obtain ⟨waker,val⟩ := sound.value member
  exact Or.inr (Or.inl ⟨i,_,val,rfl,rfl⟩)

theorem Sorted.congr (sorted : Sorted delay l) (same : ∀ i ∈ l, (delay' i).instant = (delay i).instant) :
    Sorted delay' l :=
  sorted.imp_of_mem fun first second le => by rwa [same _ first,same _ second]

theorem Sound.insert_sorted (sound : Sound s.queue s.delay l) (sorted : Sorted s.delay l) (near : HandledNear evs s)
    (here : s.point i = .insert) :
    Sorted s.delay (l.orderedInsert (fun i j => s.queue.precedes (WaitingWaker.lt w) i j = true) i) := by
  refine sorted_insert (fun j member => ?_) sorted
  obtain ⟨waker,val⟩ := sound.value member
  obtain ⟨mine,val',_⟩ : ∃ waker, s.queue.value i = some ⟨waker,(s.delay i).instant,false⟩ ∧ decide (i ∈ l) = false := by
    have stands := sound.stands i
    simp only [Stands,show (s.delay i).point = .insert from here] at stands
    exact stands
  have order : s.queue.precedes (WaitingWaker.lt w) i j =
      WaitingWaker.lt w ⟨mine,(s.delay i).instant,false⟩ ⟨waker,(s.delay j).instant,false⟩ := by
    simp [LinkedList.precedes,val,val']
  rw [order]
  exact lt_iff (near _ _ (Or.inr (Or.inl ⟨i,_,val',rfl,rfl⟩)) (sound.handled member))

theorem moved_instant {point : DelayPoint} (j : Nat) :
    ((s.move i point).delay j).instant = (s.delay j).instant := by
  unfold State.move
  by_cases same : j = i
  · subst same
    simp
  · simp [update_of_ne same]

-- Only a new Delay has a new instant, and it is not in the list.
theorem step_instant (sound : Sound s.queue s.delay l) (taken : Step gated s e t) :
    ∀ j ∈ l, (t.delay j).instant = (s.delay j).instant := by
  intro j member
  cases taken with
  | created here =>
    rename_i i instant
    have other : j ≠ i := by
      rintro rfl
      have stands := sound.stands j
      simp only [Stands,show (s.delay j).point = .gone from here] at stands
      exact of_decide_eq_false stands.2 member
    simp [update_of_ne other]
  | marked here =>
    rename_i i headUpdated
    unfold State.mark
    by_cases same : j = i
    · subst same
      simp
    · simp [update_of_ne same]
  | linkMade here early unlinked => exact moved_instant j
  | inserted here result => exact moved_instant j
  | pendInterrupt here => exact moved_instant j
  | returned here done => exact moved_instant j
  | dropping here linked unpopped => exact moved_instant j
  | deleted here result => exact moved_instant j
  | _ => exact rfl

theorem step_sorted (sound : Sound s.queue s.delay l) (sorted : Sorted s.delay l) (near : HandledNear evs s)
    (taken : Step gated s e t) (relinked : Relinked s l l' e) : Sorted t.delay l' := by
  have after := sorted.congr (step_instant sound taken)
  cases taken with
  | inserted here result =>
    obtain ⟨_,rfl⟩ := relinked
    exact (sound.insert_sorted sorted near here).congr fun j _ => moved_instant j
  | deleted here result =>
    cases relinked
    exact after.sublist List.erase_sublist
  | popped at_ result =>
    rw [show l = _::l' from relinked] at after
    exact (List.pairwise_cons.mp after).2
  | _ =>
    cases relinked
    exact after

-- The handler will run again, or a poll is about to see to it, or there is nothing to do.
def Covered (s : State w) (l : List Nat) : Prop := l = [] ∨ s.pended = true ∨ inserting s

-- This instant is not after that of the head.
def Before (delay : Nat → Delay) (l : List Nat) (instant : Int) : Prop :=
  ∀ i, l.head? = some i → instant ≤ (delay i).instant

-- What the handler relies on, from where it has last looked at the head.
def Watched (s : State w) (l : List Nat) : Prop :=
  match s.handler with
  | .idle => Covered s l ∨ (s.matched && s.enabled) = true ∨
    (s.enabled = true ∧ ∃ instant, s.compare = wrap w instant ∧ s.time < instant ∧ Before s.delay l instant)
  | .enableTimer instant => Covered s l ∨ Before s.delay l instant
  | .setCompare instant => s.enabled = true ∧ (Covered s l ∨ Before s.delay l instant)
  | .check instant => s.enabled = true ∧ s.compare = wrap w instant ∧ (Covered s l ∨ Before s.delay l instant)
  | .disableTimer => Covered s l
  | _ => True

-- A step of a Delay after which what was covered is covered, and nothing earlier
-- comes to the head unless it is covered.
theorem Watched.keep (watched : Watched s l) (handler : t.handler = s.handler) (enabled : t.enabled = s.enabled)
    (compare : t.compare = s.compare) (matched : t.matched = s.matched) (time : t.time = s.time)
    (covered : Covered s l → Covered t l')
    (before : ∀ instant, Before s.delay l instant → Covered t l' ∨ Before t.delay l' instant) : Watched t l' := by
  have either : ∀ {instant}, Covered s l ∨ Before s.delay l instant → Covered t l' ∨ Before t.delay l' instant := by
    rintro instant (covered_ | before_)
    · exact Or.inl (covered covered_)
    · exact before instant before_
  unfold Watched at *
  rw [handler]
  cases at_ : s.handler <;> rw [at_] at watched
  case idle =>
    rcases watched with covered_ | requested_ | ⟨live,instant,same,later,before_⟩
    · exact Or.inl (covered covered_)
    · exact Or.inr (Or.inl (by rw [matched,enabled]; exact requested_))
    · rcases before instant before_ with covered_ | before_
      · exact Or.inl covered_
      · exact Or.inr (Or.inr ⟨enabled.trans live,instant,compare.trans same,time ▸ later,before_⟩)
  case enableTimer => exact either watched
  case setCompare => exact ⟨enabled.trans watched.1,either watched.2⟩
  case check => exact ⟨enabled.trans watched.1,compare.trans watched.2.1,either watched.2.2⟩
  case disableTimer => exact covered watched
  all_goals trivial

theorem reaches_of {compare : BitVec w} {ticks : Nat} (same : compare = wrap w instant) (later : s.time < instant)
    (passed : instant ≤ s.time+ticks) : reaches compare s.time ticks = true := by
  refine decide_eq_true ⟨(instant-s.time-1).toNat,by omega,?_⟩
  rw [same]
  congr 1
  omega

theorem Watched.advance (watched : Watched s l) (ticks : Nat) :
    Watched {s with time := s.time+ticks,matched := s.matched || (s.enabled && reaches s.compare s.time ticks)} l := by
  unfold Watched at *
  dsimp only
  cases at_ : s.handler <;> rw [at_] at watched
  case idle =>
    rcases watched with covered | requested_ | ⟨live,instant,same,later,before⟩
    · exact Or.inl covered
    · simp only [Bool.and_eq_true] at requested_
      exact Or.inr (Or.inl (by simp [requested_]))
    · by_cases passed : instant ≤ s.time+ticks
      · exact Or.inr (Or.inl (by simp [live,reaches_of same later passed]))
      · exact Or.inr (Or.inr ⟨live,instant,same,by simpa using passed,before⟩)
  all_goals exact watched

-- The Delay at `i` moves, and was not just inserting a head.
theorem inserting_move {d : Delay} (inserting_ : inserting s) (delay : t.delay = update s.delay i d)
    (here : s.point i ≠ .marker true ∧ s.point i ≠ .pend) : inserting t := by
  obtain ⟨j,standing⟩ := inserting_
  have other : j ≠ i := by
    rintro rfl
    rcases standing with marker | pend
    · exact here.1 marker
    · exact here.2 pend
  refine ⟨j,?_⟩
  unfold State.point
  rw [delay,update_of_ne other]
  exact standing

theorem Before.congr {instant : Int} (before : Before delay l instant)
    (same : ∀ j ∈ l, (delay' j).instant = (delay j).instant) : Before delay' l instant := by
  intro j head
  rw [same j (List.mem_of_head? head)]
  exact before j head

-- A step of the Delay at `i` that leaves the list as it is.
theorem Watched.stay {d : Delay} (watched : Watched s l) (handler : t.handler = s.handler)
    (backend : t.enabled = s.enabled ∧ t.compare = s.compare ∧ t.matched = s.matched ∧ t.time = s.time)
    (pended : s.pended = true → t.pended = true) (delay : t.delay = update s.delay i d)
    (here : s.point i ≠ .marker true ∧ s.point i ≠ .pend)
    (instants : ∀ j ∈ l, (t.delay j).instant = (s.delay j).instant) : Watched t l := by
  obtain ⟨enabled,compare,matched,time⟩ := backend
  refine watched.keep handler enabled compare matched time ?_ fun instant before => Or.inr (before.congr instants)
  rintro (empty | pended_ | inserting_)
  · exact Or.inl empty
  · exact Or.inr (Or.inl (pended pended_))
  · exact Or.inr (Or.inr (inserting_move inserting_ delay here))

theorem idle_not_inserting {point : DelayPoint} (here : s.point i = point) (other : point ≠ .marker true ∧ point ≠ .pend) :
    s.point i ≠ .marker true ∧ s.point i ≠ .pend := here ▸ other

theorem Watched.inserted {fuel : Nat} {headUpdated : Bool} {next : LinkedList WaitingWaker} (watched : Watched s l)
    (sound : Sound s.queue s.delay l) (here : s.point i = .insert)
    (result : s.queue.insert (WaitingWaker.lt w) fuel i = some (headUpdated,next)) :
    Watched {s.move i (.marker headUpdated) with queue := next}
      (l.orderedInsert (fun i j => s.queue.precedes (WaitingWaker.lt w) i j = true) i) := by
  obtain ⟨_,inserted,_⟩ := sound.insert here result
  have updated := inserted.updated
  cases headUpdated with
  | true =>
    have covered : Covered {s.move i (.marker true) with queue := next}
        (l.orderedInsert (fun i j => s.queue.precedes (WaitingWaker.lt w) i j = true) i) :=
      Or.inr (Or.inr ⟨i,Or.inl (by simp [State.point,State.move])⟩)
    exact watched.keep rfl rfl rfl rfl rfl (fun _ => covered) fun _ _ => Or.inl covered
  | false =>
    obtain ⟨head,filled⟩ : next.head = s.queue.head ∧ l ≠ [] := updated
    have same : (l.orderedInsert (fun i j => s.queue.precedes (WaitingWaker.lt w) i j = true) i).head? = l.head? := by
      rw [← Linked.head_eq inserted.holds,head,Linked.head_eq sound.holds]
    refine watched.keep rfl rfl rfl rfl rfl ?_ fun instant before => Or.inr fun j first => ?_
    · rintro (empty | pended | inserting_)
      · exact absurd empty filled
      · exact Or.inr (Or.inl pended)
      · exact Or.inr (Or.inr (inserting_move (i:=i) inserting_ rfl (idle_not_inserting here (by simp))))
    · rw [same] at first
      refine Int.le_trans (before j first) (Int.le_of_eq ?_)
      exact (moved_instant j).symm

-- A link that leaves the list only brings a later one to its head.
theorem Before.erase (before : Before delay l instant) (sorted : Sorted delay l) : Before delay (l.erase i) instant := by
  intro j head
  have member : j ∈ l := List.mem_of_mem_erase (List.mem_of_head? head)
  cases l with
  | nil => cases member
  | cons k rest =>
    have first := before k rfl
    rcases List.mem_cons.mp member with rfl | below
    · exact first
    · exact Int.le_trans first ((List.pairwise_cons.mp sorted).1 j below)

theorem step_watched (sound : Sound s.queue s.delay l) (sorted : Sorted s.delay l) (watched : Watched s l)
    (near : HandledNear evs s) (taken : Step gated s e t) (relinked : Relinked s l l' e) : Watched t l' := by
  have instants := step_instant sound taken
  cases taken with
  | advanced =>
    cases relinked
    exact watched.advance _
  | spurious =>
    cases relinked
    exact watched.keep rfl rfl rfl rfl rfl (fun _ => Or.inr (Or.inl rfl)) fun _ before => Or.inr before
  | created here =>
    cases relinked
    exact watched.stay rfl ⟨rfl,rfl,rfl,rfl⟩ (fun pended => pended) rfl (idle_not_inserting here (by simp)) instants
  | ready here due =>
    cases relinked
    exact watched
  | stillPending here early linked =>
    cases relinked
    exact watched
  | linkMade here early unlinked =>
    cases relinked
    exact watched.stay rfl ⟨rfl,rfl,rfl,rfl⟩ (fun pended => pended) rfl (idle_not_inserting here (by simp)) instants
  | inserted here result =>
    obtain ⟨_,rfl⟩ := relinked
    exact watched.inserted sound here result
  | marked here =>
    rename_i i headUpdated
    cases relinked
    cases headUpdated with
    | true =>
      refine watched.keep rfl rfl rfl rfl rfl ?_ fun _ before => Or.inr (before.congr instants)
      have covered : inserting (s.mark i .pend) := ⟨i,Or.inr (by simp [State.point,State.mark])⟩
      rintro (empty | pended | _)
      · exact Or.inl empty
      · exact Or.inr (Or.inl pended)
      · exact Or.inr (Or.inr covered)
    | false =>
      exact watched.stay rfl ⟨rfl,rfl,rfl,rfl⟩ (fun pended => pended) rfl (idle_not_inserting here (by simp)) instants
  | pendInterrupt here =>
    cases relinked
    exact watched.keep rfl rfl rfl rfl rfl (fun _ => Or.inr (Or.inl rfl)) fun _ before => Or.inr (before.congr instants)
  | returned here done =>
    cases relinked
    exact watched.stay rfl ⟨rfl,rfl,rfl,rfl⟩ (fun pended => pended) rfl (idle_not_inserting here (by simp)) instants
  | dropping here linked unpopped =>
    cases relinked
    exact watched.stay rfl ⟨rfl,rfl,rfl,rfl⟩ (fun pended => pended) rfl (idle_not_inserting here (by simp)) instants
  | deleted here result =>
    cases relinked
    refine watched.keep rfl rfl rfl rfl rfl ?_ fun instant before => ?_
    · rintro (rfl | pended | inserting_)
      · exact Or.inl rfl
      · exact Or.inr (Or.inl pended)
      · exact Or.inr (Or.inr (inserting_move inserting_ rfl (idle_not_inserting here (by simp))))
    · refine Or.inr ((before.erase sorted).congr fun j member => ?_)
      exact instants j (List.mem_of_mem_erase member)
  | interrupted idle requested_ =>
    cases relinked
    trivial
  | flagCleared at_ =>
    cases relinked
    trivial
  | hooked at_ =>
    cases relinked
    trivial
  | popped at_ result => trivial
  | notDue at_ result =>
    cases relinked
    obtain ⟨_,_,rfl,rfl,_⟩ := sound.notDue result
    refine Or.inr fun j head => ?_
    cases head
    exact Int.le_refl _
  | empty at_ result =>
    cases relinked
    exact Or.inl (sound.emptied result).1
  | woke at_ =>
    cases relinked
    trivial
  | timerEnabled at_ =>
    cases relinked
    unfold Watched at watched
    rw [at_] at watched
    exact ⟨rfl,watched⟩
  | compareSet at_ =>
    cases relinked
    unfold Watched at watched
    rw [at_] at watched
    exact ⟨watched.1,rfl,watched.2⟩
  | rechecked at_ =>
    rename_i instant
    cases relinked
    unfold Watched at watched ⊢
    rw [at_] at watched
    have hand : s.handler.instant = some instant := by rw [at_]; rfl
    rw [isAtLeast_wrap (near _ _ (Or.inl rfl) (Or.inr (Or.inr hand)))]
    by_cases due : instant ≤ s.time
    · rw [decide_eq_true due]
      trivial
    · rw [decide_eq_false due]
      obtain ⟨live,same,covered | before⟩ := watched
      · exact Or.inl covered
      · exact Or.inr (Or.inr ⟨live,instant,same,Int.lt_of_not_ge due,before⟩)
  | timerDisabled at_ =>
    cases relinked
    unfold Watched at watched
    rw [at_] at watched
    exact Or.inl watched

theorem Sound.armed (sound : Sound s.queue s.delay l) (watched : Watched s l) : Armed evs s := by
  intro idle unrequested uninserted
  unfold Watched at watched
  rw [idle] at watched
  simp only [requested,Bool.or_eq_false_iff] at unrequested
  have head := Linked.head_eq sound.holds
  rcases watched with (empty | pended | inserting_) | requested_ | ⟨live,instant,same,later,before⟩
  · rw [empty] at head
    exact Or.inl head
  · rw [unrequested.1] at pended
    cases pended
  · exact absurd inserting_ uninserted
  · rw [unrequested.2] at requested_
    cases requested_
  · cases l with
    | nil => exact Or.inl head
    | cons i rest =>
      obtain ⟨waker,val⟩ := sound.value List.mem_cons_self
      exact Or.inr ⟨i,_,head,val,live,instant,same,later,before i rfl⟩

theorem wakes_due (sound : Sound s.queue s.delay l) (handed : Handed evs s) (near : HandledNear evs s)
    (taken : Step gated s e t) : WakesDue evs s e t := by
  have woken : ∀ {handler}, s.handler = handler → (∀ n waker, handler ≠ .wake n waker) →
      ∀ number, wakes evs number = pops evs number := by
    rintro handler at_ free number
    have empty : inHand s.handler number = false := by
      rw [at_]
      cases handler
      case wake => exact absurd rfl (free _ _)
      all_goals rfl
    have woken := handed.woken number
    rw [empty] at woken
    exact woken
  cases taken with
  | popped at_ result =>
    obtain ⟨_,_,rfl,rfl,val,due,_⟩ := sound.popped result
    rw [isAtLeast_wrap (near _ _ (Or.inl rfl) (sound.handled List.mem_cons_self))] at due
    exact ⟨_,val,of_decide_eq_true due⟩
  | rechecked at_ => exact fun _ => woken at_ nofun
  | timerDisabled at_ => exact woken at_ nofun
  | _ => exact True.intro

theorem Sound.neverStuck (sound : Sound s.queue s.delay l) : NeverStuck gated evs s := by
  intro running
  cases at_ : s.handler with
  | idle => exact absurd at_ running
  | clearCompareFlag => exact ⟨_,_,rfl,.flagCleared at_⟩
  | onInterrupt => exact ⟨_,_,rfl,.hooked at_⟩
  | popIf =>
    obtain ⟨⟨popped,next⟩,result⟩ := LinkedList.popIf_returns (f:=shouldPop w s.time) sound.holds
    rcases sound.popIf result with ⟨_,rfl,_⟩ | ⟨i,rest,waker,_,_,⟨_,rfl,_⟩ | ⟨_,rfl,_⟩⟩
    · exact ⟨_,_,rfl,.empty at_ result⟩
    · exact ⟨_,_,rfl,.popped at_ result⟩
    · exact ⟨_,_,rfl,.notDue at_ result⟩
  | wake number waker => exact ⟨_,_,rfl,.woke at_⟩
  | enableTimer instant => exact ⟨_,_,rfl,.timerEnabled at_⟩
  | setCompare instant => exact ⟨_,_,rfl,.compareSet at_⟩
  | check instant => exact ⟨_,_,rfl,.rechecked at_⟩
  | disableTimer => exact ⟨_,_,rfl,.timerDisabled at_⟩

-- How often the handler will yet call pop_if: twice for each link, and once more
-- unless the head is to be popped as soon as it is looked at.
def rounds (delay : Nat → Delay) (l : List Nat) (limit : Int) : Nat :=
  match l with
  | [] => 1
  | i::rest => 2*(rest.length+1)+(if (delay i).instant ≤ limit then 0 else 1)

theorem rounds_le (delay : Nat → Delay) (l : List Nat) (limit : Int) : rounds delay l limit ≤ 2*l.length+1 := by
  cases l with
  | nil => exact Nat.le_refl _
  | cons i rest =>
    simp only [rounds,List.length_cons]
    split <;> omega

theorem le_rounds (delay : Nat → Delay) (l : List Nat) (limit : Int) : 2*l.length ≤ rounds delay l limit := by
  cases l with
  | nil => exact Nat.zero_le _
  | cons i rest => exact Nat.le_add_right _ _

theorem rounds_due (rest : List Nat) {limit : Int} (due : (delay i).instant ≤ limit) :
    rounds delay (i::rest) limit = 2*(rest.length+1) := by
  simp only [rounds,if_pos due,Nat.add_zero]

theorem rounds_mono (delay : Nat → Delay) (l : List Nat) {limit later : Int} (le : limit ≤ later) :
    rounds delay l later ≤ rounds delay l limit := by
  cases l with
  | nil => exact Nat.le_refl _
  | cons i rest =>
    simp only [rounds]
    split
    · exact Nat.add_le_add_left (Nat.zero_le _) _
    · rename_i after
      rw [if_neg fun before => after (Int.le_trans before le)]

theorem rounds_congr (same : ∀ j ∈ l, (delay' j).instant = (delay j).instant) (limit : Int) :
    rounds delay' l limit = rounds delay l limit := by
  cases l with
  | nil => rfl
  | cons i rest => simp only [rounds,same i List.mem_cons_self]

-- A link that leaves the list saves two rounds, and the one after it may cost one.
theorem rounds_erase (limit : Int) : rounds delay (l.erase i) limit ≤ rounds delay l limit := by
  by_cases member : i ∈ l
  · have shorter := List.length_erase_of_mem member
    have positive := List.length_pos_of_mem member
    have most := rounds_le delay (l.erase i) limit
    have least := le_rounds delay l limit
    omega
  · rw [List.erase_of_not_mem member]

-- A bound on the steps that the handler will yet take, if nothing is inserted.
def stepsLeft (s : State w) (l : List Nat) : Nat :=
  match s.handler with
  | .idle => 0
  | .clearCompareFlag => 5*rounds s.delay l s.time+2
  | .onInterrupt => 5*rounds s.delay l s.time+1
  | .popIf => 5*rounds s.delay l s.time
  | .wake _ _ => 5*rounds s.delay l s.time+1
  | .enableTimer instant => 5*rounds s.delay l instant+3
  | .setCompare instant => 5*rounds s.delay l instant+2
  | .check instant => 5*rounds s.delay l instant+1
  | .disableTimer => 1

theorem stepsLeft_mono (handler : t.handler = s.handler) (fewer : ∀ limit, rounds t.delay l' limit ≤ rounds s.delay l limit)
    (time : s.time ≤ t.time) : stepsLeft t l' ≤ stepsLeft s l := by
  have now : rounds t.delay l' t.time ≤ rounds s.delay l s.time := Nat.le_trans (rounds_mono _ _ time) (fewer _)
  unfold stepsLeft
  rw [handler]
  cases s.handler with
  | idle => exact Nat.le_refl _
  | disableTimer => exact Nat.le_refl _
  | clearCompareFlag => dsimp only; omega
  | onInterrupt => dsimp only; omega
  | popIf => dsimp only; omega
  | wake => dsimp only; omega
  | enableTimer instant =>
    have := fewer instant
    dsimp only
    omega
  | setCompare instant =>
    have := fewer instant
    dsimp only
    omega
  | check instant =>
    have := fewer instant
    dsimp only
    omega

-- A step of the handler uses up one of the steps left, and no other step adds any.
theorem step_stepsLeft (sound : Sound s.queue s.delay l) (near : HandledNear evs s) (taken : Step gated s e t)
    (relinked : Relinked s l l' e) (alone : e.undisturbed = true) :
    stepsLeft t l'+e.byHandler.toNat ≤ stepsLeft s l := by
  have instants := step_instant sound taken
  have other : t.handler = s.handler → l' = l → s.time ≤ t.time → stepsLeft t l' ≤ stepsLeft s l := by
    rintro handler rfl time
    exact stepsLeft_mono handler (fun limit => Nat.le_of_eq (rounds_congr instants limit)) time
  cases taken with
  | advanced =>
    cases relinked
    exact other rfl rfl (by simp)
  | inserted here result => cases alone
  | interrupted idle requested_ => cases alone
  | deleted here result =>
    cases relinked
    refine stepsLeft_mono rfl (fun limit => ?_) (Int.le_refl _)
    exact Nat.le_trans (Nat.le_of_eq (rounds_congr (fun j member => instants j (List.mem_of_mem_erase member)) limit))
      (rounds_erase limit)
  | flagCleared at_ =>
    cases relinked
    simp [stepsLeft,at_,Event.byHandler]
  | hooked at_ =>
    cases relinked
    simp [stepsLeft,at_,Event.byHandler]
  | popped at_ result =>
    obtain ⟨rest,_,rfl,rfl,_,due,_⟩ := sound.popped result
    rw [isAtLeast_wrap (near _ _ (Or.inl rfl) (sound.handled List.mem_cons_self))] at due
    have first := rounds_due rest (of_decide_eq_true due)
    cases relinked
    have most := rounds_le s.delay l' s.time
    simp only [stepsLeft,at_,Event.byHandler,first,Bool.toNat_true]
    omega
  | notDue at_ result =>
    cases relinked
    obtain ⟨_,_,rfl,rfl,early,_⟩ := sound.notDue result
    rw [isAtLeast_wrap (near _ _ (Or.inl rfl) (sound.handled List.mem_cons_self))] at early
    simp only [stepsLeft,at_,Event.byHandler,rounds,if_neg (of_decide_eq_false early),Bool.toNat_true,if_pos (Int.le_refl _)]
    omega
  | empty at_ result =>
    cases relinked
    obtain ⟨rfl,_⟩ := sound.emptied result
    simp [stepsLeft,at_,Event.byHandler,rounds]
  | woke at_ =>
    cases relinked
    simp [stepsLeft,at_,Event.byHandler]
  | timerEnabled at_ =>
    cases relinked
    simp [stepsLeft,at_,Event.byHandler]
  | compareSet at_ =>
    cases relinked
    simp [stepsLeft,at_,Event.byHandler]
  | rechecked at_ =>
    rename_i instant
    cases relinked
    have hand : s.handler.instant = some instant := by rw [at_]; rfl
    rw [isAtLeast_wrap (near _ _ (Or.inl rfl) (Or.inr (Or.inr hand)))]
    by_cases due : instant ≤ s.time
    · have fewer := rounds_mono s.delay l due
      simp only [stepsLeft,at_,Event.byHandler,decide_eq_true due,if_true,Bool.toNat_true]
      omega
    · simp [stepsLeft,at_,Event.byHandler,due]
  | timerDisabled at_ =>
    cases relinked
    simp [stepsLeft,at_,Event.byHandler]
  | _ =>
    cases relinked
    exact other rfl rfl (Int.le_refl _)

-- What the handler knows of the whole list while nothing is inserted.
def Cleared (s : State w) (l : List Nat) : Prop :=
  match s.handler with
  | .enableTimer instant => ∀ i ∈ l, instant ≤ (s.delay i).instant
  | .setCompare instant => ∀ i ∈ l, instant ≤ (s.delay i).instant
  | .check instant => ∀ i ∈ l, instant ≤ (s.delay i).instant
  | .disableTimer => l = []
  | _ => True

theorem Cleared.keep (cleared : Cleared s l) (handler : t.handler = s.handler) (inside : l' ⊆ l)
    (instants : ∀ j ∈ l, (t.delay j).instant = (s.delay j).instant) : Cleared t l' := by
  have all : ∀ {instant}, (∀ i ∈ l, instant ≤ (s.delay i).instant) → ∀ i ∈ l', instant ≤ (t.delay i).instant := by
    intro instant le i member
    rw [instants i (inside member)]
    exact le i (inside member)
  unfold Cleared at *
  rw [handler]
  cases at_ : s.handler <;> rw [at_] at cleared
  case enableTimer => exact all cleared
  case setCompare => exact all cleared
  case check => exact all cleared
  case disableTimer =>
    rw [show l = [] from cleared] at inside
    exact List.subset_nil.mp inside
  all_goals trivial

theorem step_cleared (sound : Sound s.queue s.delay l) (sorted : Sorted s.delay l) (cleared : Cleared s l)
    (taken : Step gated s e t) (relinked : Relinked s l l' e) (alone : e.undisturbed = true) : Cleared t l' := by
  have instants := step_instant sound taken
  cases taken with
  | inserted here result => cases alone
  | interrupted idle requested_ => cases alone
  | deleted here result =>
    cases relinked
    exact cleared.keep rfl List.erase_subset instants
  | flagCleared at_ => trivial
  | hooked at_ => trivial
  | popped at_ result => trivial
  | notDue at_ result =>
    cases relinked
    obtain ⟨_,_,rfl,rfl,_⟩ := sound.notDue result
    intro j member
    rcases List.mem_cons.mp member with rfl | below
    · exact Int.le_refl _
    · exact (List.pairwise_cons.mp sorted).1 j below
  | empty at_ result =>
    cases relinked
    exact (sound.emptied result).1
  | woke at_ => trivial
  | timerEnabled at_ =>
    cases relinked
    unfold Cleared at cleared
    rw [at_] at cleared
    exact cleared
  | compareSet at_ =>
    cases relinked
    unfold Cleared at cleared
    rw [at_] at cleared
    exact cleared
  | rechecked at_ =>
    rename_i instant
    unfold Cleared
    dsimp only
    cases isAtLeast (wrap w s.time) (wrap w instant) <;> trivial
  | timerDisabled at_ => trivial
  | _ =>
    cases relinked
    exact cleared.keep rfl (List.Subset.refl l) instants

theorem returns_clear (sound : Sound s.queue s.delay l) (cleared : Cleared s l) (near : HandledNear evs s)
    (taken : Step gated s e t) : ReturnsClear evs s e t := by
  unfold Cleared at cleared
  cases taken with
  | rechecked at_ =>
    rename_i instant
    rw [at_] at cleared
    intro early i value reached val
    have hand : s.handler.instant = some instant := by rw [at_]; rfl
    rw [isAtLeast_wrap (near _ _ (Or.inl rfl) (Or.inr (Or.inr hand)))] at early
    have member := sound.reachable_iff.mp reached
    obtain ⟨waker,same⟩ := sound.value member
    rw [same] at val
    cases val
    exact Int.lt_of_lt_of_le (Int.lt_of_not_ge (of_decide_eq_false early)) (cleared i member)
  | timerDisabled at_ =>
    rw [at_] at cleared
    intro i reached
    have member := sound.reachable_iff.mp reached
    rw [show l = [] from cleared] at member
    cases member
  | _ => exact True.intro

def Undisturbed (_ : List Event) (_ : State w) (e : Event) (_ : State w) : Prop := e.undisturbed = true

-- A run of the handler, from its first step on.
theorem handler_run (sound : Sound s.queue s.delay l) (sorted : Sorted s.delay l)
    (entered : s.handler = .clearCompareFlag) (rest : Transition.Run (Step gated) s t) (near : rest.Through HandledNear)
    (alone : rest.Every Undisturbed) :
    rest.events.countP Event.byHandler ≤ 10*l.length+7 ∧ rest.Every ReturnsClear := by
  let inv (evs : List Event) (x : State w) := ∃ l', Sound x.queue x.delay l' ∧ Sorted x.delay l' ∧ Cleared x l' ∧
    evs.countP Event.byHandler+stepsLeft x l' ≤ 10*l.length+7
  have base : inv [] s := by
    refine ⟨l,sound,sorted,by unfold Cleared; rw [entered]; trivial,?_⟩
    have most := rounds_le s.delay l s.time
    simp only [stepsLeft,entered,List.countP_nil]
    omega
  have admitted := near.before.and alone
  have preserved : ∀ {evs x e y}, inv evs x → Step gated x e y →
      HandledNear evs x ∧ Undisturbed evs x e y → inv (evs++[e]) y := by
    rintro evs x e y ⟨m,sound,sorted,cleared,bound⟩ taken ⟨near,alone⟩
    obtain ⟨m',after,relinked⟩ := step_sound sound taken
    refine ⟨m',after,step_sorted sound sorted near taken relinked,step_cleared sound sorted cleared taken relinked alone,?_⟩
    have fewer := step_stepsLeft sound near taken relinked alone
    rw [countP_snoc]
    omega
  refine ⟨?_,?_⟩
  · obtain ⟨_,_,_,_,bound⟩ := rest.guarded inv base preserved admitted
    omega
  · exact rest.every_of inv base preserved
      (fun ⟨_,sound,_,cleared,_⟩ taken guard => returns_clear sound cleared guard.1 taken) admitted
end

-- In every run whose instants stay near each other: the timer is armed whenever
-- nothing else is under way; the handler wakes what is due; and a run of it in which
-- nothing is inserted takes a number of steps linear in the length of the queue and
-- leaves nothing that is due.
theorem always_armed {w : Nat} {gated : Bool} {start : Int} {s : State w} (run : Run gated start s)
    (near : run.Through HandledNear) :
    run.Through Armed ∧ run.Every WakesDue ∧ run.Through (NeverStuck gated) ∧
      (s.handler = .clearCompareFlag → ∀ (t : State w) (rest : Transition.Run (Step gated) s t),
        rest.Through HandledNear → rest.Every Undisturbed →
          (∃ l, s.queue.Holds l ∧ rest.events.countP Event.byHandler ≤ 10*l.length+7) ∧ rest.Every ReturnsClear) := by
  let inv (evs : List Event) (s : State w) := ∃ l, Sound s.queue s.delay l ∧ Sorted s.delay l ∧ Watched s l ∧
    Numbered evs s ∧ Handed evs s
  have base : inv [] (initial w gated start) :=
    ⟨[],initial_sound,List.Pairwise.nil,Or.inl (Or.inl rfl),initial_numbered,initial_handed⟩
  have admitted := near.before
  have preserved : ∀ {evs s e t}, inv evs s → Step gated s e t → HandledNear evs s → inv (evs++[e]) t := by
    rintro evs s e t ⟨l,sound,sorted,watched,numbered,handed⟩ taken near
    obtain ⟨l',after,relinked⟩ := step_sound sound taken
    exact ⟨l',after,step_sorted sound sorted near taken relinked,step_watched sound sorted watched near taken relinked,
      step_numbered sound numbered taken,step_handed sound handed taken⟩
  refine ⟨?_,?_,?_,fun entered t rest near' alone => ?_⟩
  · exact run.through_of inv base preserved (fun ⟨_,sound,_,watched,_⟩ => sound.armed watched) admitted
  · exact run.every_of inv base preserved
      (fun ⟨_,sound,_,_,_,handed⟩ taken near => wakes_due sound handed near taken) admitted
  · exact run.through_of inv base preserved (fun ⟨_,sound,_⟩ => sound.neverStuck) admitted
  · obtain ⟨l,sound,sorted,_⟩ := run.guarded inv base preserved admitted
    obtain ⟨bound,clear⟩ := handler_run sound sorted entered rest near' alone
    exact ⟨⟨l,sound.holds,bound⟩,clear⟩

-- A Delay until 5 is polled at 0, and the interrupt that its poll pends is taken.
def armsFirst :=
  ((((((Transition.Run.start : Run (w:=32) true 0 _).snoc
    (.created 0 5) (.created rfl)).snoc
    (.linkMade 0 0 ⟨6,0⟩) (.linkMade rfl (by decide) rfl)).snoc
    (.inserted 0 0 true) (.inserted rfl (show LinkedList.insert _ _ 1 0 = _ from rfl))).snoc
    (.marked 0) (.marked rfl)).snoc
    (.pendInterrupt 0) (.pendInterrupt rfl)).snoc
    .interrupted (.interrupted rfl rfl)

def Here {init s : State 32} (_ : Transition.Run (Step true) init s) : State 32 := s

-- The handler then finds that it is not due, and sets the compare value.
def setsFirst :=
  ((((((Transition.Run.start : Transition.Run (Step true) (Here armsFirst) _).snoc
    .flagCleared (.flagCleared rfl)).snoc
    .hooked (.hooked rfl)).snoc
    (.notDue 5) (.notDue rfl (show LinkedList.popIf _ _ = some (some (0,⟨⟨6,0⟩,5,false⟩,false),_) from rfl))).snoc
    .timerEnabled (.timerEnabled rfl)).snoc
    .compareSet (.compareSet rfl)).snoc
    _ (.rechecked rfl)

theorem armsFirst_always_armed :
    (armsFirst.append setsFirst).Through HandledNear ∧ (armsFirst.append setsFirst).Through Armed ∧
      (∃ l, (Here armsFirst).queue.Holds l ∧ setsFirst.events.countP Event.byHandler ≤ 10*l.length+7) ∧
      setsFirst.Every ReturnsClear := by
  -- Now is 0, and the only link is for 5.
  have soon : ∀ {evs} {s : State 32}, s.time = 0 → (∀ i value, s.queue.value i = some value → value.releaseAt = 5) →
      s.handler.instant = none ∨ s.handler.instant = some 5 → HandledNear evs s := by
    intro evs s time values none_or
    have range : ∀ a, handled s a → a = 0 ∨ a = 5 := by
      rintro a (rfl | ⟨i,value,val,_,rfl⟩ | hand)
      · exact Or.inl time
      · exact Or.inr (values i value val)
      · rcases none_or with none_ | five
        · rw [none_] at hand
          cases hand
        · exact Or.inr (Option.some.inj (hand.symm.trans five))
    intro a b first second
    rcases range a first with rfl | rfl <;> rcases range b second with rfl | rfl <;> unfold Near <;> decide
  have put : ∀ {links : Nat → Option (Link WaitingWaker)} {queue : LinkedList WaitingWaker} {link : Link WaitingWaker},
      (∀ i ≠ 0, links i = none) → queue.link = update links 0 (some link) → link.val.releaseAt = 5 →
        ∀ i value, queue.value i = some value → value.releaseAt = 5 := by
    intro links queue link others links' five i value val
    unfold LinkedList.value at val
    rw [links'] at val
    by_cases first : i = 0
    · subst first
      cases val
      exact five
    · simp [update_of_ne first,others i first] at val
  have arms : armsFirst.Through HandledNear := by
    refine ⟨⟨⟨⟨⟨⟨soon rfl nofun (Or.inl rfl),soon rfl nofun (Or.inl rfl)⟩,?_⟩,?_⟩,?_⟩,?_⟩,?_⟩
    all_goals exact soon rfl (put (fun _ _ => rfl) rfl rfl) (Or.inl rfl)
  have others : ∀ i ≠ 0, (Here armsFirst).queue.link i = none := fun i apart => update_of_ne apart _ _
  have arrived : (Here armsFirst).queue.link = update (fun _ => none) 0 (some ⟨⟨⟨6,0⟩,5,false⟩,none⟩) := rfl
  have sets : setsFirst.Through HandledNear := by
    refine ⟨⟨⟨⟨⟨⟨arms.last,?_⟩,?_⟩,?_⟩,?_⟩,?_⟩,?_⟩
    iterate 2 exact soon rfl (put (fun _ _ => rfl) arrived rfl) (Or.inl rfl)
    iterate 3 exact soon rfl (put others rfl rfl) (Or.inr rfl)
    exact soon rfl (put others rfl rfl) (Or.inl rfl)
  have near : (armsFirst.append setsFirst).Through HandledNear := arms.append sets
  have alone : setsFirst.Every Undisturbed := ⟨⟨⟨⟨⟨⟨True.intro,rfl⟩,rfl⟩,rfl⟩,rfl⟩,rfl⟩,rfl⟩
  have entered : (Here armsFirst).handler = .clearCompareFlag := rfl
  have returns := (always_armed (s:=Here armsFirst) armsFirst arms).2.2.2 entered _ setsFirst sets alone
  exact ⟨near,(always_armed (armsFirst.append setsFirst) near).1,returns⟩

end Rtic.Time.TimerQueue
