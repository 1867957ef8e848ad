import Rtic.Time.TimerQueue
namespace Rtic.Time.TimerQueue
open Function Rtic.Common Chain Transition

-- The link of a Delay that has been inserted: in the list as long as it is not popped.
def Enlisted (d : Delay) (value : Option WaitingWaker) (queued : Bool) : Prop :=
  ∃ waker wasPopped, value = some ⟨waker,d.instant,wasPopped⟩ ∧ queued = !wasPopped

-- What lies in the link_ptr of the Delay at `i`, and whether it is in the list, by
-- where the Delay stands. The marker is set before the poll returns.
def Stands (i : Nat) (d : Delay) (value : Option WaitingWaker) (queued : Bool) : Prop :=
  match d.point with
  | .gone => value = none ∧ queued = false
  | .idle => (value = none ∧ queued = false) ∨ (d.marker = i ∧ Enlisted d value queued)
  | .insert => ∃ waker, value = some ⟨waker,d.instant,false⟩ ∧ queued = false
  | .marker _ => Enlisted d value queued
  | .pend => d.marker = i ∧ Enlisted d value queued
  | .delete => d.marker = i ∧ Enlisted d value queued

structure Sound (queue : LinkedList WaitingWaker) (delay : Nat → Delay) (l : List Nat) : Prop where
  holds : queue.Holds l
  stands : ∀ i, Stands i (delay i) (queue.value i) (decide (i ∈ l))
  fresh : ∀ i, (delay i).point = .insert → queue.succ i = some none

section
variable {w : Nat} {gated : Bool} {start : Int} {evs : List Event} {s t : State w} {e : Event} {i : Nat} {d : Delay}
  {queue next : LinkedList WaitingWaker} {delay : Nat → Delay} {l : List Nat} {value : Option WaitingWaker}

theorem Sound.nodup (sound : Sound queue delay l) : l.Nodup := Linked.nodup sound.holds

theorem Sound.unlinked (sound : Sound queue delay l) (unlinked : queue.link i = none) : i ∉ l := fun member => by
  obtain ⟨link,linked⟩ := sound.holds.linked member
  rw [unlinked] at linked
  cases linked

-- The Delay at `i` moves on, with what is in its memory; the others stay as they are.
theorem Sound.at (sound : Sound queue delay l) {l' : List Nat} (holds : next.Holds l') (members : ∀ j, j ≠ i → (j ∈ l' ↔ j ∈ l))
    (values : ∀ j, j ≠ i → next.value j = queue.value j)
    (succs : ∀ j, j ≠ i → (delay j).point = .insert → next.succ j = queue.succ j)
    (stands : Stands i d (next.value i) (decide (i ∈ l'))) (fresh : d.point = .insert → next.succ i = some none) :
    Sound next (update delay i d) l' := by
  refine ⟨holds,fun j => ?_,fun j here => ?_⟩ <;> by_cases same : j = i
  · subst same
    rwa [update_self]
  · rw [update_of_ne same,values j same,decide_eq_decide.mpr (members j same)]
    exact sound.stands j
  · subst same
    rw [update_self] at here
    exact fresh here
  · rw [update_of_ne same] at here
    rw [succs j same here]
    exact sound.fresh j here

-- Only the Delay moves.
theorem Sound.move (sound : Sound queue delay l) (stands : Stands i d (queue.value i) (decide (i ∈ l)))
    (fresh : d.point ≠ .insert) : Sound queue (update delay i d) l :=
  sound.at sound.holds (fun _ _ => Iff.rfl) (fun _ _ => rfl) (fun _ _ _ => rfl) stands fun here => absurd here fresh

theorem value_place {waker : WaitingWaker} : (queue.place i waker).value i = some waker := by
  simp [LinkedList.place,LinkedList.value]

theorem Sound.outside (sound : Sound queue delay l) (out : i ∉ l) (links : ∀ j, j ≠ i → next.link j = queue.link j)
    (head : next.head = queue.head) (stands : Stands i d (next.value i) false)
    (fresh : d.point = .insert → next.succ i = some none) : Sound next (update delay i d) l := by
  refine sound.at (sound.holds.outside out links head) (fun _ _ => Iff.rfl) (fun j other => ?_) (fun j other _ => ?_) ?_ fresh
  · simp only [LinkedList.value,links j other]
  · simp only [LinkedList.succ,links j other]
  · rwa [decide_eq_false out]

theorem initial_sound : Sound (initial w gated start).queue (initial w gated start).delay [] :=
  ⟨rfl,fun _ => ⟨rfl,rfl⟩,fun _ => nofun⟩

-- The Delay at the head of the list has been inserted and not been popped.
theorem Stands.of_queued (stands : Stands i d value true) :
    d.point ≠ .gone ∧ d.point ≠ .insert ∧ ∃ waker, value = some ⟨waker,d.instant,false⟩ := by
  have unpopped : ∀ {value}, Enlisted d value true → ∃ waker, value = some ⟨waker,d.instant,false⟩ := by
    rintro value ⟨waker,wasPopped,rfl,unpopped⟩
    cases wasPopped with
    | true => cases unpopped
    | false => exact ⟨waker,rfl⟩
  unfold Stands at stands
  cases point : d.point <;> rw [point] at stands
  case gone => cases stands.2
  case idle =>
    rcases stands with ⟨_,impossible⟩ | ⟨_,enlisted⟩
    · cases impossible
    · exact ⟨nofun,nofun,unpopped enlisted⟩
  case insert =>
    obtain ⟨_,_,impossible⟩ := stands
    cases impossible
  case marker => exact ⟨nofun,nofun,unpopped stands⟩
  all_goals exact ⟨nofun,nofun,unpopped stands.2⟩

theorem Sound.of_head (sound : Sound queue delay (i::l)) :
    (delay i).point ≠ .gone ∧ (delay i).point ≠ .insert ∧
      ∃ waker, queue.value i = some ⟨waker,(delay i).instant,false⟩ :=
  Stands.of_queued (by simpa using sound.stands i)

-- Popping a link takes it out of the list and marks it.
theorem Stands.pop {waker : Waker} (stands : Stands i d (some ⟨waker,d.instant,false⟩) true) :
    Stands i d (some ⟨waker,d.instant,true⟩) false := by
  have popped : Enlisted d (some ⟨waker,d.instant,true⟩) false := ⟨waker,true,rfl,rfl⟩
  unfold Stands at *
  cases point : d.point <;> rw [point] at stands
  case gone => cases stands.1
  case idle =>
    rcases stands with ⟨impossible,_⟩ | ⟨marker,_⟩
    · cases impossible
    · exact Or.inr ⟨marker,popped⟩
  case insert =>
    obtain ⟨_,_,impossible⟩ := stands
    cases impossible
  case marker => exact popped
  all_goals exact ⟨stands.1,popped⟩

theorem Sound.popIf {now : Int} {popped : Option (Nat × WaitingWaker × Bool)} (sound : Sound queue delay l)
    (result : queue.popIf (shouldPop w now) = some (popped,next)) :
    (l = [] ∧ popped = none ∧ next = queue) ∨
    ∃ i rest waker, l = i::rest ∧ queue.value i = some ⟨waker,(delay i).instant,false⟩ ∧
      ((TimerQueueTicks.isAtLeast (wrap w now) (wrap w (delay i).instant) = true ∧
        popped = some (i,⟨waker,(delay i).instant,true⟩,true) ∧ Sound next delay rest ∧
        next.value i = some ⟨waker,(delay i).instant,true⟩ ∧ ∀ j, j ≠ i → next.value j = queue.value j) ∨
      (TimerQueueTicks.isAtLeast (wrap w now) (wrap w (delay i).instant) = false ∧
        popped = some (i,⟨waker,(delay i).instant,false⟩,false) ∧ Sound next delay l ∧
        ∀ j, next.value j = queue.value j)) := by
  rcases LinkedList.popIf_cases sound.holds result with empty | ⟨i,rest,link,rfl,linked,rfl,same,holds⟩
  · exact Or.inl empty
  obtain ⟨notGone,notFresh,waker,val⟩ := sound.of_head
  have link_ : link.val = ⟨waker,(delay i).instant,false⟩ := by
    simp only [LinkedList.value,linked] at val
    exact Option.some.inj val
  have values : ∀ j, j ≠ i → next.value j = queue.value j := fun j other => by
    rw [same]
    simp [LinkedList.value,update_of_ne other]
  have succs : ∀ j, next.succ j = queue.succ j := fun j => by
    rw [same]
    by_cases here : j = i
    · subst here
      simp [LinkedList.succ,linked]
    · simp [LinkedList.succ,update_of_ne here]
  have value : next.value i = some (shouldPop w now link.val).2 := by
    rw [same]
    simp [LinkedList.value]
  have out := (List.nodup_cons.mp sound.nodup).1
  have still : update delay i (delay i) = delay := update_eq_self i delay
  have stands := sound.stands i
  rw [decide_eq_true List.mem_cons_self,val] at stands
  refine Or.inr ⟨i,rest,waker,rfl,val,?_⟩
  rw [link_] at holds value ⊢
  cases due : TimerQueueTicks.isAtLeast (wrap w now) (wrap w (delay i).instant) with
  | true =>
    have closure : shouldPop w now ⟨waker,(delay i).instant,false⟩ = (true,⟨waker,(delay i).instant,true⟩) := by
      simp only [shouldPop,due]
    rw [closure] at holds value ⊢
    refine Or.inl ⟨rfl,rfl,?_,value,values⟩
    rw [← still]
    refine sound.at holds (fun j other => by simp [other]) values (fun j _ _ => succs j) ?_ fun here => absurd here notFresh
    rw [value,decide_eq_false out]
    exact stands.pop
  | false =>
    have closure : shouldPop w now ⟨waker,(delay i).instant,false⟩ = (false,⟨waker,(delay i).instant,false⟩) := by
      simp only [shouldPop,due]
    rw [closure] at holds value ⊢
    refine Or.inr ⟨rfl,rfl,?_,fun j => ?_⟩
    · rw [← still]
      refine sound.at holds (fun _ _ => Iff.rfl) values (fun j _ _ => succs j) ?_ fun here => absurd here notFresh
      rw [value,← val]
      exact sound.stands i
    · by_cases here : j = i
      · subst here
        exact value.trans val.symm
      · exact values j here

-- What the three answers say: the first link was due and is popped, it is not due, or there is none.
theorem Sound.popped {now : Int} {i : Nat} {val : WaitingWaker} (sound : Sound queue delay l)
    (result : queue.popIf (shouldPop w now) = some (some (i,val,true),next)) :
    ∃ rest waker, l = i::rest ∧ val = ⟨waker,(delay i).instant,true⟩ ∧
      queue.value i = some ⟨waker,(delay i).instant,false⟩ ∧
      TimerQueueTicks.isAtLeast (wrap w now) (wrap w (delay i).instant) = true ∧ Sound next delay rest ∧
      next.value i = some ⟨waker,(delay i).instant,true⟩ ∧ ∀ j, j ≠ i → next.value j = queue.value j := by
  rcases sound.popIf result with ⟨_,empty,_⟩ | ⟨i,rest,waker,rfl,before,⟨due,popped,after⟩ | ⟨_,popped,_⟩⟩
  · cases empty
  · cases popped
    exact ⟨rest,waker,rfl,rfl,before,due,after⟩
  · cases popped

theorem Sound.notDue {now : Int} {i : Nat} {val : WaitingWaker} (sound : Sound queue delay l)
    (result : queue.popIf (shouldPop w now) = some (some (i,val,false),next)) :
    ∃ rest waker, l = i::rest ∧ val = ⟨waker,(delay i).instant,false⟩ ∧
      TimerQueueTicks.isAtLeast (wrap w now) (wrap w (delay i).instant) = false ∧ Sound next delay l ∧
      ∀ j, next.value j = queue.value j := by
  rcases sound.popIf result with ⟨_,empty,_⟩ | ⟨i,rest,waker,rfl,_,⟨_,popped,_⟩ | ⟨early,popped,after⟩⟩
  · cases empty
  · cases popped
  · cases popped
    exact ⟨rest,waker,rfl,rfl,early,after⟩

theorem Sound.emptied {now : Int} (sound : Sound queue delay l)
    (result : queue.popIf (shouldPop w now) = some (none,next)) : l = [] ∧ next = queue := by
  rcases sound.popIf result with ⟨empty,_,same⟩ | ⟨i,rest,waker,_,_,⟨_,popped,_⟩ | ⟨_,popped,_⟩⟩
  · exact ⟨empty,same⟩
  · cases popped
  · cases popped

theorem Sound.insert {fuel : Nat} {headUpdated : Bool} (sound : Sound queue delay l) (here : (delay i).point = .insert)
    (result : queue.insert (WaitingWaker.lt w) fuel i = some (headUpdated,next)) :
    i ∉ l ∧ LinkedList.Inserted queue next (WaitingWaker.lt w) i l headUpdated ∧
      Sound next (update delay i {delay i with point := .marker headUpdated})
        (l.orderedInsert (fun i j => queue.precedes (WaitingWaker.lt w) i j = true) i) := by
  have stands := sound.stands i
  simp only [Stands,here] at stands
  obtain ⟨waker,val,out⟩ := stands
  have out : i ∉ l := of_decide_eq_false out
  obtain ⟨link,linked,same⟩ := Option.map_eq_some_iff.mp (sound.fresh i here)
  have fresh : queue.link i = some ⟨link.val,none⟩ := by rw [linked,← same]
  have inserted := LinkedList.insert_holds sound.holds fresh out result
  refine ⟨out,inserted,?_⟩
  refine sound.at inserted.holds (fun j other => by simp [List.mem_orderedInsert,other])
    (fun j _ => inserted.value j) (fun j other standing => ?_) ?_ nofun
  · have stands := sound.stands j
    simp only [Stands,standing] at stands
    obtain ⟨_,_,outside⟩ := stands
    unfold LinkedList.succ
    rw [inserted.others j (by simpa [other] using of_decide_eq_false outside)]
  · refine ⟨waker,false,(inserted.value i).trans val,?_⟩
    exact decide_eq_true ((List.mem_orderedInsert _).mpr (Or.inl rfl))

theorem Sound.delete {fuel : Nat} (sound : Sound queue delay l) (here : (delay i).point = .delete)
    (result : queue.delete fuel (delay i).marker = some next) :
    (∀ j, next.value j = queue.value j) ∧
      Sound (next.free i) (update delay i {delay i with point := .gone}) (l.erase i) := by
  have stands := sound.stands i
  simp only [Stands,here] at stands
  rw [stands.1] at result
  obtain ⟨holds,values,others⟩ := LinkedList.delete_holds sound.holds result
  have out : i ∉ l.erase i := sound.nodup.not_mem_erase
  have free : ∀ j, j ≠ i → (next.free i).link j = next.link j := fun j other => update_of_ne other _ _
  refine ⟨values,sound.at (holds.outside out free rfl) (fun j other => List.mem_erase_of_ne other) (fun j other => ?_)
    (fun j other standing => ?_) ?_ nofun⟩
  · rw [← values j]
    simp only [LinkedList.value,free j other]
  · have stands := sound.stands j
    simp only [Stands,standing] at stands
    obtain ⟨_,_,outside⟩ := stands
    simp only [LinkedList.succ,free j other,others j (of_decide_eq_false outside)]
  · exact ⟨by simp [LinkedList.free,LinkedList.value],decide_eq_false out⟩

-- How a step changes the list.
def Relinked (s : State w) (l l' : List Nat) : Event → Prop
  | .inserted i _ _ =>
    i ∉ l ∧ l' = l.orderedInsert (fun i j => s.queue.precedes (WaitingWaker.lt w) i j = true) i
  | .deleted i => l' = l.erase i
  | .popped i _ => l = i::l'
  | _ => l' = l

theorem step_sound (sound : Sound s.queue s.delay l) (taken : Step gated s e t) :
    ∃ l', Sound t.queue t.delay l' ∧ Relinked s l l' e := by
  cases taken with
  | created here =>
    rename_i i instant
    have stands := sound.stands i
    simp only [Stands,show (s.delay i).point = .gone from here] at stands
    exact ⟨l,sound.move (Or.inl stands) (by simp),rfl⟩
  | linkMade here early unlinked =>
    rename_i i waker
    refine ⟨l,sound.outside (sound.unlinked unlinked) (fun j other => update_of_ne other _ _) rfl
      ⟨waker,value_place,rfl⟩ fun _ => ?_,rfl⟩
    simp [LinkedList.place,LinkedList.succ]
  | inserted here result =>
    obtain ⟨out,_,after⟩ := sound.insert here result
    exact ⟨_,after,out,rfl⟩
  | marked here =>
    rename_i i headUpdated
    have stands := sound.stands i
    simp only [Stands,show (s.delay i).point = .marker headUpdated from here] at stands
    refine ⟨l,sound.move ?_ (by cases headUpdated <;> simp),rfl⟩
    cases headUpdated
    · exact Or.inr ⟨rfl,stands⟩
    · exact ⟨rfl,stands⟩
  | pendInterrupt here =>
    rename_i i
    have stands := sound.stands i
    simp only [Stands,show (s.delay i).point = .pend from here] at stands
    exact ⟨l,sound.move (Or.inr stands) (by simp),rfl⟩
  | returned here done =>
    rename_i i
    have stands := sound.stands i
    simp only [Stands,show (s.delay i).point = .idle from here] at stands
    have out : i ∉ l := by
      rcases stands with ⟨_,outside⟩ | ⟨_,waker,wasPopped,val,queued⟩
      · exact of_decide_eq_false outside
      · obtain ⟨link,linked,same⟩ := Option.map_eq_some_iff.mp val
        have popped := done link linked
        rw [same] at popped
        rw [show wasPopped = true from popped] at queued
        exact of_decide_eq_false queued
    refine ⟨l,sound.outside out (fun j other => update_of_ne other _ _) rfl ⟨?_,rfl⟩ (by simp),rfl⟩
    simp [LinkedList.free,LinkedList.value]
  | dropping here linked unpopped =>
    rename_i link i
    have stands := sound.stands i
    simp only [Stands,show (s.delay i).point = .idle from here] at stands
    refine ⟨l,sound.move ?_ (by simp),rfl⟩
    rcases stands with ⟨none_,_⟩ | enlisted
    · simp [LinkedList.value,linked] at none_
    · exact enlisted
  | deleted here result =>
    obtain ⟨_,after⟩ := sound.delete here result
    exact ⟨_,after,rfl⟩
  | popped at_ result =>
    obtain ⟨rest,_,rfl,_,_,_,after,_⟩ := sound.popped result
    exact ⟨rest,after,rfl⟩
  | notDue at_ result =>
    obtain ⟨_,_,rfl,_,_,after,_⟩ := sound.notDue result
    exact ⟨_,after,rfl⟩
  | empty at_ result =>
    obtain ⟨_,rfl⟩ := sound.emptied result
    exact ⟨l,sound,rfl⟩
  | _ => exact ⟨l,sound,rfl⟩
-- A poll or a drop that has begun goes on: its loop comes to the end of the list.
theorem Sound.delay_moves (sound : Sound s.queue s.delay l) (alive : s.point i ≠ .gone) (busy : s.point i ≠ .idle) :
    ∃ e t, Step gated s e t ∧ t.point i ≠ s.point i := by
  cases here : s.point i with
  | gone => exact absurd here alive
  | idle => exact absurd here busy
  | insert =>
    have stands := sound.stands i
    simp only [Stands,show (s.delay i).point = .insert from here] at stands
    obtain ⟨waker,val,out⟩ := stands
    obtain ⟨link,linked,_⟩ := Option.map_eq_some_iff.mp val
    obtain ⟨⟨headUpdated,next⟩,result⟩ := LinkedList.insert_returns sound.holds linked
      (of_decide_eq_false out) (Nat.le_refl _)
    exact ⟨_,_,.inserted here result,by simp [State.move,State.point]⟩
  | marker headUpdated =>
    refine ⟨_,_,.marked here,?_⟩
    cases headUpdated <;> simp [State.mark,State.point]
  | pend => exact ⟨_,_,.pendInterrupt here,by simp [State.move,State.point]⟩
  | delete =>
    obtain ⟨next,result⟩ := LinkedList.delete_returns sound.holds (Nat.le_refl _)
    exact ⟨_,_,.deleted here result,by simp [State.move,State.point]⟩

end

def Event.inserts (number : Nat) : Event → Bool
  | .inserted _ n _ => decide (n = number)
  | _ => false

def Event.pops (number : Nat) : Event → Bool
  | .popped _ n => decide (n = number)
  | _ => false

def Event.wakes (number : Nat) : Event → Bool
  | .woke n _ => decide (n = number)
  | _ => false

-- How often the Delay of this number was inserted, popped and woken.
def inserts (evs : List Event) (number : Nat) : Nat := evs.countP (Event.inserts number)
def pops (evs : List Event) (number : Nat) : Nat := evs.countP (Event.pops number)
def wakes (evs : List Event) (number : Nat) : Nat := evs.countP (Event.wakes number)

-- The Delay at `i` lives, its poll has inserted it, and it has not been popped.
def Waits (evs : List Event) (s : State w) (i : Nat) : Prop :=
  s.point i ≠ .gone ∧ inserts evs (s.delay i).number = 1 ∧ pops evs (s.delay i).number = 0

def LinksExact (evs : List Event) (s : State w) : Prop :=
  (∃ l, s.queue.Holds l ∧ l.Nodup) ∧ ∀ i, s.queue.reachable i ↔ Waits evs s i

-- When drop returns, the link is out of the list and the others are where they were.
def DropLeaves (_ : List Event) (s : State w) : Event → State w → Prop
  | .returned i,t => ¬t.queue.reachable i ∧ ∀ j, j ≠ i → (t.queue.reachable j ↔ s.queue.reachable j)
  | .dropping _,t => t.queue = s.queue
  | .deleted i,t => ¬t.queue.reachable i ∧ ∀ j, j ≠ i → (t.queue.reachable j ↔ s.queue.reachable j)
  | _,_ => True

def WokenAtMostOnce (evs : List Event) (_ : State w) : Prop :=
  ∀ number, wakes evs number ≤ 1 ∧ ∀ waker, .woke number waker ∈ evs → ∃ i, .linkMade i number waker ∈ evs

-- The same as the memory of the Delay shows it.
def enlisted (d : Delay) (value : Option WaitingWaker) : Bool := value.isSome && d.point != .insert
def wasPopped (value : Option WaitingWaker) : Bool := value.any WaitingWaker.wasPopped

structure Numbered (evs : List Event) (s : State w) : Prop where
  below : ∀ i, s.point i ≠ .gone → (s.delay i).number < s.delays
  distinct : ∀ i j, s.point i ≠ .gone → s.point j ≠ .gone → (s.delay i).number = (s.delay j).number → i = j
  unknown : ∀ n, s.delays ≤ n → inserts evs n = 0 ∧ pops evs n = 0
  inserted : ∀ i, s.point i ≠ .gone →
    inserts evs (s.delay i).number = (enlisted (s.delay i) (s.queue.value i)).toNat
  popped : ∀ i, s.point i ≠ .gone → pops evs (s.delay i).number = (wasPopped (s.queue.value i)).toNat
  once : ∀ n, pops evs n ≤ 1

def inHand (handler : HandlerPoint) (number : Nat) : Bool :=
  match handler with
  | .wake n _ => decide (n = number)
  | _ => false

-- Each waker that was popped has been woken or is in the handler's hand, and it is
-- the one that the poll stored.
structure Handed (evs : List Event) (s : State w) : Prop where
  woken : ∀ n, wakes evs n+(inHand s.handler n).toNat = pops evs n
  made : ∀ i value, s.queue.value i = some value → .linkMade i (s.delay i).number value.waker ∈ evs
  held : ∀ n waker, s.handler = .wake n waker → ∃ i, .linkMade i n waker ∈ evs
  woke : ∀ n waker, .woke n waker ∈ evs → ∃ i, .linkMade i n waker ∈ evs

section
variable {w : Nat} {gated : Bool} {start : Int} {evs : List Event} {s t : State w} {e : Event} {i n : Nat} {d : Delay}
  {l : List Nat} {value : Option WaitingWaker}

theorem initial_numbered : Numbered [] (initial w gated start) :=
  ⟨fun _ alive => absurd rfl alive,fun _ _ alive => absurd rfl alive,fun _ _ => ⟨rfl,rfl⟩,fun _ alive => absurd rfl alive,
    fun _ alive => absurd rfl alive,fun _ => Nat.zero_le _⟩

-- A step that inserts nothing and pops nothing: no Delay comes to life, and those
-- that live have in memory what they had.
theorem Numbered.keep (numbered : Numbered evs s) (insertsNone : ∀ n, Event.inserts n e = false)
    (popsNone : ∀ n, Event.pops n e = false) (delays : t.delays = s.delays)
    (same : ∀ i, t.point i ≠ .gone → s.point i ≠ .gone ∧ (t.delay i).number = (s.delay i).number ∧
      enlisted (t.delay i) (t.queue.value i) = enlisted (s.delay i) (s.queue.value i) ∧
      wasPopped (t.queue.value i) = wasPopped (s.queue.value i)) : Numbered (evs++[e]) t := by
  have inserts_ : ∀ n, inserts (evs++[e]) n = inserts evs n := fun n => by
    rw [inserts,countP_snoc,insertsNone]
    rfl
  have pops_ : ∀ n, pops (evs++[e]) n = pops evs n := fun n => by
    rw [pops,countP_snoc,popsNone]
    rfl
  refine ⟨fun i alive => ?_,fun i j alive alive' => ?_,fun n out => ?_,fun i alive => ?_,fun i alive => ?_,fun n => ?_⟩
  · obtain ⟨before,number,_⟩ := same i alive
    rw [number,delays]
    exact numbered.below i before
  · obtain ⟨before,number,_⟩ := same i alive
    obtain ⟨before',number',_⟩ := same j alive'
    rw [number,number']
    exact numbered.distinct i j before before'
  · rw [inserts_,pops_]
    exact numbered.unknown n (delays ▸ out)
  · obtain ⟨before,number,links,_⟩ := same i alive
    rw [inserts_,number,links]
    exact numbered.inserted i before
  · obtain ⟨before,number,_,popped⟩ := same i alive
    rw [pops_,number,popped]
    exact numbered.popped i before
  · rw [pops_]
    exact numbered.once n

-- The Delay at `i` moves on with its link as it was.
theorem Numbered.move (numbered : Numbered evs s) (insertsNone : ∀ n, Event.inserts n e = false)
    (popsNone : ∀ n, Event.pops n e = false) (delays : t.delays = s.delays) (queue : t.queue = s.queue)
    (delay : t.delay = update s.delay i d) (number : d.number = (s.delay i).number)
    (alive : s.point i ≠ .gone) (links : enlisted d (s.queue.value i) = enlisted (s.delay i) (s.queue.value i)) :
    Numbered (evs++[e]) t := by
  refine numbered.keep insertsNone popsNone delays fun j alive' => ?_
  unfold State.point at alive'
  rw [queue,delay] at *
  by_cases here : j = i
  · subst here
    rw [update_self] at *
    exact ⟨alive,number,links,rfl⟩
  · rw [update_of_ne here] at *
    exact ⟨alive',rfl,rfl,rfl⟩

-- The Delay at `i` is gone, and nothing changes in the memory of the others.
theorem Numbered.leave (numbered : Numbered evs s) (insertsNone : ∀ n, Event.inserts n e = false)
    (popsNone : ∀ n, Event.pops n e = false) (delays : t.delays = s.delays)
    (delay : t.delay = update s.delay i {s.delay i with point := .gone})
    (values : ∀ j, j ≠ i → t.queue.value j = s.queue.value j) : Numbered (evs++[e]) t := by
  refine numbered.keep insertsNone popsNone delays fun j alive => ?_
  unfold State.point at alive
  rw [delay] at *
  by_cases here : j = i
  · subst here
    simp at alive
  · rw [update_of_ne here] at *
    rw [values j here]
    exact ⟨alive,rfl,rfl,rfl⟩

theorem Numbered.created (numbered : Numbered evs s) (sound : Sound s.queue s.delay l) (here : s.point i = .gone)
    (instant : Int) : Numbered (evs++[.created i instant])
      {s with delay := update s.delay i ⟨s.delays,instant,0,.idle⟩,delays := s.delays+1} := by
  have inserts_ : ∀ n, inserts (evs++[.created i instant]) n = inserts evs n := fun n => countP_snoc _ _ _
  have pops_ : ∀ n, pops (evs++[.created i instant]) n = pops evs n := fun n => countP_snoc _ _ _
  have empty : s.queue.value i = none := by
    have stands := sound.stands i
    simp only [Stands,show (s.delay i).point = .gone from here] at stands
    exact stands.1
  have new := numbered.unknown s.delays (Nat.le_refl _)
  have alive_ : ∀ j, j ≠ i → (update s.delay i ⟨s.delays,instant,0,.idle⟩ j).point ≠ .gone → s.point j ≠ .gone :=
    fun j other alive => by rwa [update_of_ne other] at alive
  refine ⟨fun j alive => ?_,fun j k alive alive' same => ?_,fun n out => ?_,fun j alive => ?_,fun j alive => ?_,
    fun n => (pops_ n).trans_le (numbered.once n)⟩
  · by_cases same : j = i
    · subst same
      simp
    · simp only [update_of_ne same]
      exact Nat.lt_succ_of_lt (numbered.below j (alive_ j same alive))
  · by_cases first : j = i <;> by_cases second : k = i
    · rw [first,second]
    · subst first
      simp only [update_self,update_of_ne second] at same
      exact absurd same (Nat.ne_of_gt (numbered.below k (alive_ k second alive')))
    · subst second
      simp only [update_self,update_of_ne first] at same
      exact absurd same (Nat.ne_of_lt (numbered.below j (alive_ j first alive)))
    · simp only [update_of_ne first,update_of_ne second] at same
      exact numbered.distinct j k (alive_ j first alive) (alive_ k second alive') same
  · rw [inserts_,pops_]
    exact numbered.unknown n (Nat.le_of_succ_le out)
  · rw [inserts_]
    by_cases same : j = i
    · subst same
      simp only [update_self,empty]
      exact new.1
    · simp only [update_of_ne same]
      exact numbered.inserted j (alive_ j same alive)
  · rw [pops_]
    by_cases same : j = i
    · subst same
      simp only [update_self,empty]
      exact new.2
    · simp only [update_of_ne same]
      exact numbered.popped j (alive_ j same alive)

theorem Numbered.insert {headUpdated : Bool} {next : LinkedList WaitingWaker} (numbered : Numbered evs s)
    (sound : Sound s.queue s.delay l) (here : s.point i = .insert) (values : ∀ j, next.value j = s.queue.value j) :
    Numbered (evs++[.inserted i (s.delay i).number headUpdated]) {s.move i (.marker headUpdated) with queue := next} := by
  have pops_ : ∀ n, pops (evs++[.inserted i (s.delay i).number headUpdated]) n = pops evs n := fun n => countP_snoc _ _ _
  have inserts_ : ∀ n, inserts (evs++[.inserted i (s.delay i).number headUpdated]) n =
      inserts evs n+(decide ((s.delay i).number = n)).toNat := fun n => countP_snoc _ _ _
  have alive : s.point i ≠ .gone := by
    rw [here]
    nofun
  obtain ⟨waker,val,_⟩ : ∃ waker, s.queue.value i = some ⟨waker,(s.delay i).instant,false⟩ ∧ decide (i ∈ l) = false := by
    have stands := sound.stands i
    simp only [Stands,show (s.delay i).point = .insert from here] at stands
    exact stands
  have alive_ : ∀ j, j ≠ i → (update s.delay i {s.delay i with point := .marker headUpdated} j).point ≠ .gone →
      s.point j ≠ .gone := fun j other alive => by rwa [update_of_ne other] at alive
  refine ⟨fun j alive' => ?_,fun j k alive' alive'' same => ?_,fun n out => ?_,fun j alive' => ?_,fun j alive' => ?_,
    fun n => (pops_ n).trans_le (numbered.once n)⟩
  · by_cases same : j = i
    · subst same
      simpa [State.move] using numbered.below j alive
    · simpa [State.move,update_of_ne same] using numbered.below j (alive_ j same alive')
  · by_cases first : j = i <;> by_cases second : k = i
    · rw [first,second]
    · subst first
      exact numbered.distinct j k alive (alive_ k second alive'') (by simpa [State.move,update_of_ne second] using same)
    · subst second
      exact numbered.distinct j k (alive_ j first alive') alive (by simpa [State.move,update_of_ne first] using same)
    · exact numbered.distinct j k (alive_ j first alive') (alive_ k second alive'')
        (by simpa [State.move,update_of_ne first,update_of_ne second] using same)
  · have other : (s.delay i).number ≠ n := Nat.ne_of_lt (Nat.lt_of_lt_of_le (numbered.below i alive) out)
    rw [inserts_,pops_,decide_eq_false other]
    exact numbered.unknown n out
  · rw [inserts_]
    by_cases same : j = i
    · subst same
      simp only [State.move,update_self,values]
      rw [numbered.inserted j alive,val]
      simp [enlisted,show (s.delay j).point = .insert from here]
      rfl
    · have other : (s.delay i).number ≠ (s.delay j).number := fun equal =>
        same (numbered.distinct j i (alive_ j same alive') alive equal.symm)
      simp only [State.move,update_of_ne same,values]
      rw [decide_eq_false other]
      exact numbered.inserted j (alive_ j same alive')
  · rw [pops_]
    by_cases same : j = i
    · subst same
      simp only [State.move,update_self,values]
      exact numbered.popped j alive
    · simp only [State.move,update_of_ne same,values]
      exact numbered.popped j (alive_ j same alive')

theorem Numbered.pop {waker : Waker} {next : LinkedList WaitingWaker} (numbered : Numbered evs s)
    (alive : s.point i ≠ .gone) (val : s.queue.value i = some ⟨waker,(s.delay i).instant,false⟩)
    (val' : next.value i = some ⟨waker,(s.delay i).instant,true⟩) (values : ∀ j, j ≠ i → next.value j = s.queue.value j)
    (handler : HandlerPoint) :
    Numbered (evs++[.popped i (s.delay i).number]) {s with queue := next,handler := handler} := by
  have inserts_ : ∀ n, inserts (evs++[.popped i (s.delay i).number]) n = inserts evs n := fun n => countP_snoc _ _ _
  have pops_ : ∀ n, pops (evs++[.popped i (s.delay i).number]) n = pops evs n+(decide ((s.delay i).number = n)).toNat :=
    fun n => countP_snoc _ _ _
  have none_ : pops evs (s.delay i).number = 0 := by
    rw [numbered.popped i alive,val]
    rfl
  refine ⟨numbered.below,numbered.distinct,fun n out => ?_,fun j alive' => ?_,fun j alive' => ?_,fun n => ?_⟩
  · have other : (s.delay i).number ≠ n := Nat.ne_of_lt (Nat.lt_of_lt_of_le (numbered.below i alive) out)
    rw [inserts_,pops_,decide_eq_false other]
    exact numbered.unknown n out
  · rw [inserts_]
    refine (numbered.inserted j alive').trans ?_
    by_cases same : j = i
    · subst same
      rw [val,val']
      rfl
    · rw [values j same]
  · rw [pops_]
    by_cases same : j = i
    · subst same
      rw [none_,val',decide_eq_true rfl]
      rfl
    · have other : (s.delay i).number ≠ (s.delay j).number := fun equal =>
        same (numbered.distinct j i alive' alive equal.symm)
      rw [decide_eq_false other,values j same]
      exact numbered.popped j alive'
  · rw [pops_]
    by_cases same : (s.delay i).number = n
    · subst same
      rw [none_,decide_eq_true rfl]
      exact Nat.le_refl _
    · rw [decide_eq_false same]
      exact numbered.once n

theorem step_numbered (sound : Sound s.queue s.delay l) (numbered : Numbered evs s) (taken : Step gated s e t) :
    Numbered (evs++[e]) t := by
  cases taken with
  | created here => exact numbered.created sound here _
  | linkMade here early unlinked =>
    rename_i i waker
    have empty : s.queue.value i = none := by simp [LinkedList.value,unlinked]
    refine numbered.keep (fun _ => rfl) (fun _ => rfl) rfl fun j alive => ?_
    by_cases same : j = i
    · subst same
      refine ⟨by simp [here],by simp [State.move],?_,?_⟩
      · simp [State.move,enlisted,value_place,empty]
      · simp only [value_place,empty]
        rfl
    · have other : (s.queue.place i ⟨waker,(s.delay i).instant,false⟩).value j = s.queue.value j := by
        simp [LinkedList.place,LinkedList.value,update_of_ne same]
      simp only [State.move,State.point,update_of_ne same,other] at alive ⊢
      exact ⟨alive,trivial,trivial,trivial⟩
  | inserted here result =>
    obtain ⟨_,inserted,_⟩ := sound.insert here result
    exact numbered.insert sound here inserted.value
  | marked here =>
    rename_i i headUpdated
    refine numbered.move (fun _ => rfl) (fun _ => rfl) rfl rfl rfl rfl (by simp [here]) ?_
    simp only [enlisted,show (s.delay i).point = .marker headUpdated from here]
    cases headUpdated <;> rfl
  | pendInterrupt here =>
    rename_i i
    refine numbered.move (fun _ => rfl) (fun _ => rfl) rfl rfl rfl rfl (by simp [here]) ?_
    simp only [enlisted,show (s.delay i).point = .pend from here]
    rfl
  | returned here done =>
    rename_i i
    exact numbered.leave (fun _ => rfl) (fun _ => rfl) rfl rfl fun j other => by
      simp [LinkedList.free,LinkedList.value,update_of_ne other]
  | dropping here linked unpopped =>
    rename_i link i
    refine numbered.move (fun _ => rfl) (fun _ => rfl) rfl rfl rfl rfl (by simp [here]) ?_
    simp only [enlisted,show (s.delay i).point = .idle from here]
    rfl
  | deleted here result =>
    obtain ⟨values,_⟩ := sound.delete here result
    exact numbered.leave (fun _ => rfl) (fun _ => rfl) rfl rfl fun j other => by
      rw [← values j]
      simp [LinkedList.free,LinkedList.value,update_of_ne other]
  | popped at_ result =>
    obtain ⟨_,_,rfl,rfl,val,_,_,val',values⟩ := sound.popped result
    exact numbered.pop sound.of_head.1 val val' values _
  | notDue at_ result =>
    obtain ⟨_,_,_,_,_,_,values⟩ := sound.notDue result
    exact numbered.keep (fun _ => rfl) (fun _ => rfl) rfl fun j alive =>
      ⟨alive,rfl,congrArg (enlisted (s.delay j)) (values j),congrArg wasPopped (values j)⟩
  | empty at_ result =>
    obtain ⟨_,rfl⟩ := sound.emptied result
    exact numbered.keep (fun _ => rfl) (fun _ => rfl) rfl fun j alive => ⟨alive,rfl,rfl,rfl⟩
  | _ => exact numbered.keep (fun _ => rfl) (fun _ => rfl) rfl fun j alive => ⟨alive,rfl,rfl,rfl⟩

theorem initial_handed : Handed [] (initial w gated start) := ⟨fun _ => rfl,nofun,nofun,nofun⟩

-- A step that pops and wakes nobody, and stores no new waker.
theorem Handed.keep (handed : Handed evs s) (wakesNone : ∀ n, Event.wakes n e = false)
    (popsNone : ∀ n, Event.pops n e = false) (hand : ∀ n, inHand t.handler n = inHand s.handler n)
    (handler : ∀ n waker, t.handler = .wake n waker → s.handler = .wake n waker)
    (values : ∀ i value, t.queue.value i = some value → ∃ before, s.queue.value i = some before ∧
      before.waker = value.waker ∧ (t.delay i).number = (s.delay i).number) : Handed (evs++[e]) t := by
  refine ⟨fun n => ?_,fun i value some_ => ?_,fun n waker at_ => ?_,fun n waker member => ?_⟩
  · rw [wakes,pops,countP_snoc,countP_snoc,wakesNone,popsNone,hand]
    exact handed.woken n
  · obtain ⟨before,val,waker,number⟩ := values i value some_
    rw [← waker,number]
    exact List.mem_append_left _ (handed.made i before val)
  · obtain ⟨i,made⟩ := handed.held n waker (handler n waker at_)
    exact ⟨i,List.mem_append_left _ made⟩
  · rcases List.mem_append.mp member with before | last
    · obtain ⟨i,made⟩ := handed.woke n waker before
      exact ⟨i,List.mem_append_left _ made⟩
    · have wakes_ := wakesNone n
      rw [← List.mem_singleton.mp last] at wakes_
      simp [Event.wakes] at wakes_

-- The handler moves between two points without a waker in hand.
theorem Handed.move {point : HandlerPoint} (handed : Handed evs s) (wakesNone : ∀ n, Event.wakes n e = false)
    (popsNone : ∀ n, Event.pops n e = false) (at_ : s.handler = point) (before : ∀ n, inHand point n = false)
    (after : ∀ n, inHand t.handler n = false) (values : ∀ i, t.queue.value i = s.queue.value i)
    (delay : t.delay = s.delay) : Handed (evs++[e]) t := by
  subst at_
  refine handed.keep wakesNone popsNone (fun n => (after n).trans (before n).symm) (fun n waker hand => ?_)
    fun i value some_ => ?_
  · have empty := after n
    rw [hand] at empty
    simp [inHand] at empty
  · rw [delay]
    exact ⟨value,(values i).symm.trans some_,rfl,rfl⟩

theorem Handed.pop {waker : Waker} {next : LinkedList WaitingWaker} (handed : Handed evs s) (at_ : s.handler = .popIf)
    (val : s.queue.value i = some ⟨waker,(s.delay i).instant,false⟩)
    (val' : next.value i = some ⟨waker,(s.delay i).instant,true⟩) (values : ∀ j, j ≠ i → next.value j = s.queue.value j) :
    Handed (evs++[.popped i (s.delay i).number]) {s with queue := next,handler := .wake (s.delay i).number waker} := by
  refine ⟨fun n => ?_,fun j value some_ => ?_,fun n waker' hand => ?_,fun n waker' member => ?_⟩
  · have woken := handed.woken n
    rw [at_] at woken
    rw [wakes,pops,countP_snoc,countP_snoc]
    exact congrArg (·+(decide ((s.delay i).number = n)).toNat) woken
  · refine List.mem_append_left _ ?_
    by_cases same : j = i
    · subst same
      rw [val'] at some_
      cases some_
      exact handed.made j ⟨waker,(s.delay j).instant,false⟩ val
    · exact handed.made j value ((values j same).symm.trans some_)
  · cases hand
    exact ⟨i,List.mem_append_left _ (handed.made i _ val)⟩
  · obtain ⟨j,made⟩ := handed.woke n waker' (by simpa using member)
    exact ⟨j,List.mem_append_left _ made⟩

theorem number_moved {point : DelayPoint} (j : Nat) :
    (update s.delay i {s.delay i with point := point} j).number = (s.delay j).number := by
  by_cases same : j = i
  · subst same
    rw [update_self]
  · rw [update_of_ne same]

theorem value_freed {queue : LinkedList WaitingWaker} {j : Nat} {value : WaitingWaker}
    (kept : (queue.free i).value j = some value) : queue.value j = some value := by
  by_cases same : j = i
  · subst same
    simp [LinkedList.free,LinkedList.value] at kept
  · simpa [LinkedList.free,LinkedList.value,update_of_ne same] using kept

theorem step_handed (sound : Sound s.queue s.delay l) (handed : Handed evs s) (taken : Step gated s e t) :
    Handed (evs++[e]) t := by
  -- Steps of a Delay that leave the memory as it is, but for a link that is freed.
  have stay : ∀ {t : State w} {e : Event}, (∀ n, Event.wakes n e = false) → (∀ n, Event.pops n e = false) →
      t.handler = s.handler → (∀ i value, t.queue.value i = some value → s.queue.value i = some value ∧
        (t.delay i).number = (s.delay i).number) → Handed (evs++[e]) t := fun wakesNone popsNone handler values =>
    handed.keep wakesNone popsNone (fun n => by rw [handler]) (fun n waker at_ => handler ▸ at_)
      fun i value some_ => ⟨value,(values i value some_).1,rfl,(values i value some_).2⟩
  cases taken with
  | created here =>
    rename_i i instant
    refine stay (fun _ => rfl) (fun _ => rfl) rfl fun j value some_ => ⟨some_,?_⟩
    by_cases same : j = i
    · subst same
      have stands := sound.stands j
      simp only [Stands,show (s.delay j).point = .gone from here] at stands
      cases stands.1.symm.trans some_
    · simp [update_of_ne same]
  | linkMade here early unlinked =>
    rename_i i waker
    have before := handed.keep (e:=.linkMade i (s.delay i).number waker) (fun _ => rfl) (fun _ => rfl) (fun _ => rfl)
      (fun _ _ at_ => at_) fun _ value some_ => ⟨value,some_,rfl,rfl⟩
    refine ⟨before.woken,fun j value some_ => ?_,before.held,before.woke⟩
    by_cases same : j = i
    · subst same
      rw [value_place] at some_
      cases some_
      simp [State.move]
    · simp only [State.move,update_of_ne same]
      refine before.made j value ?_
      simpa [LinkedList.place,LinkedList.value,update_of_ne same] using some_
  | inserted here result =>
    obtain ⟨_,inserted,_⟩ := sound.insert here result
    exact stay (fun _ => rfl) (fun _ => rfl) rfl fun j value some_ => ⟨(inserted.value j).symm.trans some_,number_moved j⟩
  | marked here =>
    rename_i i headUpdated
    refine stay (fun _ => rfl) (fun _ => rfl) rfl fun j value some_ => ⟨some_,?_⟩
    by_cases same : j = i
    · subst same
      simp [State.mark]
    · simp [State.mark,update_of_ne same]
  | pendInterrupt here => exact stay (fun _ => rfl) (fun _ => rfl) rfl fun j value some_ => ⟨some_,number_moved j⟩
  | returned here done => exact stay (fun _ => rfl) (fun _ => rfl) rfl fun j value some_ => ⟨value_freed some_,number_moved j⟩
  | dropping here linked unpopped => exact stay (fun _ => rfl) (fun _ => rfl) rfl fun j value some_ => ⟨some_,number_moved j⟩
  | deleted here result =>
    obtain ⟨values,_⟩ := sound.delete here result
    exact stay (fun _ => rfl) (fun _ => rfl) rfl fun j value some_ =>
      ⟨(values j).symm.trans (value_freed some_),number_moved j⟩
  | popped at_ result =>
    obtain ⟨_,_,rfl,rfl,val,_,_,val',values⟩ := sound.popped result
    exact handed.pop at_ val val' values
  | notDue at_ result =>
    obtain ⟨_,_,_,_,_,_,values⟩ := sound.notDue result
    exact handed.move (fun _ => rfl) (fun _ => rfl) at_ (fun _ => rfl) (fun _ => rfl) values rfl
  | empty at_ result =>
    obtain ⟨_,rfl⟩ := sound.emptied result
    exact handed.move (fun _ => rfl) (fun _ => rfl) at_ (fun _ => rfl) (fun _ => rfl) (fun _ => rfl) rfl
  | woke at_ =>
    rename_i number waker
    refine ⟨fun n => ?_,fun j value some_ => List.mem_append_left _ (handed.made j value some_),by simp,
      fun n waker' member => ?_⟩
    · have woken := handed.woken n
      rw [at_] at woken
      rw [wakes,pops,countP_snoc,countP_snoc]
      exact woken
    · rcases List.mem_append.mp member with before | last
      · obtain ⟨i,made⟩ := handed.woke n waker' before
        exact ⟨i,List.mem_append_left _ made⟩
      · cases List.mem_singleton.mp last
        obtain ⟨i,made⟩ := handed.held number waker at_
        exact ⟨i,List.mem_append_left _ made⟩
  | interrupted idle requested =>
    exact handed.move (fun _ => rfl) (fun _ => rfl) idle (fun _ => rfl) (fun _ => rfl) (fun _ => rfl) rfl
  | flagCleared at_ => exact handed.move (fun _ => rfl) (fun _ => rfl) at_ (fun _ => rfl) (fun _ => rfl) (fun _ => rfl) rfl
  | hooked at_ => exact handed.move (fun _ => rfl) (fun _ => rfl) at_ (fun _ => rfl) (fun _ => rfl) (fun _ => rfl) rfl
  | timerEnabled at_ => exact handed.move (fun _ => rfl) (fun _ => rfl) at_ (fun _ => rfl) (fun _ => rfl) (fun _ => rfl) rfl
  | compareSet at_ => exact handed.move (fun _ => rfl) (fun _ => rfl) at_ (fun _ => rfl) (fun _ => rfl) (fun _ => rfl) rfl
  | rechecked at_ =>
    refine handed.move (fun _ => rfl) (fun _ => rfl) at_ (fun _ => rfl) (fun n => ?_) (fun _ => rfl) rfl
    dsimp only
    split <;> rfl
  | timerDisabled at_ => exact handed.move (fun _ => rfl) (fun _ => rfl) at_ (fun _ => rfl) (fun _ => rfl) (fun _ => rfl) rfl
  | _ => exact stay (fun _ => rfl) (fun _ => rfl) rfl fun j value some_ => ⟨some_,rfl⟩

-- Whether a link is in the list can be read off the memory of its Delay.
theorem Stands.queued_iff {queued : Bool} (stands : Stands i d value queued) :
    queued = true ↔ d.point ≠ .gone ∧ enlisted d value = true ∧ wasPopped value = false := by
  constructor
  · rintro rfl
    obtain ⟨alive,entered,waker,rfl⟩ := stands.of_queued
    exact ⟨alive,by simp [enlisted,entered],rfl⟩
  · rintro ⟨alive,links,unpopped⟩
    unfold Stands at stands
    have read : Enlisted d value queued → queued = true := by
      rintro ⟨waker,popped,rfl,rfl⟩
      rw [show popped = false from unpopped]
      rfl
    cases point : d.point <;> rw [point] at stands
    case gone => exact absurd point alive
    case idle =>
      rcases stands with ⟨rfl,_⟩ | ⟨_,enlisted_⟩
      · simp [enlisted] at links
      · exact read enlisted_
    case insert => simp [enlisted,point] at links
    case marker => exact read stands
    all_goals exact read stands.2

theorem Sound.reachable_iff (sound : Sound s.queue s.delay l) : s.queue.reachable i ↔ i ∈ l :=
  Linked.reachable_iff sound.holds

theorem Sound.linksExact (sound : Sound s.queue s.delay l) (numbered : Numbered evs s) : LinksExact evs s := by
  refine ⟨⟨l,sound.holds,sound.nodup⟩,fun i => ?_⟩
  refine sound.reachable_iff.trans ((decide_eq_true_iff (p:=i ∈ l)).symm.trans ?_)
  rw [(sound.stands i).queued_iff]
  refine and_congr_right fun alive => ?_
  rw [numbered.inserted i alive,numbered.popped i alive,Bool.toNat_eq_one,Bool.toNat_eq_zero]

theorem drop_leaves (sound : Sound s.queue s.delay l) (taken : Step gated s e t) : DropLeaves evs s e t := by
  obtain ⟨l',after,relinked⟩ := step_sound sound taken
  cases taken with
  | returned here done =>
    rename_i i
    cases relinked
    have out : i ∉ l := after.unlinked (update_self i _ _)
    exact ⟨after.reachable_iff.not.mpr out,fun j other => after.reachable_iff.trans sound.reachable_iff.symm⟩
  | dropping here linked unpopped => exact rfl
  | deleted here result =>
    cases relinked
    refine ⟨after.reachable_iff.not.mpr sound.nodup.not_mem_erase,fun j other => ?_⟩
    rw [after.reachable_iff,sound.reachable_iff,List.mem_erase_of_ne other]
  | _ => exact True.intro
end

theorem links_exact {w : Nat} {gated : Bool} {start : Int} {s : State w} (run : Run gated start s) :
    run.Through LinksExact ∧ run.Every DropLeaves ∧ run.Through WokenAtMostOnce := by
  let inv (evs : List Event) (s : State w) := ∃ l, Sound s.queue s.delay l ∧ Numbered evs s ∧ Handed evs s
  have base : inv [] (initial w gated start) := ⟨[],initial_sound,initial_numbered,initial_handed⟩
  have preserved : ∀ {evs s e t}, inv evs s → Step gated s e t → inv (evs++[e]) t := by
    rintro evs s e t ⟨l,sound,numbered,handed⟩ taken
    obtain ⟨l',after,_⟩ := step_sound sound taken
    exact ⟨l',after,step_numbered sound numbered taken,step_handed sound handed taken⟩
  refine ⟨?_,?_,?_⟩
  · exact run.through_of inv base (fun all taken _ => preserved all taken)
      (fun ⟨l,sound,numbered,_⟩ => sound.linksExact numbered) run.every_true
  · exact run.every inv base preserved fun ⟨l,sound,_⟩ taken => drop_leaves sound taken
  · refine run.through_of inv base (fun all taken _ => preserved all taken) (fun ⟨l,_,numbered,handed⟩ n => ?_) run.every_true
    have woken := handed.woken n
    have once := numbered.once n
    exact ⟨by omega,handed.woke n⟩

end Rtic.Time.TimerQueue
