import Mathlib.Data.List.Nodup
import Rtic.Library.Buckets
import Rtic.Sync.Channel
namespace Rtic.Sync.Channel
open Function Buckets Transition Rtic.Common
variable {D T : Type}

-- The wait queue and the free queue change only through these two functions
-- when a slot or a link is passed on.
theorem popWaiter_cases {s t : State D T} {waiter : Option (Nat × Waker)} (popped : popWaiter s = some (waiter,t)) :
    (s.waitQueue = [] ∧ waiter = none ∧ t = s) ∨
    ∃ j rest link, s.waitQueue = j::rest ∧ (s.sender j).link = some link ∧ waiter = some (j,link.waker) ∧
      t = {s with waitQueue := rest,sender := update s.sender j {s.sender j with link := some link.popped}} := by
  unfold popWaiter at popped
  split at popped
  · rename_i empty
    cases popped
    exact Or.inl ⟨empty,rfl,rfl⟩
  · rename_i j rest queue
    obtain ⟨link,linked,same⟩ := Option.map_eq_some_iff.mp popped
    cases same
    exact Or.inr ⟨j,rest,link,queue,linked,rfl,rfl⟩

theorem popWaiter_some {s t : State D T} {j : Nat} {waker : Waker} (popped : popWaiter s = some (some (j,waker),t)) :
    ∃ rest link, s.waitQueue = j::rest ∧ (s.sender j).link = some link ∧ waker = link.waker ∧
      t = {s with waitQueue := rest,sender := update s.sender j {s.sender j with link := some link.popped}} := by
  rcases popWaiter_cases popped with ⟨_,absent,_⟩ | ⟨k,rest,link,queue,linked,same,after⟩
  · cases absent
  · cases same
    exact ⟨rest,link,queue,linked,rfl,after⟩

theorem returnFreeSlot_cases {api : Deque D} {s t : State D T} {slot : Nat} {handed : Option (Nat × Waker)}
    (returned : returnFreeSlot api s slot = some (handed,t)) :
    (s.waitQueue = [] ∧ handed = none ∧ t = {s with freeq := api.pushBackUnchecked s.freeq slot}) ∨
    ∃ j rest link, s.waitQueue = j::rest ∧ (s.sender j).link = some link ∧ handed = some (j,link.waker) ∧
      t = {s with
        waitQueue := rest
        sender := update s.sender j ⟨(s.sender j).point,some link.popped,some slot⟩} := by
  obtain ⟨⟨waiter,u⟩,popped,same⟩ := Option.map_eq_some_iff.mp returned
  rcases popWaiter_cases popped with ⟨empty,rfl,rfl⟩ | ⟨j,rest,link,queue,linked,rfl,rfl⟩
  · cases same
    exact Or.inl ⟨empty,rfl,rfl⟩
  · cases same
    exact Or.inr ⟨j,rest,link,queue,linked,rfl,by simp⟩

theorem popWaiter_points {s t : State D T} {waiter : Option (Nat × Waker)} (popped : popWaiter s = some (waiter,t))
    (i : Nat) : (t.sender i).point = (s.sender i).point := by
  rcases popWaiter_cases popped with ⟨_,_,rfl⟩ | ⟨j,rest,link,_,_,_,rfl⟩
  · rfl
  · by_cases same : i = j
    · subst same
      simp
    · simp [update_of_ne same]

theorem returnFreeSlot_points {api : Deque D} {s t : State D T} {slot : Nat} {handed : Option (Nat × Waker)}
    (returned : returnFreeSlot api s slot = some (handed,t)) (i : Nat) : (t.sender i).point = (s.sender i).point := by
  rcases returnFreeSlot_cases returned with ⟨_,_,rfl⟩ | ⟨j,rest,link,_,_,_,rfl⟩
  · rfl
  · by_cases same : i = j
    · subst same
      simp
    · simp [update_of_ne same]

theorem returnFreeSlot_rest {api : Deque D} {s t : State D T} {slot : Nat} {handed : Option (Nat × Waker)}
    (returned : returnFreeSlot api s slot = some (handed,t)) :
    ∃ freeq waitQueue sender, t = {s with freeq := freeq,waitQueue := waitQueue,sender := sender} := by
  rcases returnFreeSlot_cases returned with ⟨_,_,rfl⟩ | ⟨_,_,_,_,_,_,rfl⟩ <;> exact ⟨_,_,_,rfl⟩

theorem returnFreeSlot_at {api : Deque D} {s t : State D T} {slot : Nat} {handed : Option (Nat × Waker)} {i : Nat}
    {x : Sender T} (returned : returnFreeSlot api s slot = some (handed,t)) (here : s.sender i = x) :
    t.sender i = ⟨x.point,(t.sender i).link,(t.sender i).freeSlot⟩ := by
  rw [← here,← returnFreeSlot_points returned]

def Outcome.slots : Outcome → List Nat
  | .slot idx => [idx]
  | .noReceiver => []
  | .dropped => []

-- The slots that a Sender has claimed, by itself or through its SlotPtr, and not
-- yet pushed or given back.
def SenderPoint.slots : SenderPoint T → List Nat
  | .unlink _ outcome => outcome.slots
  | .takeSlot _ outcome => outcome.slots
  | .giveBack _ outcome slot => slot::outcome.slots
  | .leave _ outcome => outcome.slots
  | .write _ slot => [slot]
  | .publish _ slot => [slot]
  | _ => []

def ReceiverPoint.slots : ReceiverPoint T → List Nat
  | .read _ slot => [slot]
  | .giveBack _ slot _ => [slot]
  | _ => []

def Event.drainedSlot : Event T → Option Nat
  | .drained slot => some slot
  | _ => none

def drainedSlots (evs : List (Event T)) : List Nat := evs.filterMap Event.drainedSlot

-- Slots in the SlotPtr of a send future, and those that Senders have taken.
def handedSlots (s : State D T) : List Nat := gather s.handles fun i => (s.sender i).freeSlot.toList
def claimedSlots (s : State D T) : List Nat := gather s.handles fun i => (s.sender i).point.slots

def Sender.slots (x : Sender T) : List Nat := x.freeSlot.toList++x.point.slots
def slotsIn (places : SenderPoint T → List Nat) (s : State D T) : List Nat :=
  gather s.handles fun i => (s.sender i).freeSlot.toList++places (s.sender i).point
def heldSlots (s : State D T) : List Nat := slotsIn SenderPoint.slots s

def Sender.isQueued (x : Sender T) : Bool := x.link.any fun link => !link.isPopped

-- Which links and handed slots a Sender may have where it stands.
def Sender.Fits (x : Sender T) : Prop :=
  match x.point with
  | .waiting _ => x.link.isSome ∧ (x.isQueued = true → x.freeSlot = none)
  | .unlink _ outcome => (outcome.slots ≠ [] → x.link = none ∧ x.freeSlot = none) ∧
      (x.isQueued = true → x.freeSlot = none)
  | .takeSlot _ outcome => (outcome.slots ≠ [] → x.freeSlot = none) ∧ x.isQueued = false
  | .giveBack _ outcome _ => outcome.slots = [] ∧ x.isQueued = false ∧ x.freeSlot = none
  | .leave _ _ => x.isQueued = false ∧ x.freeSlot = none
  | _ => x.link = none ∧ x.freeSlot = none

structure QueueSound (s : State (List Nat) T) : Prop where
  fits : ∀ i, (s.sender i).Fits
  unused : ∀ i, s.handles ≤ i → s.sender i = gone
  nodup : s.waitQueue.Nodup
  linked : ∀ i, i ∈ s.waitQueue ↔ (s.sender i).isQueued = true
  starved : s.waitQueue ≠ [] → s.freeq = []

theorem future_cases {p : SenderPoint T} {val : T} (future : p.future = some val) :
    p = .fresh val ∨ p = .waiting val := by
  cases p <;> simp_all [SenderPoint.future]

theorem awaiting_cases {p : ReceiverPoint T} (future : p.awaiting = true) : p = .fresh ∨ ∃ waker, p = .pending waker := by
  cases p <;> simp_all [ReceiverPoint.awaiting]

@[simp] theorem isQueued_none (p : SenderPoint T) (f : Option Nat) :
    (⟨p,none,f⟩ : Sender T).isQueued = false := rfl
@[simp] theorem isQueued_some (p : SenderPoint T) (link : Link) (f : Option Nat) :
    (⟨p,some link,f⟩ : Sender T).isQueued = !link.isPopped := rfl
@[simp] theorem isPopped_popped (link : Link) : link.popped.isPopped = true := rfl

theorem isQueued_out {p : SenderPoint T} {c : Option Link} {f : Option Nat}
    (out : ∀ link, c = some link → link.isPopped = true) : (⟨p,c,f⟩ : Sender T).isQueued = false := by
  cases c with
  | none => rfl
  | some link => simp [out link rfl]

section
variable {api : Deque D} {s : State D T} {i : Nat} {x y : Sender T} {e : Event T}

theorem local_alive (moves : Local api s i x e y) : x ≠ gone := by
  cases moves with
  | pollClosed future => rcases future_cases future with rfl | rfl <;> simp [gone]
  | granted future => simp [gone]
  | denied future => simp [gone]
  | stillPending future => simp [gone]
  | _ => simp [gone]

-- What a Sender does alone neither enters nor leaves the wait queue.
theorem local_fits (moves : Local api s i x e y) (fits : x.Fits) :
    y.Fits ∧ y.isQueued = x.isQueued ∧ ∀ k, y.slots.count k = x.slots.count k := by
  cases moves with
  | pollClosed future closed =>
    rcases future_cases future with rfl | rfl
    · simp_all [Sender.Fits,Outcome.slots,Sender.slots,SenderPoint.slots]
    · simp_all [Sender.Fits,Outcome.slots,Sender.slots,SenderPoint.slots,Sender.isQueued]
  | granted future alive popped =>
    rcases future_cases future with rfl | rfl
    · simp_all [Sender.Fits]
    · simp_all [Sender.Fits,Outcome.slots,Sender.slots,SenderPoint.slots]
  | denied future alive popped =>
    rcases future_cases future with rfl | rfl
    · simp_all [Sender.Fits]
    · simp_all [Sender.Fits,Outcome.slots,Sender.slots,SenderPoint.slots]
  | stillPending future alive queued =>
    rcases future_cases future with rfl | rfl
    · simp_all [Sender.Fits]
    · simp_all [Sender.Fits,Sender.slots,SenderPoint.slots]
  | cancelled => simp_all [Sender.Fits,Outcome.slots,Sender.slots,SenderPoint.slots,Sender.isQueued]
  | nothingLinked out =>
    simp_all [Sender.Fits,Sender.slots,SenderPoint.slots,isQueued_out out]
  | reclaimed => 
    simp_all [Sender.Fits,Sender.slots,SenderPoint.slots,Sender.isQueued]
  | nothingLeft =>
    simp_all [Sender.Fits,Sender.slots,SenderPoint.slots,Sender.isQueued]
  | left =>
    rename_i val outcome c f
    obtain ⟨out,rfl⟩ := fits
    cases outcome <;> exact ⟨⟨rfl,rfl⟩,out.symm,fun _ => rfl⟩
  | _ => simp_all [Sender.Fits,Sender.slots,SenderPoint.slots]
end

section
variable {N : Nat} {s t : State (List Nat) T} {i : Nat} {x y : Sender T} {e : Event T}

theorem QueueSound.inside (sound : QueueSound s) (alive : s.sender i ≠ gone) : i < s.handles := by
  by_contra outside
  exact alive (sound.unused i (Nat.le_of_not_lt outside))

theorem Sender.eq_of_point {p : SenderPoint T} (point : x.point = p) : x = ⟨p,x.link,x.freeSlot⟩ := by
  subst point
  rfl

theorem QueueSound.at_ (sound : QueueSound s) (here : s.sender i = x) : x.Fits := here ▸ sound.fits i

-- What the Senders hold when one of them is replaced, whatever of it counts.
theorem held_change {n : Nat} {sender : Nat → Sender T} (holds : Sender T → List Nat) (here : sender i = x)
    (inside : i < n) (y : Sender T) (k : Nat) :
    (gather n fun j => holds (update sender i y j)).count k+(holds x).count k =
      (gather n fun j => holds (sender j)).count k+(holds y).count k := by
  subst here
  have moved := @gather_change Nat _ n (fun j => holds (sender j)) (fun j => holds (update sender i y j)) i inside
    (fun j other => by rw [update_of_ne other]) k
  rwa [update_self] at moved

theorem linked_alive {link : Link} (linked : x.link = some link) : x ≠ gone := by
  rintro rfl
  cases linked

-- What replacing one Sender leaves to show.
theorem QueueSound.fits_update (sound : QueueSound s) (fits : y.Fits) (j : Nat) : (update s.sender i y j).Fits := by
  by_cases same : j = i
  · subst same
    rwa [update_self]
  · rw [update_of_ne same]
    exact sound.fits j

theorem QueueSound.unused_update (sound : QueueSound s) {handles : Nat} (more : s.handles ≤ handles)
    (inside : i < handles) (j : Nat) (beyond : handles ≤ j) : update s.sender i y j = gone := by
  rw [update_of_ne (by omega)]
  exact sound.unused j (by omega)

-- Replacing one Sender by one that fits as well and is queued just as before.
theorem QueueSound.set (sound : QueueSound s) (here : s.sender i = x) (sender : t.sender = update s.sender i y)
    (handles : t.handles = s.handles) (queue : t.waitQueue = s.waitQueue) (alive : x ≠ gone) (fits : y.Fits)
    (queued : y.isQueued = x.isQueued) (starved : s.freeq = [] → t.freeq = []) : QueueSound t := by
  subst here
  have inside := sound.inside alive
  refine ⟨?_,?_,by rw [queue]; exact sound.nodup,?_,fun some_ => starved (sound.starved (by rwa [← queue]))⟩
  · rw [sender]
    exact sound.fits_update fits
  · rw [sender,handles]
    exact sound.unused_update (Nat.le_refl _) inside
  · intro j
    rw [queue,sound.linked,sender]
    by_cases same : j = i
    · subst same
      rw [update_self,queued]
    · rw [update_of_ne same]

theorem queued_noSlot (fits : x.Fits) (queued : x.isQueued = true) : x.freeSlot = none := by
  rcases x with ⟨p,c,f⟩
  cases p <;> simp_all [Sender.Fits]

theorem popped_fits {link : Link} (fits : x.Fits) (linked : x.link = some link) (queued : x.isQueued = true)
    (f : Option Nat) : (⟨x.point,some link.popped,f⟩ : Sender T).Fits := by
  rcases x with ⟨p,c,f'⟩
  cases p <;> simp_all [Sender.Fits]

-- Popping the first waiter, with or without a slot for it.
theorem QueueSound.popFirst {j : Nat} {rest : List Nat} {link : Link} (sound : QueueSound s)
    (queue : s.waitQueue = j::rest) (linked : (s.sender j).link = some link) (f : Option Nat) :
    QueueSound {s with
      waitQueue := rest
      sender := update s.sender j ⟨(s.sender j).point,some link.popped,f⟩} := by
  have queued : (s.sender j).isQueued = true := (sound.linked j).mp (by rw [queue]; exact List.mem_cons_self)
  have nodup := sound.nodup
  rw [queue,List.nodup_cons] at nodup
  have inside : j < s.handles := by
    by_contra outside
    rw [sound.unused j (Nat.le_of_not_lt outside)] at queued
    cases queued
  refine ⟨?_,?_,nodup.2,?_,fun _ => sound.starved (by rw [queue]; exact List.cons_ne_nil _ _)⟩
  · exact sound.fits_update (popped_fits (sound.fits j) linked queued f)
  · exact sound.unused_update (Nat.le_refl _) inside
  · intro i
    by_cases same : i = j
    · subst same
      simp [nodup.1]
    · have before := sound.linked i
      rw [queue,List.mem_cons] at before
      simp only [update_of_ne same]
      rw [← before]
      simp [same]

-- A slot that is given back goes to freeq or to a Sender.
theorem returnFreeSlot_sound {slot : Nat} {handed : Option (Nat × Waker)} (sound : QueueSound s)
    (returned : returnFreeSlot (BoundedDeque.listApi N) s slot = some (handed,t)) :
    QueueSound t ∧ ∀ (places : SenderPoint T → List Nat) k, t.freeq.count k+(slotsIn places t).count k =
      s.freeq.count k+(slotsIn places s).count k+[slot].count k := by
  rcases returnFreeSlot_cases returned with ⟨empty,_,rfl⟩ | ⟨j,rest,link,queue,linked,_,rfl⟩
  · refine ⟨⟨sound.fits,sound.unused,sound.nodup,sound.linked,fun some_ => absurd empty some_⟩,fun places k => ?_⟩
    have added : (s.freeq++[slot]).count k = s.freeq.count k+[slot].count k := List.count_append
    simp only [BoundedDeque.listApi,slotsIn]
    omega
  · have queued : (s.sender j).isQueued = true := (sound.linked j).mp (by rw [queue]; exact List.mem_cons_self)
    have none_ := queued_noSlot (sound.fits j) queued
    refine ⟨sound.popFirst queue linked (some slot),fun places k => ?_⟩
    have moved := held_change (fun x : Sender T => x.freeSlot.toList++places x.point)
      (Eq.refl (s.sender j)) (sound.inside (linked_alive linked)) ⟨(s.sender j).point,some link.popped,some slot⟩ k
    simp only [none_,Option.toList_none,Option.toList_some,List.nil_append,List.count_append] at moved
    simp only [slotsIn]
    omega

theorem popFront_list {l q : List Nat} {k : Nat} (got : (BoundedDeque.listApi N).popFront l = (some k,q)) :
    l = k::q := (BoundedDeque.listApi_documented N).popFront_some got
theorem popFront_nil {l q : List Nat} (got : (BoundedDeque.listApi N).popFront l = (none,q)) :
    l = [] ∧ q = [] := (BoundedDeque.listApi_documented N).popFront_none got
theorem popBack_list {l q : List Nat} {k : Nat} (got : (BoundedDeque.listApi N).popBack l = (some k,q)) :
    l = q++[k] := (BoundedDeque.listApi_documented N).popBack_some got
theorem popBack_nil {l q : List Nat} (got : (BoundedDeque.listApi N).popBack l = (none,q)) :
    l = [] ∧ q = [] := (BoundedDeque.listApi_documented N).popBack_none got
theorem popBackUnchecked_list {l : List Nat} (some_ : (BoundedDeque.listApi N).isEmpty l = false) :
    l = ((BoundedDeque.listApi N).popBackUnchecked l).2++[((BoundedDeque.listApi N).popBackUnchecked l).1] := by
  rcases List.eq_nil_or_concat l with rfl | ⟨rest,k,rfl⟩
  · cases some_
  · simp [BoundedDeque.listApi]

theorem step_queue (sound : QueueSound s) (taken : Step (BoundedDeque.listApi N) s e t) : QueueSound t := by
  cases taken with
  | sends i here moves =>
    have fits := sound.at_ here
    obtain ⟨fits,queued,_⟩ := local_fits moves fits
    exact sound.set here rfl rfl rfl (local_alive moves) fits queued id
  | receives here moves => exact ⟨sound.fits,sound.unused,sound.nodup,sound.linked,sound.starved⟩
  | tryClaimed here got =>
    have fits := sound.at_ here
    refine sound.set here rfl rfl rfl (by simp [gone]) (by simpa [Sender.Fits] using fits) rfl ?_
    intro none_
    rw [none_] at got
    cases got
  | tryFull here got =>
    have fits := sound.at_ here
    exact sound.set here rfl rfl rfl (by simp [gone]) (by simpa [Sender.Fits] using fits) rfl
      fun _ => (popFront_nil got).2
  | claimed here future alive first some_ =>
    have fits := sound.at_ here
    rcases future_cases future with rfl | rfl
    · refine sound.set here rfl rfl rfl (by simp [gone]) ?_ rfl ?_
      · simp_all [Sender.Fits]
      · intro none_
        rw [none_] at some_
        cases some_
    · simp [Sender.Fits] at fits
  | queued here future alive full =>
    rename_i val i waker f p
    have fits := sound.at_ here
    have inside := sound.inside (i:=i) (by rw [here]; rcases future_cases future with rfl | rfl <;> simp [gone])
    have outside : i ∉ s.waitQueue := by
      rw [sound.linked,here]
      simp
    refine ⟨sound.fits_update ?_,sound.unused_update (Nat.le_refl _) inside,?_,?_,?_⟩
    · rcases future_cases future with rfl | rfl <;> simp_all [Sender.Fits]
    · simpa using List.Nodup.concat outside sound.nodup
    · intro j
      by_cases same : j = i
      · subst same
        simp
      · simp [sound.linked,same]
    · intro _
      rcases full with busy | none_
      · exact sound.starved busy
      · exact List.isEmpty_iff.mp none_
  | unlinked here queued =>
    rename_i i outcome val link f
    have fits := sound.at_ here
    have inside := sound.inside (i:=i) (by rw [here]; simp [gone])
    refine ⟨sound.fits_update ?_,sound.unused_update (Nat.le_refl _) inside,sound.nodup.erase i,?_,?_⟩
    · simp_all [Sender.Fits]
    · intro j
      rw [sound.nodup.mem_erase_iff]
      by_cases same : j = i
      · subst same
        simp
      · simp [sound.linked,same]
    · intro some_
      exact sound.starved fun none_ => some_ (by simp [none_])
  | gaveBack here returned =>
    rename_i slot handed u i val outcome c f
    have after := (returnFreeSlot_sound sound returned).1
    have fits := after.fits i
    have shape := returnFreeSlot_at returned here
    rw [shape] at fits
    refine after.set shape rfl rfl rfl (by simp [gone]) ?_ rfl id
    exact ⟨fits.2.1,fits.2.2⟩
  | wrote here =>
    have fits := sound.at_ here
    exact sound.set here rfl rfl rfl (by simp [gone]) (by simpa [Sender.Fits] using fits) rfl id
  | pushed here =>
    have fits := sound.at_ here
    exact sound.set here rfl rfl rfl (by simp [gone]) (by simpa [Sender.Fits] using fits) rfl id
  | sent here =>
    have fits := sound.at_ here
    exact sound.set here rfl rfl rfl (by simp [gone]) (by simpa [Sender.Fits] using fits) rfl id
  | cloned here =>
    refine ⟨sound.fits_update ?_,sound.unused_update (Nat.le_succ _) (Nat.lt_succ_self _),sound.nodup,?_,sound.starved⟩
    · simp [Sender.Fits,idle]
    · intro j
      by_cases same : j = s.handles
      · subst same
        simp [sound.linked,sound.unused s.handles (Nat.le_refl _),idle,gone]
      · simp [update_of_ne same,sound.linked]
  | senderDropped here =>
    have fits := sound.at_ here
    refine sound.set here rfl rfl rfl (by simp [gone]) ?_ rfl id
    split <;> simpa [Sender.Fits] using fits
  | lastWoke here =>
    have fits := sound.at_ here
    exact sound.set here rfl rfl rfl (by simp [gone]) (by simpa [Sender.Fits] using fits) rfl id
  | received here returned =>
    obtain ⟨after,_⟩ := returnFreeSlot_sound sound returned
    exact ⟨after.fits,after.unused,after.nodup,after.linked,after.starved⟩
  | unqueued here got =>
    obtain ⟨rest,link,queue,linked,rfl,rfl⟩ := popWaiter_some got
    rename_i j
    have after := sound.popFirst queue linked (s.sender j).freeSlot
    exact ⟨after.fits,after.unused,after.nodup,after.linked,after.starved⟩
  | _ => exact ⟨sound.fits,sound.unused,sound.nodup,sound.linked,sound.starved⟩

-- How often a slot number occurs among all places that a slot can be in.
def occurrences (evs : List (Event T)) (s : State (List Nat) T) (k : Nat) : Nat :=
  s.freeq.count k+s.readyq.count k+(heldSlots s).count k+s.receiver.slots.count k+(drainedSlots evs).count k

theorem receiver_local_slots {api : Deque D} {u : State D T} {p q : ReceiverPoint T}
    (moves : ReceiverLocal api u p e q) (k : Nat) :
    q.slots.count k = p.slots.count k ∧ e.drainedSlot = none := by
  cases moves with
  | polled future => rcases awaiting_cases future with rfl | ⟨waker,rfl⟩ <;> exact ⟨rfl,rfl⟩
  | recvDropped future => rcases awaiting_cases future with rfl | ⟨waker,rfl⟩ <;> exact ⟨rfl,rfl⟩
  | empty alive =>
    rename_i origin
    cases origin <;> exact ⟨rfl,rfl⟩
  | _ => exact ⟨rfl,rfl⟩

theorem local_drains_nothing {api : Deque D} {u : State D T} (moves : Local api u i x e y) : e.drainedSlot = none := by
  cases moves <;> rfl

theorem drainedSlots_snoc (evs : List (Event T)) (e : Event T) :
    drainedSlots (evs++[e]) = drainedSlots evs++e.drainedSlot.toList := by
  unfold drainedSlots
  rw [List.filterMap_append,List.filterMap_cons]
  cases e.drainedSlot <;> rfl

theorem held_idle (holds : Sender T → List Nat) (nothing : holds idle = []) (sender : Nat → Sender T) (n : Nat) :
    (gather (n+1) fun i => holds (update sender n idle i)) = gather n fun i => holds (sender i) := by
  have older : (gather n fun i => holds (update sender n idle i)) = gather n fun i => holds (sender i) :=
    gather_congr fun i small => by rw [update_of_ne (Nat.ne_of_lt small)]
  rw [gather_succ,older,update_self,nothing,List.append_nil]

-- A step that replaces one Sender conserves slots if that Sender, the queues
-- and the Receiver together do.
theorem occurrences_set (sound : QueueSound s) (here : s.sender i = x) (sender : t.sender = update s.sender i y)
    (handles : t.handles = s.handles) (alive : x ≠ gone) {evs : List (Event T)} {k : Nat}
    (moved : t.freeq.count k+t.readyq.count k+y.slots.count k+t.receiver.slots.count k+
        e.drainedSlot.toList.count k =
      s.freeq.count k+s.readyq.count k+x.slots.count k+s.receiver.slots.count k) :
    occurrences (evs++[e]) t k = occurrences evs s k := by
  have held := held_change Sender.slots here (sound.inside (by rwa [here])) y k
  unfold Sender.slots at held moved
  unfold occurrences heldSlots slotsIn
  rw [drainedSlots_snoc,List.count_append,sender,handles]
  omega

theorem occurrences_same (held : heldSlots t = heldSlots s) {evs : List (Event T)} {k : Nat}
    (moved : t.freeq.count k+t.readyq.count k+t.receiver.slots.count k+e.drainedSlot.toList.count k =
      s.freeq.count k+s.readyq.count k+s.receiver.slots.count k) :
    occurrences (evs++[e]) t k = occurrences evs s k := by
  unfold occurrences
  rw [drainedSlots_snoc,List.count_append,held]
  omega

-- No step loses a slot or makes one.
theorem step_occurrences (sound : QueueSound s) (taken : Step (BoundedDeque.listApi N) s e t)
    (evs : List (Event T)) (k : Nat) : occurrences (evs++[e]) t k = occurrences evs s k := by
  cases taken with
  | sends i here moves =>
    have fits := (local_fits moves (sound.at_ here)).2.2 k
    refine occurrences_set sound here (by rfl) (by rfl) (local_alive moves) ?_
    simp only [local_drains_nothing moves,fits,Option.toList_none,List.count_nil,Nat.add_zero]
  | receives here moves =>
    obtain ⟨same,quiet⟩ := receiver_local_slots moves k
    refine occurrences_same (by rfl) ?_
    simp only [quiet,here,same,Option.toList_none,List.count_nil,Nat.add_zero]
  | tryClaimed here got =>
    refine occurrences_set sound here (by rfl) (by rfl) (by simp [gone]) ?_
    rw [popFront_list got]
    simp [Sender.slots,SenderPoint.slots,Event.drainedSlot,List.count_cons]
    omega
  | tryFull here got =>
    refine occurrences_set sound here (by rfl) (by rfl) (by simp [gone]) ?_
    obtain ⟨before,after⟩ := popFront_nil got
    simp [Sender.slots,SenderPoint.slots,Event.drainedSlot,before,after]
  | claimed here future alive first some_ =>
    refine occurrences_set sound here (by rfl) (by rfl) (by rcases future_cases future with rfl | rfl <;> simp [gone]) ?_
    have split := congrArg (List.count k) (popBackUnchecked_list some_)
    rw [List.count_append] at split
    rcases future_cases future with rfl | rfl <;>
      simp [Sender.slots,SenderPoint.slots,Outcome.slots,Event.drainedSlot] <;> omega
  | queued here future alive full =>
    refine occurrences_set sound here (by rfl) (by rfl) (by rcases future_cases future with rfl | rfl <;> simp [gone]) ?_
    rcases future_cases future with rfl | rfl <;> simp [Sender.slots,SenderPoint.slots,Event.drainedSlot]
  | unlinked here queued =>
    refine occurrences_set sound here (by rfl) (by rfl) (by simp [gone]) ?_
    simp [Sender.slots,SenderPoint.slots,Event.drainedSlot]
  | gaveBack here returned =>
    rename_i slot handed u i val outcome c f
    obtain ⟨after,moved⟩ := returnFreeSlot_sound sound returned
    obtain ⟨_,_,_,rest⟩ := returnFreeSlot_rest returned
    have shape := returnFreeSlot_at returned here
    have held := held_change Sender.slots shape (after.inside (by rw [shape]; simp [gone]))
      {u.sender i with point := .leave val outcome} k
    have moved := moved SenderPoint.slots k
    have readyq : u.readyq = s.readyq := by rw [rest]
    have receiver : u.receiver = s.receiver := by rw [rest]
    unfold occurrences
    simp only [drainedSlots_snoc,Event.drainedSlot,readyq,receiver,heldSlots,slotsIn,Sender.slots,SenderPoint.slots,
      List.count_append,List.count_cons,Option.toList_none,List.count_nil] at *
    omega
  | wrote here =>
    refine occurrences_set sound here (by rfl) (by rfl) (by simp [gone]) ?_
    simp [Sender.slots,SenderPoint.slots,Event.drainedSlot]
  | pushed here =>
    refine occurrences_set sound here (by rfl) (by rfl) (by simp [gone]) ?_
    simp [Sender.slots,SenderPoint.slots,Event.drainedSlot,BoundedDeque.listApi]
    omega
  | sent here =>
    refine occurrences_set sound here (by rfl) (by rfl) (by simp [gone]) ?_
    simp [Sender.slots,SenderPoint.slots,Event.drainedSlot]
  | cloned here =>
    exact occurrences_same (by exact held_idle Sender.slots rfl s.sender s.handles) rfl
  | senderDropped here =>
    refine occurrences_set sound here (by rfl) (by rfl) (by simp [gone]) ?_
    split <;> simp [Sender.slots,SenderPoint.slots,Event.drainedSlot]
  | lastWoke here =>
    refine occurrences_set sound here (by rfl) (by rfl) (by simp [gone]) ?_
    simp [Sender.slots,SenderPoint.slots,Event.drainedSlot]
  | received here returned =>
    rename_i slot handed u origin val
    obtain ⟨_,moved⟩ := returnFreeSlot_sound sound returned
    obtain ⟨_,_,_,rest⟩ := returnFreeSlot_rest returned
    have moved := moved SenderPoint.slots k
    have readyq : u.readyq = s.readyq := by rw [rest]
    unfold occurrences
    simp only [drainedSlots_snoc,Event.drainedSlot,here,readyq,heldSlots,slotsIn,ReceiverPoint.slots,
      List.count_append,Option.toList_none,List.count_nil] at *
    omega
  | unqueued here got =>
    obtain ⟨rest,link,queue,linked,rfl,rfl⟩ := popWaiter_some got
    refine occurrences_set sound rfl (by rfl) (by rfl) (linked_alive linked) ?_
    simp [here,Sender.slots,ReceiverPoint.slots,Event.drainedSlot]
  | registered here => exact occurrences_same (by rfl) (by simp [here,ReceiverPoint.slots,Event.drainedSlot])
  | popped here got =>
    refine occurrences_same (by rfl) ?_
    rw [popFront_list got,here]
    simp [ReceiverPoint.slots,Event.drainedSlot,List.count_cons]
    omega
  | foundEmpty here got =>
    refine occurrences_same (by rfl) ?_
    obtain ⟨before,after⟩ := popFront_nil got
    simp [here,ReceiverPoint.slots,Event.drainedSlot,before,after]
  | closing here => exact occurrences_same (by rfl) (by simp [here,ReceiverPoint.slots,Event.drainedSlot])
  | drained here got =>
    refine occurrences_same (by rfl) ?_
    rw [popBack_list got,here]
    simp [ReceiverPoint.slots,Event.drainedSlot]
    omega
  | drainEnded here got =>
    refine occurrences_same (by rfl) ?_
    obtain ⟨before,after⟩ := popBack_nil got
    simp [here,ReceiverPoint.slots,Event.drainedSlot,before,after]

-- Every slot is in exactly one place, and the wait queue is what the links say.
structure Sound (N : Nat) (evs : List (Event T)) (s : State (List Nat) T) : Prop where
  queue : QueueSound s
  slots : ∀ k, occurrences evs s k = if k < N%256 then 1 else 0

theorem listApi_fill (l : List Nat) (q : List Nat) :
    l.foldl (BoundedDeque.listApi N).pushBackUnchecked q = q++l := by
  induction l generalizing q with
  | nil => simp
  | cons k l ih =>
    rw [List.foldl_cons,ih]
    simp [BoundedDeque.listApi]

theorem initial_sound : Sound N [] (initial (BoundedDeque.listApi N) N : State (List Nat) T) := by
  have points : ∀ i, (if i = 0 then idle else gone : Sender T).Fits ∧
      (if i = 0 then idle else gone : Sender T).isQueued = false ∧
      (if i = 0 then idle else gone : Sender T).slots = [] := by
    intro i
    split <;> exact ⟨⟨rfl,rfl⟩,rfl,rfl⟩
  constructor
  · refine ⟨fun i => (points i).1,?_,List.nodup_nil,?_,fun some_ => absurd rfl some_⟩
    · intro i outside
      have outside : 1 ≤ i := outside
      exact if_neg (by omega)
    · intro i
      simp [opened,Channel.split,Channel.new,(points i).2.1]
  · intro k
    have none_ : heldSlots (initial (BoundedDeque.listApi N) N : State (List Nat) T) = [] := gather_eq_nil fun i _ => (points i).2.2
    unfold occurrences
    rw [none_]
    simp only [opened,Channel.split,Channel.new,listApi_fill,indices,ReceiverPoint.slots,drainedSlots]
    exact count_of_perm_range (by simp [BoundedDeque.listApi]) k

theorem step_sound {evs : List (Event T)} (sound : Sound N evs s) (taken : Step (BoundedDeque.listApi N) s e t) :
    Sound N (evs++[e]) t :=
  ⟨step_queue sound.queue taken,fun k => by rw [step_occurrences sound.queue taken,sound.slots k]⟩

end

end Rtic.Sync.Channel
