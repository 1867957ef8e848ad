import Rtic.Sync.ChannelClosing
namespace Rtic.Sync.Channel
open Function Buckets Transition Rtic.Common
open BoundedDeque (Documented listApi listApi_documented)
variable {D T : Type} {N : Nat}

-- A Sender whose send future enters the wait queue, or is handed a slot, with the
-- waker in its link.
def Event.enters : Event T → Option (Nat × Waker)
  | .queued i waker => some (i,waker)
  | _ => none

def Event.handed : Event T → Option (Nat × Waker)
  | .gaveBack _ _ handed => handed
  | .received _ _ handed => handed
  | _ => none

-- A send future leaves the wait queue when it is handed a slot, when its dropper
-- unlinks it, and when Receiver::drop pops it.
def Event.leaves : Event T → Option Nat
  | .unlinked i _ => some i
  | .unqueued j _ => some j
  | e => e.handed.map Prod.fst

-- As if only a future that is dropped could leave without a slot.
def Event.grantedOrDropped : Event T → Option Nat
  | .unlinked i .dropped => some i
  | e => e.handed.map Prod.fst

def requeue (leaves : Event T → Option Nat) (queue : List (Nat × Waker)) (e : Event T) : List (Nat × Waker) :=
  (queue.filter fun p => leaves e != some p.1)++e.enters.toList

-- Those that entered the wait queue and have not left, in the order in which they entered.
def waiting (leaves : Event T → Option Nat) (evs : List (Event T)) : List (Nat × Waker) :=
  evs.foldl (requeue leaves) []

theorem waiting_snoc (leaves : Event T → Option Nat) (evs : List (Event T)) (e : Event T) :
    waiting leaves (evs++[e]) = requeue leaves (waiting leaves evs) e := by
  unfold waiting
  rw [List.foldl_append]
  rfl

-- The wait queue holds them, and their links their wakers.
structure Queued (evs : List (Event T)) (s : State (List Nat) T) : Prop where
  order : (waiting Event.leaves evs).map Prod.fst = s.waitQueue
  links : ∀ p ∈ waiting Event.leaves evs, (s.sender p.1).link = some ⟨p.2,false⟩

section
variable {evs : List (Event T)} {s t : State (List Nat) T} {e : Event T} {i : Nat} {x y : Sender T}

theorem Queued.keep (queued : Queued evs s) (enters : e.enters = none)
    (stays : ∀ i ∈ s.waitQueue, e.leaves ≠ some i) : waiting Event.leaves (evs++[e]) = waiting Event.leaves evs := by
  rw [waiting_snoc]
  unfold requeue
  rw [enters,Option.toList_none,List.append_nil,List.filter_eq_self]
  intro p member
  have inside : p.1 ∈ s.waitQueue := by
    rw [← queued.order]
    exact List.mem_map_of_mem member
  simpa using stays p.1 inside

theorem Queued.frame (queued : Queued evs s) (enters : e.enters = none)
    (stays : ∀ i ∈ s.waitQueue, e.leaves ≠ some i) (queue : t.waitQueue = s.waitQueue)
    (links : ∀ i ∈ s.waitQueue, (t.sender i).link = (s.sender i).link) : Queued (evs++[e]) t := by
  have same := queued.keep enters stays
  refine ⟨by rw [same,queue,queued.order],fun p member => ?_⟩
  rw [same] at member
  rw [links p.1 (by rw [← queued.order]; exact List.mem_map_of_mem member)]
  exact queued.links p member

theorem Queued.head {j : Nat} {rest : List Nat} {link : Link} (queued : Queued evs s) (queue : s.waitQueue = j::rest)
    (linked : (s.sender j).link = some link) :
    ∃ tail, waiting Event.leaves evs = (j,link.waker)::tail ∧ tail.map Prod.fst = rest := by
  have order := queued.order
  rw [queue] at order
  obtain ⟨⟨first,waker⟩,tail,all,same,later⟩ := List.map_eq_cons_iff.mp order
  change first = j at same
  subst first
  have mine := queued.links (j,waker) (by rw [all]; exact List.mem_cons_self)
  obtain rfl := Option.some.inj (linked.symm.trans mine)
  exact ⟨tail,all,later⟩

-- The first of them leaves.
theorem Queued.pop {j : Nat} {rest : List Nat} {link : Link} (queued : Queued evs s) (sound : QueueSound s)
    (queue : s.waitQueue = j::rest) (linked : (s.sender j).link = some link) (leaves : e.leaves = some j)
    (enters : e.enters = none) (after : t.waitQueue = rest)
    (others : ∀ i, i ≠ j → (t.sender i).link = (s.sender i).link) : Queued (evs++[e]) t := by
  obtain ⟨tail,all,later⟩ := queued.head queue linked
  have nodup := sound.nodup
  rw [queue,List.nodup_cons] at nodup
  have apart : ∀ p ∈ tail, p.1 ≠ j := by
    rintro p member rfl
    exact nodup.1 (by rw [← later]; exact List.mem_map_of_mem member)
  have remaining : waiting Event.leaves (evs++[e]) = tail := by
    rw [waiting_snoc,all]
    unfold requeue
    rw [leaves,enters,Option.toList_none,List.append_nil,List.filter_cons_of_neg (by simp),List.filter_eq_self]
    intro p member
    simpa using (apart p member).symm
  refine ⟨by rw [remaining,after,later],fun p member => ?_⟩
  rw [remaining] at member
  rw [others p.1 (apart p member)]
  exact queued.links p (by rw [all]; exact List.mem_cons_of_mem _ member)

theorem local_link {api : Deque D} {u : State D T} (moves : Local api u i x e y) (fits : x.Fits)
    (waits : x.isQueued = true) : y.link = x.link := by
  cases moves with
  | granted future alive popped => simp [popped] at waits
  | denied future alive popped => simp [popped] at waits
  | left => simp [fits.1] at waits
  | _ => rfl

theorem local_leaves {api : Deque D} {u : State D T} (moves : Local api u i x e y) :
    e.enters = none ∧ ∀ k, e.leaves = some k → k = i ∧ x.isQueued = false := by
  cases moves with
  | nothingLinked out => exact ⟨rfl,fun k leaves => ⟨(Option.some.inj leaves).symm,isQueued_out out⟩⟩
  | _ => exact ⟨rfl,nofun⟩

theorem receiver_local_leaves {api : Deque D} {u : State D T} {p q : ReceiverPoint T} (moves : ReceiverLocal api u p e q) :
    e.enters = none ∧ e.leaves = none := by
  cases moves <;> exact ⟨rfl,rfl⟩

-- A step that replaces one Sender without touching the wait queue.
theorem Queued.set (queued : Queued evs s) (sound : QueueSound s) (enters : e.enters = none) (here : s.sender i = x)
    (sender : t.sender = update s.sender i y) (queue : t.waitQueue = s.waitQueue)
    (leaves : ∀ k, e.leaves = some k → k = i ∧ x.isQueued = false) (link : x.isQueued = true → y.link = x.link) :
    Queued (evs++[e]) t := by
  subst here
  refine queued.frame enters (fun k inside gone_ => ?_) queue fun k inside => ?_
  · obtain ⟨rfl,out⟩ := leaves k gone_
    rw [(sound.linked k).mp inside] at out
    cases out
  · rw [sender]
    by_cases same : k = i
    · subst same
      rw [update_self]
      exact link ((sound.linked k).mp inside)
    · rw [update_of_ne same]

theorem step_queued (sound : QueueSound s) (queued : Queued evs s) (taken : Step (listApi N) s e t) :
    Queued (evs++[e]) t := by
  cases taken with
  | sends i here moves =>
    obtain ⟨enters,leaves⟩ := local_leaves moves
    exact queued.set sound enters here rfl rfl leaves (local_link moves (sound.at_ here))
  | receives here moves =>
    obtain ⟨enters,leaves⟩ := receiver_local_leaves moves
    exact queued.frame enters (fun _ _ gone_ => by rw [leaves] at gone_; cases gone_) rfl fun _ _ => rfl
  | tryClaimed here got => exact queued.set sound rfl here rfl rfl nofun fun _ => rfl
  | tryFull here got => exact queued.set sound rfl here rfl rfl nofun fun _ => rfl
  | claimed here future alive first some_ => exact queued.set sound rfl here rfl rfl nofun nofun
  | queued here future alive full =>
    rename_i val i waker f p
    have outside : i ∉ s.waitQueue := by
      rw [sound.linked,here]
      simp
    have all : waiting Event.leaves (evs++[.queued i waker]) = waiting Event.leaves evs++[(i,waker)] := by
      rw [waiting_snoc]
      simp [requeue,Event.leaves,Event.handed,Event.enters]
    refine ⟨by rw [all,List.map_append,queued.order]; rfl,fun p member => ?_⟩
    rw [all] at member
    rcases List.mem_append.mp member with before | last
    · have other : p.1 ≠ i := by
        rintro rfl
        exact outside (by rw [← queued.order]; exact List.mem_map_of_mem before)
      simp only [update_of_ne other]
      exact queued.links p before
    · cases List.mem_singleton.mp last
      simp
  | unlinked here popped =>
    rename_i i outcome val link f
    have all : waiting Event.leaves (evs++[.unlinked i outcome]) =
        (waiting Event.leaves evs).filter fun p => p.1 != i := by
      rw [waiting_snoc]
      simp [requeue,Event.leaves,Event.enters,bne,BEq.comm]
    refine ⟨?_,fun p member => ?_⟩
    · rw [all,sound.nodup.erase_eq_filter,← queued.order,List.filter_map]
      rfl
    · rw [all] at member
      obtain ⟨before,other⟩ := List.mem_filter.mp member
      have other : p.1 ≠ i := by simpa using other
      simp only [update_of_ne other]
      exact queued.links p before
  | gaveBack here returned =>
    rename_i slot handed u i val outcome c f
    have waits : (s.sender i).isQueued = false := by
      have fits := sound.at_ here
      rw [here]
      exact fits.2.1
    rcases returnFreeSlot_cases returned with ⟨empty,rfl,rfl⟩ | ⟨j,rest,link,queue,linked,rfl,rfl⟩
    · exact queued.set sound rfl here (y:={s.sender i with point := .leave val outcome}) rfl rfl nofun
        fun _ => by rw [here]
    · have apart : i ≠ j := by
        rintro rfl
        have inside := (sound.linked i).mp (by rw [queue]; exact List.mem_cons_self)
        rw [waits] at inside
        cases inside
      refine queued.pop sound queue linked rfl rfl rfl fun k other => ?_
      by_cases same : k = i
      · subst same
        simp [update_of_ne apart]
      · simp [update_of_ne same,update_of_ne other]
  | wrote here => exact queued.set sound rfl here rfl rfl nofun fun _ => rfl
  | pushed here => exact queued.set sound rfl here rfl rfl nofun fun _ => rfl
  | sent here => exact queued.set sound rfl here rfl rfl nofun fun _ => rfl
  | cloned here =>
    refine queued.frame rfl (fun _ _ => nofun) rfl fun k inside => ?_
    have old : k ≠ s.handles := by
      rintro rfl
      have waits := (sound.linked s.handles).mp inside
      rw [sound.unused _ (Nat.le_refl _)] at waits
      cases waits
    simp [update_of_ne old]
  | senderDropped here => exact queued.set sound rfl here rfl rfl nofun fun _ => rfl
  | lastWoke here => exact queued.set sound rfl here rfl rfl nofun fun _ => rfl
  | received here returned =>
    rcases returnFreeSlot_cases returned with ⟨empty,rfl,rfl⟩ | ⟨j,rest,link,queue,linked,rfl,rfl⟩
    · exact queued.frame rfl (fun _ _ => nofun) rfl fun _ _ => rfl
    · exact queued.pop sound queue linked rfl rfl rfl fun k other => by simp [update_of_ne other]
  | unqueued here got =>
    obtain ⟨rest,link,queue,linked,rfl,rfl⟩ := popWaiter_some got
    exact queued.pop sound queue linked rfl rfl rfl fun k other => by simp [update_of_ne other]
  | _ => exact queued.frame rfl (fun _ _ => nofun) rfl fun _ _ => rfl
end

-- Slots are handed to the waiting send futures in the order in which these entered.
def HandedInOrder (leaves : Event T → Option Nat) (evs : List (Event T)) (_ : State D T) (e : Event T)
    (_ : State D T) : Prop :=
  ∀ p, e.handed = some p → (waiting leaves evs).head? = some p

-- Nobody claims a slot past them.
def ClaimsUncontended (_ : List (Event T)) (s : State D T) (e : Event T) (_ : State D T) : Prop :=
  match e with
  | .claimed _ _ => s.waitQueue = []
  | _ => True

def Passes (items : D → List Nat) (s : State D T) (slot : Nat) (t : State D T) : Option (Nat × Waker) → Prop
  | some (j,_) => s.waitQueue.head? = some j ∧ (t.sender j).freeSlot = some slot
  | none => s.waitQueue = [] ∧ items t.freeq = items s.freeq++[slot]

def given (i slot : Nat) (handed : Option (Nat × Waker)) : Option Nat :=
  handed.bind fun p => if p.1 = i then some slot else none

def Event.givenTo (i : Nat) : Event T → Option Nat
  | .gaveBack _ slot handed => given i slot handed
  | .received slot _ handed => given i slot handed
  | _ => none

def Event.gaveBackBy (i : Nat) : Event T → Option Nat
  | .gaveBack j slot _ => if j = i then some slot else none
  | _ => none

def givenTo (i : Nat) (evs : List (Event T)) : List Nat := evs.filterMap (Event.givenTo i)
def gaveBackBy (i : Nat) (evs : List (Event T)) : List Nat := evs.filterMap (Event.gaveBackBy i)

-- A slot given back goes to the first that waits, else to freeq; a send future
-- that was dropped has given back each slot that it was handed.
def PassedOn (items : D → List Nat) (evs : List (Event T)) (s : State D T) (e : Event T) (t : State D T) : Prop :=
  match e with
  | .gaveBack _ slot handed => Passes items s slot t handed
  | .received slot _ handed => Passes items s slot t handed
  | .left i _ .dropped => gaveBackBy i (thisCall i evs) = givenTo i (thisCall i evs)
  | _ => True

section
variable {evs : List (Event T)} {s t : State (List Nat) T} {e : Event T} {i slot : Nat} {x y : Sender T}
  {handed : Option (Nat × Waker)}

theorem Queued.first (queued : Queued evs s) (returned : returnFreeSlot (listApi N) s slot = some (handed,t))
    {p : Nat × Waker} (some_ : handed = some p) : (waiting Event.leaves evs).head? = some p := by
  rcases returnFreeSlot_cases returned with ⟨empty,rfl,rfl⟩ | ⟨j,rest,link,queue,linked,rfl,rfl⟩
  · cases some_
  · cases some_
    obtain ⟨tail,all,_⟩ := queued.head queue linked
    rw [all]
    rfl

theorem Queued.handedInOrder (queued : Queued evs s) (taken : Step (listApi N) s e t) :
    HandedInOrder Event.leaves evs s e t := by
  intro p handed
  cases taken with
  | sends i here moves => cases moves <;> cases handed
  | receives here moves => cases moves <;> cases handed
  | gaveBack here returned => exact queued.first returned handed
  | received here returned => exact queued.first returned handed
  | _ => cases handed

theorem claims_uncontended (sound : QueueSound s) (taken : Step (listApi N) s e t) : ClaimsUncontended evs s e t := by
  cases taken with
  | sends i here moves => cases moves <;> exact True.intro
  | receives here moves => cases moves <;> exact True.intro
  | tryClaimed here got =>
    by_contra busy
    have none_ := sound.starved busy
    rw [none_] at got
    cases got
  | claimed here future alive first some_ => exact first
  | _ => exact True.intro

theorem returned_passes (returned : returnFreeSlot (listApi N) s slot = some (handed,t)) :
    Passes id s slot t handed := by
  rcases returnFreeSlot_cases returned with ⟨empty,rfl,rfl⟩ | ⟨j,rest,link,queue,linked,rfl,rfl⟩
  · exact ⟨empty,rfl⟩
  · exact ⟨by rw [queue]; rfl,by simp⟩

theorem returned_given (sound : QueueSound s) (returned : returnFreeSlot (listApi N) s slot = some (handed,t)) (i : Nat) :
    (t.sender i).freeSlot.toList = (s.sender i).freeSlot.toList++(given i slot handed).toList := by
  rcases returnFreeSlot_cases returned with ⟨empty,rfl,rfl⟩ | ⟨j,rest,link,queue,linked,rfl,rfl⟩
  · exact (List.append_nil _).symm
  · by_cases same : j = i
    · subst same
      have waits := (sound.linked j).mp (by rw [queue]; exact List.mem_cons_self)
      simp [given,queued_noSlot (sound.fits j) waits]
    · simp [given,same,update_of_ne (Ne.symm same)]

-- A call that has not taken a slot for itself still has, or has given back, each
-- slot that it was handed.
def Passing (evs : List (Event T)) (i : Nat) (x : Sender T) : Prop :=
  x.point.value.isSome = true → x.point.slotless = true →
    givenTo i (thisCall i evs) = gaveBackBy i (thisCall i evs)++x.point.returning++x.freeSlot.toList

theorem givenTo_snoc : givenTo i (evs++[e]) = givenTo i evs++(e.givenTo i).toList := filterMap_snoc _ _ _
theorem gaveBackBy_snoc : gaveBackBy i (evs++[e]) = gaveBackBy i evs++(e.gaveBackBy i).toList := filterMap_snoc _ _ _

-- A step of the Sender's own within a call.
theorem passing_own (passing : Passing evs i x) (call : e.call i = none) (none_ : e.givenTo i = none)
    (kept : y.point.value.isSome = true → y.point.slotless = true →
      x.point.value.isSome = true ∧ x.point.slotless = true ∧
      x.point.returning++x.freeSlot.toList = (e.gaveBackBy i).toList++(y.point.returning++y.freeSlot.toList)) :
    Passing (evs++[e]) i y := by
  intro value slotless
  obtain ⟨before,less,moved⟩ := kept value slotless
  have known := passing before less
  rw [thisCall_snoc,call,if_neg (by simp),givenTo_snoc,gaveBackBy_snoc,none_,Option.toList_none,List.append_nil,known,
    List.append_assoc,moved]
  simp only [List.append_assoc]

theorem passing_out (out : x.point.value = none) : Passing evs i x := by
  intro value
  rw [out] at value
  cases value

theorem passing_past (past : x.point.slotless = false) : Passing evs i x := by
  intro _ slotless
  rw [past] at slotless
  cases slotless

theorem passing_call {val : T} (call : e.call i = some val) (nothing : y.point.returning++y.freeSlot.toList = []) :
    Passing (evs++[e]) i y := by
  intro _ _
  rw [thisCall_snoc,call,List.append_assoc,nothing]
  rfl

theorem passing_foreign (passing : Passing evs i x) (other : e.actor ≠ some i) (back : e.gaveBackBy i = none)
    (point : y.point = x.point) (slot : y.freeSlot.toList = x.freeSlot.toList++(e.givenTo i).toList) :
    Passing (evs++[e]) i y := by
  intro value slotless
  rw [point] at value slotless
  have known := passing value slotless
  rw [thisCall_snoc,(foreign other).1,if_neg (by simp),givenTo_snoc,gaveBackBy_snoc,back,known,point,slot]
  simp

theorem local_passing {api : Deque D} {u : State D T} (moves : Local api u i x e y) (fits : x.Fits)
    (passing : Passing evs i x) : Passing (evs++[e]) i y := by
  cases moves with
  | tryCalled =>
    obtain ⟨_,rfl⟩ := fits
    exact passing_call (if_pos rfl) rfl
  | sendCalled =>
    obtain ⟨_,rfl⟩ := fits
    exact passing_call (if_pos rfl) rfl
  | granted future alive popped => exact passing_past rfl
  | pollClosed future closed =>
    rcases future_cases future with rfl | rfl <;> exact passing_own passing rfl rfl fun _ _ => ⟨rfl,rfl,rfl⟩
  | denied future alive popped =>
    rcases future_cases future with rfl | rfl <;> exact passing_own passing rfl rfl fun _ _ => ⟨rfl,rfl,rfl⟩
  | stillPending future alive queued =>
    rcases future_cases future with rfl | rfl <;> exact passing_own passing rfl rfl fun _ _ => ⟨rfl,rfl,rfl⟩
  | left =>
    rename_i val outcome c f
    cases outcome with
    | slot idx => exact passing_past rfl
    | noReceiver => exact passing_out rfl
    | dropped => exact passing_out rfl
  | queueBusy busy => exact passing_out rfl
  | isClosed closed => exact passing_out rfl
  | forgotten => exact passing_out rfl
  | asked => exact passing_out rfl
  | nothingLinked out => exact passing_own passing rfl rfl fun _ less => ⟨rfl,less,rfl⟩
  | reclaimed => exact passing_own passing rfl rfl fun _ less => ⟨rfl,less,rfl⟩
  | nothingLeft => exact passing_own passing rfl rfl fun _ less => ⟨rfl,less,rfl⟩
  | _ => exact passing_own passing rfl rfl fun _ _ => ⟨rfl,rfl,rfl⟩

theorem own_passing (sound : QueueSound s) (taken : Step (listApi N) s e t) (own : e.actor = some i)
    (passing : Passing evs i (s.sender i)) : Passing (evs++[e]) i (t.sender i) := by
  cases taken with
  | sends j here moves =>
    obtain rfl := Option.some.inj ((local_actor moves).symm.trans own)
    rw [here] at passing
    simp only [update_self]
    exact local_passing moves (sound.at_ here) passing
  | receives here moves => cases moves <;> cases own
  | queued here future alive full =>
    cases own
    rw [here] at passing
    simp only [update_self]
    rcases future_cases future with rfl | rfl <;> exact passing_own passing rfl rfl fun _ _ => ⟨rfl,rfl,rfl⟩
  | unlinked here queued =>
    cases own
    rw [here] at passing
    simp only [update_self]
    exact passing_own passing rfl rfl fun _ less => ⟨rfl,less,rfl⟩
  | gaveBack here returned =>
    rename_i slot handed u j val outcome c f
    cases own
    have fits := sound.at_ here
    obtain ⟨_,waits,rfl⟩ := fits
    rw [here] at passing
    have kept := returned_given sound returned i
    have unfed : given i slot handed = none := by
      rcases returnFreeSlot_cases returned with ⟨_,rfl,_⟩ | ⟨k,rest,link,queue,_,rfl,_⟩
      · rfl
      · refine if_neg ?_
        rintro rfl
        have inside := (sound.linked k).mp (by rw [queue]; exact List.mem_cons_self)
        rw [here] at inside
        cases waits.symm.trans inside
    rw [here,unfed] at kept
    simp only [update_self]
    refine passing_own passing rfl unfed fun _ less => ⟨rfl,less,?_⟩
    rw [kept]
    simp [Event.gaveBackBy,SenderPoint.returning]
  | cloned here =>
    cases own
    have still : (update s.sender s.handles idle i).point = .idle := by
      by_cases new : i = s.handles
      · rw [new,update_self]
        rfl
      · rw [update_of_ne new,here]
    exact passing_out (by rw [still]; rfl)
  | senderDropped here =>
    cases own
    simp only [update_self]
    split <;> exact passing_out rfl
  | tryClaimed here got =>
    cases own
    simp only [update_self]
    exact passing_past rfl
  | tryFull here got =>
    cases own
    simp only [update_self]
    exact passing_out rfl
  | claimed here future alive first some_ =>
    cases own
    simp only [update_self]
    exact passing_past rfl
  | wrote here =>
    cases own
    simp only [update_self]
    exact passing_past rfl
  | pushed here =>
    cases own
    simp only [update_self]
    exact passing_past rfl
  | sent here =>
    cases own
    simp only [update_self]
    exact passing_out rfl
  | lastWoke here =>
    cases own
    simp only [update_self]
    exact passing_out rfl
  | _ => cases own

theorem step_given (sound : QueueSound s) (taken : Step (listApi N) s e t) (other : e.actor ≠ some i) :
    e.gaveBackBy i = none ∧ ((t.sender i).point = .idle ∨
      (t.sender i).freeSlot.toList = (s.sender i).freeSlot.toList++(e.givenTo i).toList) := by
  have apart : ∀ {j}, e.actor = some j → ∀ y, (update s.sender j y i).freeSlot.toList = (s.sender i).freeSlot.toList := by
    intro j actor y
    rw [update_of_ne]
    rintro rfl
    exact other actor
  cases taken with
  | sends j here moves =>
    have same := apart (local_actor moves)
    cases moves <;> exact ⟨rfl,Or.inr ((same _).trans (List.append_nil _).symm)⟩
  | receives here moves => cases moves <;> exact ⟨rfl,Or.inr (List.append_nil _).symm⟩
  | gaveBack here returned =>
    rename_i slot handed u j val outcome c f
    have apart : i ≠ j := by
      rintro rfl
      exact other rfl
    refine ⟨if_neg (Ne.symm apart),Or.inr ?_⟩
    simp only [update_of_ne apart]
    exact returned_given sound returned i
  | received here returned => exact ⟨rfl,Or.inr (returned_given sound returned i)⟩
  | cloned here =>
    refine ⟨rfl,?_⟩
    by_cases new : i = s.handles
    · exact Or.inl (by simp [new,idle])
    · exact Or.inr (by simp [update_of_ne new,Event.givenTo])
  | unqueued here got =>
    refine ⟨rfl,Or.inr ?_⟩
    obtain ⟨rest,link,queue,linked,rfl,rfl⟩ := popWaiter_some got
    rename_i j
    by_cases same : i = j
    · subst same
      simp [Event.givenTo]
    · simp [update_of_ne same,Event.givenTo]
  | _ =>
    first
    | exact ⟨rfl,Or.inr (List.append_nil _).symm⟩
    | exact ⟨rfl,Or.inr ((apart rfl _).trans (List.append_nil _).symm)⟩

theorem step_passing (sound : QueueSound s) (passing : ∀ i, Passing evs i (s.sender i))
    (taken : Step (listApi N) s e t) (i : Nat) : Passing (evs++[e]) i (t.sender i) := by
  by_cases own : e.actor = some i
  · exact own_passing sound taken own (passing i)
  · obtain ⟨back,slot⟩ := step_given sound taken own
    rcases slot with new | slot
    · exact passing_out (by rw [new]; rfl)
    · rcases step_point taken own with point | ⟨new,_⟩
      · exact passing_foreign (passing i) own back point slot
      · exact passing_out (by rw [new]; rfl)

theorem passed_on (passing : ∀ i, Passing evs i (s.sender i)) (sound : QueueSound s)
    (taken : Step (listApi N) s e t) : PassedOn id evs s e t := by
  cases taken with
  | sends i here moves =>
    cases moves with
    | left =>
      rename_i val outcome c f
      cases outcome with
      | slot idx => exact True.intro
      | noReceiver => exact True.intro
      | dropped =>
        have fits := sound.at_ here
        obtain ⟨_,rfl⟩ := fits
        have known := passing i
        rw [here] at known
        have balance : gaveBackBy i (thisCall i evs) = givenTo i (thisCall i evs) := by
          simpa [SenderPoint.returning] using (known rfl rfl).symm
        exact balance
    | _ => exact True.intro
  | receives here moves => cases moves <;> exact True.intro
  | gaveBack here returned =>
    rename_i slot handed u j val outcome c f
    have passes := returned_passes returned
    cases handed with
    | none => exact passes
    | some p =>
      obtain ⟨first,has⟩ := passes
      refine ⟨first,?_⟩
      by_cases same : p.1 = j
      · simpa [same] using has
      · simpa [update_of_ne same] using has
  | received here returned =>
    have passes := returned_passes returned
    rename_i slot handed u val origin
    cases handed with
    | none => exact passes
    | some p => exact passes
  | _ => exact True.intro
end

-- How a send future that entered the wait queue with this waker has left it.
def Event.takesOut (j : Nat) (waker : Waker) (o : Event T) : Prop :=
  o.handed = some (j,waker) ∨ o = .unlinked j .dropped ∨ o = .unlinked j .noReceiver ∨ o = .unqueued j waker

structure Released (evs : List (Event T)) (s : State (List Nat) T) : Prop where
  closed : s.receiver.alive = false → s.receiverDropped = true
  emptied : s.receiver = .dropped → s.waitQueue = []
  left : ∀ before j waker after, evs = before++.queued j waker::after →
    (j,waker) ∈ waiting Event.leaves evs ∨ ∃ o ∈ after, o.takesOut j waker
  woken : ∀ before j waker after, evs = before++.unqueued j waker::after →
    .wokeWaiter waker ∈ after ∨ s.receiver = .wakeWaiter waker

section
variable {evs : List (Event T)} {s t : State (List Nat) T} {e : Event T}

theorem Queued.unqueued (queued : Queued evs s) {j : Nat} {waker : Waker}
    (taken : Step (listApi N) s (.unqueued j waker) t) : (waiting Event.leaves evs).head? = some (j,waker) := by
  cases taken with
  | sends i here moves => cases moves
  | receives here moves => cases moves
  | unqueued here got =>
    obtain ⟨rest,link,queue,linked,rfl,rfl⟩ := popWaiter_some got
    obtain ⟨tail,all,_⟩ := queued.head queue linked
    rw [all]
    rfl

-- A send future that has got a slot has no link left to take out.
theorem unlinked_slot (sound : QueueSound s) {i idx : Nat} (taken : Step (listApi N) s (.unlinked i (.slot idx)) t) :
    (s.sender i).link = none := by
  cases taken with
  | sends j here moves =>
    have fits := sound.at_ here
    cases moves
    rw [here]
    exact (fits.1 (List.cons_ne_nil _ _)).1
  | receives here moves => cases moves
  | unlinked here queued =>
    have fits := sound.at_ here
    cases (fits.1 (List.cons_ne_nil _ _)).1

theorem Queued.takes_out (queued : Queued evs s) (sound : QueueSound s) (taken : Step (listApi N) s e t)
    {p : Nat × Waker} (member : p ∈ waiting Event.leaves evs) (leaves : e.leaves = some p.1) : e.takesOut p.1 p.2 := by
  have nodup := sound.nodup
  rw [← queued.order] at nodup
  have only : ∀ q, (waiting Event.leaves evs).head? = some q → q.1 = p.1 → q = p := fun q first same =>
    List.inj_on_of_nodup_map nodup (List.mem_of_head? first) member same
  have handed : e.handed.map Prod.fst = some p.1 → e.takesOut p.1 p.2 := by
    intro out
    obtain ⟨q,to_,same⟩ := Option.map_eq_some_iff.mp out
    cases only q (queued.handedInOrder taken q to_) same
    exact Or.inl to_
  cases e with
  | unlinked i outcome =>
    cases leaves
    have link := queued.links p member
    cases outcome with
    | slot idx => cases (unlinked_slot sound taken).symm.trans link
    | noReceiver => exact Or.inr (Or.inr (Or.inl rfl))
    | dropped => exact Or.inr (Or.inl rfl)
  | unqueued j waker =>
    have same := only (j,waker) (queued.unqueued taken) (Option.some.inj leaves)
    subst same
    exact Or.inr (Or.inr (Or.inr rfl))
  | _ => exact handed leaves

theorem step_emptied (closed : s.receiver.alive = false → s.receiverDropped = true)
    (emptied : s.receiver = .dropped → s.waitQueue = []) (taken : Step (listApi N) s e t)
    (here : t.receiver = .dropped) : t.waitQueue = [] := by
  cases taken with
  | receives from_ moves =>
    cases moves with
    | dropped empty => exact empty
    | empty alive =>
      rename_i origin
      cases origin <;> cases here
    | _ => cases here
  | queued from_ future alive full =>
    have here : s.receiver = .dropped := here
    rw [closed (by rw [here]; rfl)] at alive
    cases alive
  | unlinked from_ queued =>
    simp only [emptied here]
    rfl
  | gaveBack from_ returned =>
    rcases returnFreeSlot_cases returned with ⟨empty,_,rfl⟩ | ⟨j,rest,link,queue,_,_,rfl⟩
    · exact empty
    · rw [emptied here] at queue
      cases queue
  | registered from_ => cases here
  | popped from_ got => cases here
  | foundEmpty from_ got => cases here
  | received from_ returned => cases here
  | closing from_ => cases here
  | drained from_ got => cases here
  | drainEnded from_ got => cases here
  | unqueued from_ got => cases here
  | _ => exact emptied here

theorem step_wakes (taken : Step (listApi N) s e t) {waker : Waker} (here : s.receiver = .wakeWaiter waker) :
    e = .wokeWaiter waker ∨ t.receiver = .wakeWaiter waker := by
  cases taken with
  | receives from_ moves =>
    rw [here] at from_
    subst from_
    cases moves with
    | wokeWaiter => exact Or.inl rfl
    | polled future => cases future
    | recvDropped future => cases future
  | gaveBack from_ returned =>
    obtain ⟨_,_,_,rfl⟩ := returnFreeSlot_rest returned
    exact Or.inr here
  | registered from_ => cases here.symm.trans from_
  | popped from_ got => cases here.symm.trans from_
  | foundEmpty from_ got => cases here.symm.trans from_
  | received from_ returned => cases here.symm.trans from_
  | closing from_ => cases here.symm.trans from_
  | drained from_ got => cases here.symm.trans from_
  | drainEnded from_ got => cases here.symm.trans from_
  | unqueued from_ got => cases here.symm.trans from_
  | _ => exact Or.inr here

theorem step_released (queued : Queued evs s) (sound : QueueSound s) (released : Released evs s)
    (taken : Step (listApi N) s e t) : Released (evs++[e]) t := by
  refine ⟨fun shut => ?_,step_emptied released.closed released.emptied taken,?_,?_⟩
  · rcases step_shutting taken shut with before | ⟨_,_,rfl⟩
    · exact step_receiverDropped taken (released.closed before)
    · rfl
  · intro before j waker after split
    rcases snoc_split split with ⟨rfl,rfl⟩ | ⟨earlier,rfl,prior⟩
    · left
      rw [waiting_snoc]
      exact List.mem_append_right _ (by simp [Event.enters])
    · rcases released.left before j waker earlier prior with member | ⟨o,present,out⟩
      · by_cases leaves : e.leaves = some j
        · exact Or.inr ⟨e,by simp,queued.takes_out sound taken member leaves⟩
        · left
          rw [waiting_snoc]
          exact List.mem_append_left _ (List.mem_filter.mpr ⟨member,by simpa using leaves⟩)
      · exact Or.inr ⟨o,List.mem_append_left _ present,out⟩
  · intro before j waker after split
    rcases snoc_split split with ⟨rfl,rfl⟩ | ⟨earlier,rfl,prior⟩
    · right
      cases taken with
      | sends i here moves => cases moves
      | receives here moves => cases moves
      | unqueued here got => rfl
    · rcases released.woken before j waker earlier prior with present | here
      · exact Or.inl (List.mem_append_left _ present)
      · rcases step_wakes taken here with rfl | still
        · exact Or.inl (by simp)
        · exact Or.inr still

theorem initial_released :
    Released [] (initial (listApi N) N : State (List Nat) T) :=
  ⟨nofun,nofun,by simp,by simp⟩

theorem step_polls_closed (closed : s.receiver.alive = false → s.receiverDropped = true)
    (taken : Step (listApi N) s e t) (here : s.receiver = .dropped) (i : Nat) (val : T)
    (future : (s.sender i).point.future = some val) (own : e.actor = some i) :
    e = .foundClosed i ∨ e = .cancelled i ∨ e = .forgotten i val := by
  have dropped := closed (by rw [here]; rfl)
  cases taken with
  | sends j from_ moves =>
    obtain rfl := Option.some.inj ((local_actor moves).symm.trans own)
    rw [from_] at future
    cases moves with
    | pollClosed future' closed => exact Or.inl rfl
    | granted future' alive popped => rw [dropped] at alive; cases alive
    | denied future' alive popped => exact Or.inl rfl
    | stillPending future' alive queued => rw [dropped] at alive; cases alive
    | cancelled => exact Or.inr (Or.inl rfl)
    | forgotten =>
      cases future
      exact Or.inr (Or.inr rfl)
    | _ => cases future
  | receives from_ moves => cases moves <;> cases own
  | claimed from_ future' alive first some_ => rw [dropped] at alive; cases alive
  | queued from_ future' alive full => rw [dropped] at alive; cases alive
  | tryClaimed from_ got => cases own; rw [from_] at future; cases future
  | tryFull from_ got => cases own; rw [from_] at future; cases future
  | unlinked from_ queued => cases own; rw [from_] at future; cases future
  | gaveBack from_ returned => cases own; rw [from_] at future; cases future
  | wrote from_ => cases own; rw [from_] at future; cases future
  | pushed from_ => cases own; rw [from_] at future; cases future
  | sent from_ => cases own; rw [from_] at future; cases future
  | cloned from_ => cases own; rw [from_] at future; cases future
  | senderDropped from_ => cases own; rw [from_] at future; cases future
  | lastWoke from_ => cases own; rw [from_] at future; cases future
  | _ => cases own
end

-- The value of a send that, with the Receiver dropped, its next poll or the rest
-- of this one returns.
def SenderPoint.refused : SenderPoint T → Option T
  | .fresh val => some val
  | .waiting val => some val
  | .unlink val .noReceiver => some val
  | .takeSlot val .noReceiver => some val
  | .giveBack val .noReceiver _ => some val
  | .leave val .noReceiver => some val
  | _ => none

-- By its own steps alone the send comes to return NoReceiver with the value.
def Refuses (api : Deque D) (s : State D T) (i : Nat) (val : T) : Prop :=
  ∃ t, ∃ more : Transition.Run (Step api) s t,
    (∀ e ∈ more.events, e.actor = some i) ∧ more.events.getLast? = some (.left i val .noReceiver)

section
variable {api : Deque D} {s t : State D T} {e : Event T} {i : Nat} {val : T} {c : Option Link} {f : Option Nat}

theorem Refuses.after (taken : Step api s e t) (own : e.actor = some i) (rest : Refuses api t i val) :
    Refuses api s i val := by
  obtain ⟨u,more,alone,last⟩ := rest
  refine ⟨u,(Transition.Run.start.snoc e taken).append more,?_,?_⟩
  · intro o present
    rw [Transition.Run.events_append] at present
    rcases List.mem_append.mp present with first | later
    · cases List.mem_singleton.mp first
      exact own
    · exact alone o later
  · rw [Transition.Run.events_append,List.getLast?_append,last]
    rfl

theorem leave_refuses (here : (s.sender i).point = .leave val .noReceiver) : Refuses api s i val := by
  refine ⟨_,Transition.Run.start.snoc _ (.sends i (Sender.eq_of_point here) .left),fun e present => ?_,rfl⟩
  cases List.mem_singleton.mp present
  rfl

theorem giveBack_refuses (slot : Nat) (empty : s.waitQueue = [])
    (here : (s.sender i).point = .giveBack val .noReceiver slot) : Refuses api s i val := by
  have returned : returnFreeSlot api s slot = some (none,{s with freeq := api.pushBackUnchecked s.freeq slot}) := by
    simp [returnFreeSlot,popWaiter,empty]
  exact .after (.gaveBack (Sender.eq_of_point here) returned) rfl (leave_refuses (by simp))

theorem takeSlot_refuses (empty : s.waitQueue = []) (here : (s.sender i).point = .takeSlot val .noReceiver) :
    Refuses api s i val := by
  have shape := Sender.eq_of_point here
  cases has : (s.sender i).freeSlot with
  | none =>
    rw [has] at shape
    exact .after (.sends i shape .nothingLeft) rfl (leave_refuses (by simp))
  | some slot =>
    rw [has] at shape
    exact .after (.sends i shape .reclaimed) rfl (giveBack_refuses slot empty (by simp))

theorem unlink_refuses (empty : s.waitQueue = []) (here : (s.sender i).point = .unlink val .noReceiver) :
    Refuses api s i val := by
  have shape := Sender.eq_of_point here
  cases waits : (s.sender i).isQueued with
  | false =>
    refine .after (.sends i shape (.nothingLinked fun link linked => ?_)) rfl (takeSlot_refuses empty (by simp))
    simpa [Sender.isQueued,linked] using waits
  | true =>
    cases linked : (s.sender i).link with
    | none => simp [Sender.isQueued,linked] at waits
    | some link =>
      rw [linked] at shape
      have queued : link.isPopped = false := by simpa [Sender.isQueued,linked] using waits
      exact .after (.unlinked shape queued) rfl (takeSlot_refuses (by simp [empty]) (by simp))

theorem refuses (empty : s.waitQueue = []) (dropped : s.receiverDropped = true)
    (refused : (s.sender i).point.refused = some val) : Refuses api s i val := by
  have poll : (s.sender i).point.future = some val → Refuses api s i val := fun future =>
    .after (.sends i rfl (.pollClosed future dropped)) rfl (unlink_refuses empty (by simp))
  cases point : (s.sender i).point with
  | fresh w =>
    rw [point] at poll refused
    exact poll refused
  | waiting w =>
    rw [point] at poll refused
    exact poll refused
  | unlink w outcome =>
    rw [point] at refused
    cases outcome <;> cases refused
    exact unlink_refuses empty point
  | takeSlot w outcome =>
    rw [point] at refused
    cases outcome <;> cases refused
    exact takeSlot_refuses empty point
  | giveBack w outcome slot =>
    rw [point] at refused
    cases outcome <;> cases refused
    exact giveBack_refuses slot empty point
  | leave w outcome =>
    rw [point] at refused
    cases outcome <;> cases refused
    exact leave_refuses point
  | _ =>
    rw [point] at refused
    cases refused
end

-- Once Receiver::drop is over nobody waits: each send future that entered the wait
-- queue was handed a slot, was dropped, returned NoReceiver, or was popped and woken.
def AllReleased (evs : List (Event T)) (s : State D T) : Prop :=
  s.receiver = .dropped → s.waitQueue = [] ∧
    ∀ before j waker after, evs = before++.queued j waker::after →
      ∃ o ∈ after, o.handed = some (j,waker) ∨ o = .unlinked j .dropped ∨ o = .unlinked j .noReceiver ∨
        (o = .unqueued j waker ∧ .wokeWaiter waker ∈ after)

-- From then on each poll of a send future finds the channel closed.
def PollsClosed (_ : List (Event T)) (s : State D T) (e : Event T) (_ : State D T) : Prop :=
  s.receiver = .dropped → ∀ i val, (s.sender i).point.future = some val → e.actor = some i →
    e = .foundClosed i ∨ e = .cancelled i ∨ e = .forgotten i val

-- And it goes on to return NoReceiver with the value that `send` was called with.
def RefusesAll (api : Deque D) (evs : List (Event T)) (s : State D T) : Prop :=
  s.receiver = .dropped → ∀ i val, (s.sender i).point.refused = some val →
    callValue i evs = some val ∧ Refuses api s i val

structure Served (N : Nat) (evs : List (Event T)) (s : State (List Nat) T) : Prop where
  tracked : Tracked N evs s
  queued : Queued evs s
  passing : ∀ i, Passing evs i (s.sender i)
  released : Released evs s

section
variable {evs : List (Event T)} {s t : State (List Nat) T} {e : Event T}

theorem initial_served :
    Served N [] (initial (listApi N) N : State (List Nat) T) := by
  refine ⟨initial_tracked,⟨rfl,nofun⟩,fun i value => ?_,initial_released⟩
  have point : (if i = 0 then idle else gone : Sender T).point.value = none := by split <;> rfl
  cases (congrArg Option.isSome point).symm.trans value

theorem step_served (served : Served N evs s) (taken : Step (listApi N) s e t) : Served N (evs++[e]) t :=
  have sound := served.tracked.valid.sound.queue
  ⟨step_tracked served.tracked taken,step_queued sound served.queued taken,step_passing sound served.passing taken,
    step_released served.queued sound served.released taken⟩

theorem Served.allReleased (served : Served N evs s) : AllReleased evs s := by
  intro here
  have empty := served.released.emptied here
  have none_ := served.queued.order
  rw [empty] at none_
  refine ⟨empty,fun before j waker after split => ?_⟩
  rcases served.released.left before j waker after split with member | ⟨o,present,out⟩
  · rw [List.map_eq_nil_iff.mp none_] at member
    cases member
  · refine ⟨o,present,?_⟩
    rcases out with handed | dropped | refused | rfl
    · exact Or.inl handed
    · exact Or.inr (Or.inl dropped)
    · exact Or.inr (Or.inr (Or.inl refused))
    · obtain ⟨early,late,rfl⟩ := List.append_of_mem present
      have woken := served.released.woken (before++.queued j waker::early) j waker late (by simp [split])
      rcases woken with woke | still
      · exact Or.inr (Or.inr (Or.inr ⟨rfl,by simp [woke]⟩))
      · cases here.symm.trans still

theorem refused_value {p : SenderPoint T} {val : T} (refused : p.refused = some val) : p.value = some val := by
  cases p with
  | fresh w => exact refused
  | waiting w => exact refused
  | unlink w outcome => cases outcome <;> first | exact refused | cases refused
  | takeSlot w outcome => cases outcome <;> first | exact refused | cases refused
  | giveBack w outcome slot => cases outcome <;> first | exact refused | cases refused
  | leave w outcome => cases outcome <;> first | exact refused | cases refused
  | _ => cases refused
end

theorem senders_served {api : Deque D} {items : D → List Nat} (doc : Documented api N items) {s : State D T}
    (run : Run api N s) :
    run.Through (fun _ s => s.waitQueue ≠ [] → items s.freeq = []) ∧
    run.Every (HandedInOrder Event.leaves) ∧
    run.Every ClaimsUncontended ∧
    run.Every (PassedOn items) ∧
    run.Through AllReleased ∧
    run.Every PollsClosed ∧
    run.Through (RefusesAll api) := by
  obtain ⟨listed,_,through,every⟩ := contents_run doc run
  have served : listed.Through (Served N) :=
    listed.through_of (Served N) initial_served (fun served taken _ => step_served served taken) id listed.every_true
  refine ⟨?_,?_,?_,?_,?_,?_,?_⟩
  · exact ((through (Served N)).mp served).imp fun served => served.tracked.valid.sound.queue.starved
  · exact (every (HandedInOrder Event.leaves)).mp <| listed.every (Served N) initial_served step_served
      fun served taken => served.queued.handedInOrder taken
  · exact (every ClaimsUncontended).mp <| listed.every (Served N) initial_served step_served
      fun served taken => claims_uncontended served.tracked.valid.sound.queue taken
  · have passed := listed.every (Served N) initial_served step_served
      fun served taken => passed_on served.passing served.tracked.valid.sound.queue taken
    exact (every (PassedOn id)).mp passed
  · exact ((through (Served N)).mp served).imp fun served => served.allReleased
  · have polls := listed.every (Served N) initial_served step_served fun served taken =>
      step_polls_closed served.released.closed taken
    exact (every PollsClosed).mp polls
  · refine ((through (Served N)).mp served).imp fun served here i val refused => ?_
    refine ⟨(served.tracked.accounted.account i val (refused_value refused)).1,refuses ?_ ?_ refused⟩
    · exact served.released.emptied here
    · exact served.released.closed (by rw [show (contents items _).receiver = .dropped from here]; rfl)

-- With one slot, Senders 0, 1 and 2 wait in this order and 0 is handed the slot.
-- Receiver::drop has popped 1 when 0 is dropped, and so the slot goes to 2.
def skipsReleased :=
  ((((((((((((((((((((((((((Transition.Run.start : Run (T:=Nat) (listApi 1) 1 _).snoc
    (.cloned 0 1) (.cloned rfl)).snoc
    (.cloned 0 2) (.cloned rfl)).snoc
    (.tryCalled 0 7) (.sends 0 rfl .tryCalled)).snoc
    (.passed 0) (.sends 0 rfl (.queueEmpty rfl))).snoc
    (.passed 0) (.sends 0 rfl (.isOpen rfl))).snoc
    (.claimed 0 0) (.tryClaimed rfl rfl)).snoc
    (.wrote 0 0 7) (.wrote rfl)).snoc
    (.pushed 0 0 7) (.pushed rfl)).snoc
    (.sent 0 7 none) (.sent rfl)).snoc
    (.sendCalled 0 1) (.sends 0 rfl .sendCalled)).snoc
    (.queued 0 ⟨0,0⟩) (.queued rfl rfl rfl (Or.inr rfl))).snoc
    (.sendCalled 1 2) (.sends 1 rfl .sendCalled)).snoc
    (.queued 1 ⟨1,0⟩) (.queued rfl rfl rfl (Or.inr rfl))).snoc
    (.sendCalled 2 3) (.sends 2 rfl .sendCalled)).snoc
    (.queued 2 ⟨2,0⟩) (.queued rfl rfl rfl (Or.inr rfl))).snoc
    .tryRecvCalled (.receives rfl .tryRecvCalled)).snoc
    (.popped 0) (.popped rfl rfl)).snoc
    (.slotRead 0 7) (.receives rfl (.read rfl))).snoc
    (.received 0 7 (some (0,⟨0,0⟩))) (.received rfl rfl)).snoc
    .closing (.closing rfl)).snoc
    .drainEnded (.drainEnded rfl rfl)).snoc
    (.unqueued 1 ⟨1,0⟩) (.unqueued rfl rfl)).snoc
    (.cancelled 0) (.sends 0 rfl .cancelled)).snoc
    (.unlinked 0 .dropped) (.sends 0 rfl (.nothingLinked fun link linked => by cases linked; rfl))).snoc
    (.reclaimed 0 0) (.sends 0 rfl .reclaimed)).snoc
    (.gaveBack 0 0 (some (2,⟨2,0⟩))) (.gaveBack rfl rfl)

theorem released_is_skipped : ¬ skipsReleased.Every (HandedInOrder Event.grantedOrDropped) := by
  intro ordered
  have first := ordered.2 (2,⟨2,0⟩) rfl
  cases first

theorem senders_served_skipsReleased : skipsReleased.Every (HandedInOrder Event.leaves) :=
  (senders_served (listApi_documented 1) skipsReleased).2.1

end Rtic.Sync.Channel
