import Rtic.Sync.ChannelContents
namespace Rtic.Sync.Channel
open Function Buckets Transition Rtic.Common
open BoundedDeque (listApi)
variable {T : Type} {N : Nat}

section
variable {evs : List (Event T)} {s : State (List Nat) T} {i k : Nat}

theorem count_pos {l : List Nat} (member : k ∈ l) : 0 < l.count k := List.count_pos_iff.mpr member
theorem not_mem_of_count {l : List Nat} (none_ : l.count k = 0) : k ∉ l := List.count_eq_zero.mp none_

-- A slot is in one place only.
theorem Sound.sender_apart (sound : Sound N evs s) (held : k ∈ (s.sender i).slots) :
    k ∉ s.readyq ∧ k ∉ s.receiver.slots ∧ k ∉ drainedSlots evs ∧ ∀ j, j ≠ i → k ∉ (s.sender j).slots := by
  have bound := sound.bound k
  have here := count_pos held
  have counted := sound.held_le i k
  have once : occurrences evs s k ≤ 1 := by
    split at bound <;> omega
  unfold occurrences at once
  refine ⟨not_mem_of_count (by omega),not_mem_of_count (by omega),not_mem_of_count (by omega),fun j other => ?_⟩
  by_cases inside : j < s.handles
  · have inside' : i < s.handles := by
      by_contra outside
      rw [sound.queue.unused i (Nat.le_of_not_lt outside)] at held
      cases held
    have both : (s.sender i).slots.count k+(s.sender j).slots.count k ≤ (heldSlots s).count k :=
      count_two_le_gather inside' inside other (fun j => (s.sender j).slots) k
    exact not_mem_of_count (by omega)
  · rw [sound.queue.unused j (Nat.le_of_not_lt inside)]
    exact List.not_mem_nil

theorem Sound.receiver_apart (sound : Sound N evs s) (held : k ∈ s.receiver.slots ∨ k ∈ drainedSlots evs) :
    k ∉ s.readyq ∧ ∀ j, k ∉ (s.sender j).slots := by
  have bound := sound.bound k
  have once : occurrences evs s k ≤ 1 := by
    split at bound <;> omega
  unfold occurrences at once
  have here : 0 < s.receiver.slots.count k+(drainedSlots evs).count k := by
    rcases held with held | held
    · exact Nat.add_pos_left (count_pos held) _
    · exact Nat.add_pos_right _ (count_pos held)
  refine ⟨not_mem_of_count (by omega),fun j => not_mem_of_count ?_⟩
  have counted := sound.held_le j k
  omega

end

def Event.writes (k : Nat) : Event T → Bool
  | .wrote _ slot _ => slot == k
  | _ => false

def Event.reads (k : Nat) : Event T → Bool
  | .slotRead slot _ => slot == k
  | .discarded slot _ => slot == k
  | _ => false

-- The slot has been written since it was last read.
def Unread (evs : List (Event T)) (k : Nat) : Prop := (since (Event.reads k) evs).any (Event.writes k) = true

def Event.push : Event T → Option (Nat × T)
  | .pushed i _ val => some (i,val)
  | _ => none

def Event.receive : Event T → Option T
  | .received _ val _ => some val
  | _ => none

def Event.discard : Event T → Option T
  | .discarded _ val => some val
  | _ => none

def pushes (evs : List (Event T)) : List (Nat × T) := evs.filterMap Event.push
def pushedValues (evs : List (Event T)) : List T := (pushes evs).map Prod.snd
def receivedValues (evs : List (Event T)) : List T := evs.filterMap Event.receive
def discardedValues (evs : List (Event T)) : List T := evs.filterMap Event.discard

-- Steps that neither move a value nor take a slot from readyq for the destructor.
def Event.quiet : Event T → Bool
  | .wrote _ _ _ => false
  | .pushed _ _ _ => false
  | .slotRead _ _ => false
  | .received _ _ _ => false
  | .drained _ => false
  | .discarded _ _ => false
  | _ => true

theorem unread_snoc (evs : List (Event T)) (e : Event T) (k : Nat) :
    Unread (evs++[e]) k ↔ e.reads k = false ∧ (Unread evs k ∨ e.writes k = true) := by
  unfold Unread
  rw [since_snoc]
  cases read : e.reads k <;> simp

theorem filterMap_snoc {α β : Type} (f : α → Option β) (l : List α) (a : α) :
    (l++[a]).filterMap f = l.filterMap f++(f a).toList := by
  rw [List.filterMap_append,List.filterMap_cons]
  cases f a <;> rfl

theorem pushedValues_snoc (evs : List (Event T)) (e : Event T) :
    pushedValues (evs++[e]) = pushedValues evs++(e.push.map Prod.snd).toList := by
  unfold pushedValues pushes
  rw [filterMap_snoc,List.map_append]
  cases e.push <;> rfl
theorem receivedValues_snoc (evs : List (Event T)) (e : Event T) :
    receivedValues (evs++[e]) = receivedValues evs++e.receive.toList := filterMap_snoc _ _ _
theorem discardedValues_snoc (evs : List (Event T)) (e : Event T) :
    discardedValues (evs++[e]) = discardedValues evs++e.discard.toList := filterMap_snoc _ _ _

theorem quiet_snoc (evs : List (Event T)) {e : Event T} (quiet : e.quiet = true) :
    pushedValues (evs++[e]) = pushedValues evs ∧ receivedValues (evs++[e]) = receivedValues evs ∧
    discardedValues (evs++[e]) = discardedValues evs ∧ drainedSlots (evs++[e]) = drainedSlots evs ∧
    ∀ k, Unread (evs++[e]) k ↔ Unread evs k := by
  simp only [pushedValues_snoc,receivedValues_snoc,discardedValues_snoc,drainedSlots_snoc,unread_snoc]
  cases e <;> simp_all [Event.quiet,Event.push,Event.receive,Event.discard,Event.drainedSlot,Event.reads,Event.writes]

-- The slot that the Receiver is about to read, and the values it has taken from
-- readyq and not yet returned or dropped.
def ReceiverPoint.reads : ReceiverPoint T → Option Nat
  | .read _ slot => some slot
  | .drainRead slot => some slot
  | _ => none

def ReceiverPoint.inFlight (slots : Nat → Option T) : ReceiverPoint T → List (Option T)
  | .read _ slot => [slots slot]
  | .giveBack _ _ val => [some val]
  | .drainRead slot => [slots slot]
  | _ => []

def ReceiverPoint.alive : ReceiverPoint T → Bool
  | .drain => false
  | .drainRead _ => false
  | .unqueue => false
  | .wakeWaiter _ => false
  | .dropped => false
  | _ => true

-- Published slots hold their values, in the order in which they were pushed.
structure Stored (evs : List (Event T)) (s : State (List Nat) T) : Prop where
  published : ∀ i val k, (s.sender i).point = .publish val k → s.slots k = some val ∧ Unread evs k
  ready : ∀ k ∈ s.readyq, (s.slots k).isSome ∧ Unread evs k
  reading : ∀ k, s.receiver.reads = some k → (s.slots k).isSome ∧ Unread evs k
  draining : ∀ k, s.receiver = .drainRead k → k ∈ drainedSlots evs
  order : s.receiver.alive = true → (pushedValues evs).map some =
    (receivedValues evs).map some++s.receiver.inFlight s.slots++s.readyq.map s.slots
  begun : receivedValues evs <+: pushedValues evs
  conserved : ((pushedValues evs).map some).Perm ((receivedValues evs).map some++s.receiver.inFlight s.slots++
    s.readyq.map s.slots++(discardedValues evs).map some)

section
variable {evs : List (Event T)} {s t : State (List Nat) T} {e : Event T}

theorem Stored.frame (stored : Stored evs s) (quiet : e.quiet = true) (slots : t.slots = s.slots)
    (readyq : t.readyq = s.readyq)
    (points : ∀ i val k, (t.sender i).point = .publish val k → (s.sender i).point = .publish val k)
    (reads : t.receiver.reads = s.receiver.reads)
    (draining : ∀ k, t.receiver = .drainRead k → s.receiver = .drainRead k)
    (alive : t.receiver.alive = true → s.receiver.alive = true)
    (flight : ∀ slots, t.receiver.inFlight slots = s.receiver.inFlight slots) : Stored (evs++[e]) t := by
  obtain ⟨pushed,received,discarded,drained,unread⟩ := quiet_snoc evs quiet
  constructor
  · intro i val k point
    rw [slots,unread]
    exact stored.published i val k (points i val k point)
  · intro k member
    rw [slots,unread]
    exact stored.ready k (by rwa [← readyq])
  · intro k here
    rw [slots,unread]
    exact stored.reading k (by rwa [← reads])
  · intro k here
    rw [drained]
    exact stored.draining k (draining k here)
  · intro living
    rw [pushed,received,flight,slots,readyq]
    exact stored.order (alive living)
  · rw [pushed,received]
    exact stored.begun
  · rw [pushed,received,discarded,flight,slots,readyq]
    exact stored.conserved

theorem local_quiet {D : Type} {api : Deque D} {u : State D T} {i : Nat} {x y : Sender T}
    (moves : Local api u i x e y) : e.quiet = true ∧ ∀ val k, y.point ≠ .publish val k := by
  cases moves with
  | left =>
    rename_i val outcome c f
    cases outcome <;> simp [Event.quiet,resume]
  | _ => simp [Event.quiet]

theorem receiver_local_frame {D : Type} {api : Deque D} {u : State D T} {p q : ReceiverPoint T}
    (moves : ReceiverLocal api u p e q) (quiet : e.quiet = true) :
    q.reads = p.reads ∧ (∀ k, q = .drainRead k → p = .drainRead k) ∧ (q.alive = true → p.alive = true) ∧
      ∀ slots, q.inFlight slots = p.inFlight slots := by
  cases moves with
  | polled future =>
    rcases awaiting_cases future with rfl | ⟨waker,rfl⟩ <;>
      simp [ReceiverPoint.reads,ReceiverPoint.alive,ReceiverPoint.inFlight]
  | recvDropped future =>
    rcases awaiting_cases future with rfl | ⟨waker,rfl⟩ <;>
      simp [ReceiverPoint.reads,ReceiverPoint.alive,ReceiverPoint.inFlight]
  | empty alive =>
    rename_i origin
    cases origin <;> simp [ReceiverPoint.suspended,ReceiverPoint.reads,ReceiverPoint.alive,ReceiverPoint.inFlight]
  | read written => cases quiet
  | discarded written => cases quiet
  | _ => simp [ReceiverPoint.reads,ReceiverPoint.alive,ReceiverPoint.inFlight]

theorem update_published {sender : Nat → Sender T} {i : Nat} {y : Sender T} (none_ : ∀ val k, y.point ≠ .publish val k) :
    ∀ j val k, (update sender i y j).point = .publish val k → (sender j).point = .publish val k := by
  intro j val k point
  by_cases same : j = i
  · subst same
    rw [update_self] at point
    exact absurd point (none_ val k)
  · rwa [update_of_ne same] at point

theorem unread_other {k : Nat} (unread : Unread evs k) (other : e.reads k = false) : Unread (evs++[e]) k :=
  (unread_snoc evs e k).mpr ⟨other,Or.inl unread⟩

theorem values_snoc (evs : List (Event T)) (e : Event T) :
    (pushedValues (evs++[e])).map some = (pushedValues evs).map some++(e.push.map Prod.snd).toList.map some ∧
    (receivedValues (evs++[e])).map some = (receivedValues evs).map some++e.receive.toList.map some ∧
    (discardedValues (evs++[e])).map some = (discardedValues evs).map some++e.discard.toList.map some := by
  simp only [pushedValues_snoc,receivedValues_snoc,discardedValues_snoc,List.map_append,and_self]

theorem Stored.reads_held (stored : Stored evs s) {k : Nat} (reads : s.receiver.reads = some k) :
    k ∈ s.receiver.slots ∨ k ∈ drainedSlots evs := by
  cases here : s.receiver with
  | read origin slot => simp_all [ReceiverPoint.reads,ReceiverPoint.slots]
  | drainRead slot =>
    rw [here] at reads
    cases reads
    exact Or.inr (stored.draining k here)
  | _ => simp [here,ReceiverPoint.reads] at reads

theorem inFlight_congr {p : ReceiverPoint T} {slots slots' : Nat → Option T}
    (same : ∀ k, p.reads = some k → slots k = slots' k) : p.inFlight slots = p.inFlight slots' := by
  cases p with
  | read origin slot => exact congrArg (fun w => [w]) (same slot rfl)
  | drainRead slot => exact congrArg (fun w => [w]) (same slot rfl)
  | _ => rfl

theorem perm_last {α : Type} (a b c : List α) (x : α) : (a++[x]++b++c).Perm (a++b++(c++[x])) := by
  simp only [List.append_assoc]
  refine List.Perm.append_left a ?_
  rw [← List.append_assoc b]
  exact List.perm_append_comm

-- A slot that is read now is neither ready nor a Sender's, so what is known of those stands.
theorem Stored.unread_kept (stored : Stored evs s)
    (apart : ∀ k, e.reads k = true → k ∉ s.readyq ∧ ∀ i, k ∉ (s.sender i).slots) :
    (∀ i val k, (s.sender i).point = .publish val k → s.slots k = some val ∧ Unread (evs++[e]) k) ∧
    ∀ k ∈ s.readyq, (s.slots k).isSome ∧ Unread (evs++[e]) k := by
  constructor
  · intro i val k point
    obtain ⟨written,unread⟩ := stored.published i val k point
    have own : k ∈ (s.sender i).slots := by simp [Sender.slots,point,SenderPoint.slots]
    exact ⟨written,unread_other unread (Bool.eq_false_iff.mpr fun reads => (apart k reads).2 i own)⟩
  · intro k member
    obtain ⟨written,unread⟩ := stored.ready k member
    exact ⟨written,unread_other unread (Bool.eq_false_iff.mpr fun reads => (apart k reads).1 member)⟩

theorem Stored.begun_kept (stored : Stored evs s) (none_ : e.receive = none) :
    receivedValues (evs++[e]) <+: pushedValues (evs++[e]) := by
  rw [pushedValues_snoc,receivedValues_snoc,none_,Option.toList_none,List.append_nil]
  exact stored.begun.trans (List.prefix_append _ _)

theorem Stored.draining_kept (stored : Stored evs s) {k : Nat} (here : s.receiver = .drainRead k) :
    k ∈ drainedSlots (evs++[e]) := by
  rw [drainedSlots_snoc]
  exact List.mem_append_left _ (stored.draining k here)

theorem Stored.slotRead (stored : Stored evs s) (sound : Sound N evs s) {origin : Option Waker} {slot : Nat} {val : T}
    (here : s.receiver = .read origin slot) (written : s.slots slot = some val) :
    Stored (evs++[.slotRead slot val]) {s with receiver := .giveBack origin slot val} := by
  obtain ⟨published,ready⟩ := stored.unread_kept (e:=.slotRead slot val) fun k reads => by
    obtain rfl : slot = k := by simpa [Event.reads] using reads
    exact sound.receiver_apart (Or.inl (by simp [here,ReceiverPoint.slots]))
  have order := stored.order (by rw [here]; rfl)
  have conserved := stored.conserved
  obtain ⟨pushed,received,discarded⟩ := values_snoc evs (.slotRead slot val)
  simp only [here,ReceiverPoint.inFlight,written] at order conserved
  refine ⟨published,ready,by simp [ReceiverPoint.reads],by simp,fun _ => ?_,stored.begun_kept rfl,?_⟩
  · rw [pushed,received]
    simpa [Event.push,Event.receive,ReceiverPoint.inFlight] using order
  · rw [pushed,received,discarded]
    simpa [Event.push,Event.receive,Event.discard,ReceiverPoint.inFlight] using conserved

theorem Stored.discarded (stored : Stored evs s) (sound : Sound N evs s) {slot : Nat} {val : T}
    (here : s.receiver = .drainRead slot) (written : s.slots slot = some val) :
    Stored (evs++[.discarded slot val]) {s with receiver := .drain} := by
  obtain ⟨published,ready⟩ := stored.unread_kept (e:=.discarded slot val) fun k reads => by
    obtain rfl : slot = k := by simpa [Event.reads] using reads
    exact sound.receiver_apart (Or.inr (stored.draining slot here))
  have conserved := stored.conserved
  obtain ⟨pushed,received,discarded⟩ := values_snoc evs (.discarded slot val)
  simp only [here,ReceiverPoint.inFlight,written] at conserved
  refine ⟨published,ready,by simp [ReceiverPoint.reads],by simp,by simp [ReceiverPoint.alive],stored.begun_kept rfl,?_⟩
  rw [pushed,received,discarded]
  refine (by simpa [Event.push] using conserved : List.Perm _ _).trans ?_
  simpa [Event.receive,Event.discard,ReceiverPoint.inFlight] using perm_last _ _ _ _

-- The slot that is written is this Sender's alone.
theorem Stored.wrote (stored : Stored evs s) (sound : Sound N evs s) {i slot : Nat} {val : T} {c : Option Link}
    {f : Option Nat} (here : s.sender i = ⟨.write val slot,c,f⟩) :
    Stored (evs++[.wrote i slot val])
      {s with slots := update s.slots slot (some val),sender := update s.sender i ⟨.publish val slot,c,f⟩} := by
  have held : slot ∈ (s.sender i).slots := by simp [here,Sender.slots,SenderPoint.slots]
  obtain ⟨notReady,notReceiver,notDrained,notOther⟩ := sound.sender_apart held
  have others : ∀ k, k ≠ slot → update s.slots slot (some val) k = s.slots k := fun k other => update_of_ne other _ _
  obtain ⟨published,waiting⟩ := stored.unread_kept (e:=.wrote i slot val) (by simp [Event.reads])
  have ready : s.readyq.map (update s.slots slot (some val)) = s.readyq.map s.slots :=
    List.map_congr_left fun k member => others k fun same => notReady (same ▸ member)
  have apart : ∀ k, s.receiver.reads = some k → k ≠ slot := by
    rintro k reads rfl
    exact (stored.reads_held reads).elim notReceiver notDrained
  have flight : s.receiver.inFlight (update s.slots slot (some val)) = s.receiver.inFlight s.slots :=
    inFlight_congr fun k reads => others k (apart k reads)
  obtain ⟨pushed,received,discarded⟩ := values_snoc evs (.wrote i slot val)
  refine ⟨?_,?_,?_,fun _ => stored.draining_kept,fun alive => ?_,stored.begun_kept rfl,?_⟩
  · intro j w k point
    by_cases same : j = i
    · subst same
      simp only [update_self] at point
      cases point
      exact ⟨update_self _ _ _,(unread_snoc _ _ _).mpr ⟨rfl,Or.inr (by simp [Event.writes])⟩⟩
    · simp only [update_of_ne same] at point
      have other : k ≠ slot := by
        rintro rfl
        exact notOther j same (by simp [Sender.slots,point,SenderPoint.slots])
      exact ⟨(others k other).trans (published j w k point).1,(published j w k point).2⟩
  · intro k member
    have same := others k fun same => notReady (same ▸ member)
    exact ⟨by simpa only [same] using (waiting k member).1,(waiting k member).2⟩
  · intro k reads
    obtain ⟨written,unread⟩ := stored.reading k reads
    have same := others k (apart k reads)
    exact ⟨by simpa only [same] using written,unread_other unread rfl⟩
  · rw [pushed,received,flight,ready]
    simpa [Event.push,Event.receive] using stored.order alive
  · rw [pushed,received,discarded,flight,ready]
    simpa [Event.push,Event.receive,Event.discard] using stored.conserved

theorem Stored.pushed (stored : Stored evs s) {i slot : Nat} {val : T} {c : Option Link} {f : Option Nat}
    (here : s.sender i = ⟨.publish val slot,c,f⟩) :
    Stored (evs++[.pushed i slot val])
      {s with readyq := s.readyq++[slot],sender := update s.sender i ⟨.notify val,c,f⟩} := by
  obtain ⟨published,ready⟩ := stored.unread_kept (e:=.pushed i slot val) (by simp [Event.reads])
  obtain ⟨written,unread⟩ := published i val slot (by rw [here])
  obtain ⟨pushed,received,discarded⟩ := values_snoc evs (.pushed i slot val)
  refine ⟨?_,?_,?_,fun _ => stored.draining_kept,fun alive => ?_,stored.begun_kept rfl,?_⟩
  · exact fun j w k point => published j w k (update_published (by simp) j w k point)
  · intro k member
    rcases List.mem_append.mp member with member | member
    · exact ready k member
    · obtain rfl := List.mem_singleton.mp member
      exact ⟨by simp [written],unread⟩
  · intro k reads
    have before := stored.reading k reads
    exact ⟨before.1,unread_other before.2 rfl⟩
  · rw [pushed,received,stored.order alive]
    simp [Event.push,Event.receive,written]
  · rw [pushed,received,discarded]
    have more := stored.conserved.append_right [some val]
    refine (by simpa [Event.push] using more : List.Perm _ _).trans ?_
    have last := perm_last ((receivedValues evs).map some++s.receiver.inFlight s.slots++s.readyq.map s.slots) []
      ((discardedValues evs).map some) (some val)
    simpa [Event.receive,Event.discard,written] using last.symm

theorem Stored.popped (stored : Stored evs s) {origin : Option Waker} {slot : Nat} {q : List Nat}
    (here : s.receiver = .pop origin) (front : s.readyq = slot::q) :
    Stored (evs++[.popped slot]) {s with readyq := q,receiver := .read origin slot} := by
  obtain ⟨published,ready⟩ := stored.unread_kept (e:=.popped slot) (by simp [Event.reads])
  obtain ⟨pushed,received,discarded⟩ := values_snoc evs (.popped slot)
  have order := stored.order (by rw [here]; rfl)
  have conserved := stored.conserved
  simp only [here,front,ReceiverPoint.inFlight,List.map_cons] at order conserved
  refine ⟨published,?_,?_,by simp,fun _ => ?_,stored.begun_kept rfl,?_⟩
  · exact fun k member => ready k (by rw [front]; exact List.mem_cons_of_mem _ member)
  · intro k reads
    cases reads
    exact ready slot (by rw [front]; exact List.mem_cons_self)
  · rw [pushed,received]
    simpa [Event.push,Event.receive,ReceiverPoint.inFlight] using order
  · rw [pushed,received,discarded]
    simpa [Event.push,Event.receive,Event.discard,ReceiverPoint.inFlight] using conserved

theorem Stored.received (stored : Stored evs s) {origin : Option Waker} {slot : Nat} {val : T}
    {handed : Option (Nat × Waker)} {u : State (List Nat) T} (here : s.receiver = .giveBack origin slot val)
    (returned : returnFreeSlot (listApi N) s slot = some (handed,u)) :
    Stored (evs++[.received slot val handed]) {u with receiver := .idle} := by
  obtain ⟨_,_,_,rest⟩ := returnFreeSlot_rest returned
  have readyq : u.readyq = s.readyq := by rw [rest]
  have slots : u.slots = s.slots := by rw [rest]
  obtain ⟨published,ready⟩ := stored.unread_kept (e:=.received slot val handed) (by simp [Event.reads])
  obtain ⟨pushed,received,discarded⟩ := values_snoc evs (.received slot val handed)
  have order := stored.order (by rw [here]; rfl)
  have conserved := stored.conserved
  simp only [here,ReceiverPoint.inFlight] at order conserved
  have returnedNow : (pushedValues (evs++[.received slot val handed])).map some =
      (receivedValues (evs++[.received slot val handed])).map some++s.readyq.map s.slots := by
    rw [pushed,received]
    simpa [Event.push,Event.receive] using order
  refine ⟨?_,?_,by simp [ReceiverPoint.reads],by simp,fun _ => ?_,?_,?_⟩
  · intro i w k point
    have before := published i w k (by rw [← returnFreeSlot_points returned]; exact point)
    exact ⟨by simpa only [slots] using before.1,before.2⟩
  · intro k member
    have before := ready k (by rw [← readyq]; exact member)
    exact ⟨by simpa only [slots] using before.1,before.2⟩
  · simpa [ReceiverPoint.inFlight,readyq,slots] using returnedNow
  · have some_ : Injective (some : T → Option T) := fun _ _ => Option.some.inj
    refine (List.prefix_map_iff_of_injective some_).mp ?_
    rw [returnedNow]
    exact List.prefix_append _ _
  · rw [pushed,received,discarded]
    simpa [Event.push,Event.receive,Event.discard,ReceiverPoint.inFlight,readyq,slots] using conserved

theorem Stored.drained (stored : Stored evs s) {slot : Nat} {q : List Nat} (here : s.receiver = .drain)
    (back : s.readyq = q++[slot]) : Stored (evs++[.drained slot]) {s with readyq := q,receiver := .drainRead slot} := by
  obtain ⟨published,ready⟩ := stored.unread_kept (e:=.drained slot) (by simp [Event.reads])
  obtain ⟨pushed,received,discarded⟩ := values_snoc evs (.drained slot)
  have conserved := stored.conserved
  simp only [here,back,ReceiverPoint.inFlight,List.map_append,List.map_cons,List.map_nil] at conserved
  refine ⟨published,?_,?_,?_,by simp [ReceiverPoint.alive],stored.begun_kept rfl,?_⟩
  · exact fun k member => ready k (by rw [back]; exact List.mem_append_left _ member)
  · intro k reads
    cases reads
    exact ready slot (by rw [back]; simp)
  · intro k reads
    cases reads
    simp [drainedSlots_snoc,Event.drainedSlot]
  · rw [pushed,received,discarded]
    refine (by simpa [Event.push] using conserved : List.Perm _ _).trans ?_
    have last := perm_last ((receivedValues evs).map some++q.map s.slots) [] ((discardedValues evs).map some)
      (s.slots slot)
    rw [List.append_nil,List.append_nil] at last
    have first := perm_last ((receivedValues evs).map some) (q.map s.slots) ((discardedValues evs).map some)
      (s.slots slot)
    simpa [Event.receive,Event.discard,ReceiverPoint.inFlight] using last.trans first.symm

theorem step_stored (sound : Sound N evs s) (stored : Stored evs s) (taken : Step (listApi N) s e t) :
    Stored (evs++[e]) t := by
  cases taken with
  | sends i here moves =>
    obtain ⟨quiet,points⟩ := local_quiet moves
    exact stored.frame quiet rfl rfl (update_published points) rfl (fun _ => id) id fun _ => rfl
  | tryClaimed here got =>
    exact stored.frame rfl rfl rfl (update_published (by simp)) rfl (fun _ => id) id fun _ => rfl
  | tryFull here got =>
    exact stored.frame rfl rfl rfl (update_published (by simp)) rfl (fun _ => id) id fun _ => rfl
  | claimed here future alive first some_ =>
    exact stored.frame rfl rfl rfl (update_published (by simp)) rfl (fun _ => id) id fun _ => rfl
  | queued here future alive full =>
    exact stored.frame rfl rfl rfl (update_published (by simp)) rfl (fun _ => id) id fun _ => rfl
  | unlinked here queued =>
    exact stored.frame rfl rfl rfl (update_published (by simp)) rfl (fun _ => id) id fun _ => rfl
  | sent here =>
    exact stored.frame rfl rfl rfl (update_published (by simp)) rfl (fun _ => id) id fun _ => rfl
  | cloned here =>
    exact stored.frame rfl rfl rfl (update_published (by simp [idle])) rfl (fun _ => id) id fun _ => rfl
  | senderDropped here =>
    refine stored.frame rfl rfl rfl (update_published ?_) rfl (fun _ => id) id fun _ => rfl
    split <;> simp
  | lastWoke here =>
    exact stored.frame rfl rfl rfl (update_published (by simp)) rfl (fun _ => id) id fun _ => rfl
  | registered here =>
    exact stored.frame rfl rfl rfl (fun _ _ _ => id) (by simp [here,ReceiverPoint.reads]) (by simp)
      (by simp [here,ReceiverPoint.alive]) (by simp [here,ReceiverPoint.inFlight])
  | foundEmpty here got =>
    obtain ⟨before,after⟩ := popFront_nil got
    exact stored.frame rfl rfl (by simp [before,after]) (fun _ _ _ => id) (by simp [here,ReceiverPoint.reads]) (by simp)
      (by simp [here,ReceiverPoint.alive]) (by simp [here,ReceiverPoint.inFlight])
  | closing here =>
    exact stored.frame rfl rfl rfl (fun _ _ _ => id) (by simp [here,ReceiverPoint.reads]) (by simp)
      (by simp [ReceiverPoint.alive]) (by simp [here,ReceiverPoint.inFlight])
  | drainEnded here got =>
    obtain ⟨before,after⟩ := popBack_nil got
    exact stored.frame rfl rfl (by simp [before,after]) (fun _ _ _ => id) (by simp [here,ReceiverPoint.reads]) (by simp)
      (by simp [ReceiverPoint.alive]) (by simp [here,ReceiverPoint.inFlight])
  | unqueued here got =>
    obtain ⟨rest,link,queue,linked,rfl,rfl⟩ := popWaiter_some got
    rename_i j
    refine stored.frame rfl rfl rfl ?_ (by simp [here,ReceiverPoint.reads]) (by simp)
      (by simp [ReceiverPoint.alive]) (by simp [here,ReceiverPoint.inFlight])
    intro i val k point
    by_cases same : i = j
    · subst same
      simpa using point
    · simpa [update_of_ne same] using point
  | gaveBack here returned =>
    obtain ⟨_,_,_,rest⟩ := returnFreeSlot_rest returned
    rename_i slot handed u i val outcome c f
    refine stored.frame rfl (by rw [rest]) (by rw [rest]) ?_ (by rw [rest]) (by rw [rest]; exact fun _ => id)
      (by rw [rest]; exact id) (by rw [rest]; exact fun _ => rfl)
    intro j val k point
    rw [← returnFreeSlot_points returned]
    exact update_published (by simp) j val k point
  | receives here moves =>
    cases quiet : e.quiet with
    | true =>
      obtain ⟨reads,draining,alive,flight⟩ := receiver_local_frame moves quiet
      subst here
      exact stored.frame quiet rfl rfl (fun _ _ _ => id) reads draining alive flight
    | false =>
      cases moves with
      | read written => exact stored.slotRead sound here written
      | discarded written => exact stored.discarded sound here written
      | _ => cases quiet
  | wrote here => exact stored.wrote sound here
  | pushed here => exact stored.pushed here
  | popped here got => exact stored.popped here (popFront_list got)
  | received here returned => exact stored.received here returned
  | drained here got => exact stored.drained here (popBack_list got)

theorem initial_stored : Stored [] (initial (listApi N) N : State (List Nat) T) := by
  constructor
  case published =>
    intro i val k point
    have point : (if i = 0 then idle else gone : Sender T).point = .publish val k := point
    split at point <;> cases point
  case begun => exact List.prefix_rfl
  all_goals simp [opened,Channel.split,Channel.new,listApi,ReceiverPoint.reads,ReceiverPoint.inFlight,pushedValues,
    pushes,receivedValues,discardedValues]
end

theorem step_alive {D : Type} {api : Deque D} {s t : State D T} {e : Event T} (taken : Step api s e t)
    (alive : t.receiver.alive = true) : s.receiver.alive = true ∧ e.drainedSlot = none := by
  cases taken with
  | sends i here moves => exact ⟨alive,local_drains_nothing moves⟩
  | receives here moves =>
    have drains := (receiver_local_slots moves 0).2
    rw [here]
    refine ⟨?_,drains⟩
    cases moves with
    | polled future => rcases awaiting_cases future with rfl | ⟨waker,rfl⟩ <;> rfl
    | recvDropped future => rcases awaiting_cases future with rfl | ⟨waker,rfl⟩ <;> rfl
    | discarded written => cases alive
    | wokeWaiter => cases alive
    | dropped empty => cases alive
    | _ => rfl
  | gaveBack here returned =>
    obtain ⟨_,_,_,rfl⟩ := returnFreeSlot_rest returned
    exact ⟨alive,rfl⟩
  | registered here => exact ⟨by rw [here]; rfl,rfl⟩
  | popped here got => exact ⟨by rw [here]; rfl,rfl⟩
  | foundEmpty here got => exact ⟨by rw [here]; rfl,rfl⟩
  | received here returned => exact ⟨by rw [here]; rfl,rfl⟩
  | closing here => cases alive
  | drained here got => cases alive
  | drainEnded here got => cases alive
  | unqueued here got => cases alive
  | _ => exact ⟨alive,rfl⟩

structure Valid (N : Nat) (evs : List (Event T)) (s : State (List Nat) T) : Prop where
  sound : Sound N evs s
  stored : Stored evs s
  undrained : s.receiver.alive = true → drainedSlots evs = []

theorem initial_valid :
    Valid N [] (initial (listApi N) N : State (List Nat) T) :=
  ⟨initial_sound,initial_stored,fun _ => rfl⟩

theorem step_valid {evs : List (Event T)} {s t : State (List Nat) T} {e : Event T} (valid : Valid N evs s)
    (taken : Step (listApi N) s e t) : Valid N (evs++[e]) t := by
  refine ⟨step_sound valid.sound taken,step_stored valid.sound valid.stored taken,fun alive => ?_⟩
  obtain ⟨before,drains⟩ := step_alive taken alive
  rw [drainedSlots_snoc,valid.undrained before,drains]
  rfl

end Rtic.Sync.Channel
