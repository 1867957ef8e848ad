import Rtic.Library.StableOrder
import Rtic.Time.TimerQueue
namespace Rtic.Time.PriorityList
open Rtic.Common Transition StableOrder TimerQueue TimerQueueTicks

-- A closure of pop_if is given the head by reference: all it can store to is was_popped.
def storing (f : WaitingWaker → Bool × Bool) (head : WaitingWaker) : Bool × WaitingWaker :=
  ((f head).1,{head with wasPopped := (f head).2})

inductive Event where
  | inserted (i : Nat) (val : WaitingWaker) (headUpdated : Bool)
  | popIf (f : WaitingWaker → Bool × Bool) (popped : Option (Nat × WaitingWaker × Bool))
  | deleted (addr : Nat)

-- Operations on one list, in any order. A fresh link is a new one at an address that is not in the
-- list, with an instant in the window of those that are.
inductive Step (w : Nat) : LinkedList WaitingWaker → Event → LinkedList WaitingWaker → Prop where
  | inserted (fresh : ¬s.reachable i)
      (near : ∀ j other, s.reachable j → s.value j = some other → Near w val.releaseAt other.releaseAt)
      (result : (s.place i val).insert (WaitingWaker.lt w) fuel i = some (headUpdated,next)) :
      Step w s (.inserted i val headUpdated) next
  | popIf (result : s.popIf (storing f) = some (popped,next)) : Step w s (.popIf f popped) next
  | deleted (result : s.delete fuel addr = some next) : Step w s (.deleted addr) next

-- What was inserted at an address.
structure Entry where
  addr : Nat
  waker : Waker
  releaseAt : Int
  deriving DecidableEq, Repr

def Entry.of (i : Nat) (val : WaitingWaker) : Entry := ⟨i,val.waker,val.releaseAt⟩

def without (entries : List Entry) (addr : Nat) : List Entry := entries.filter fun e => e.addr ≠ addr

def next (entries : List Entry) : Event → List Entry
  | .inserted i val _ => entries++[.of i val]
  | .popIf _ (some (i,_,true)) => without entries i
  | .popIf _ _ => entries
  | .deleted addr => without entries addr

-- What was inserted and has not been removed, in the order of the insertions.
def live (evs : List Event) : List Entry := evs.foldl next []

-- The list: its links in order, each with what was inserted there.
structure Queue (s : LinkedList WaitingWaker) (line l : List Entry) : Prop where
  holds : s.Holds (l.map Entry.addr)
  values : ∀ e ∈ l, ∃ wasPopped, s.value e.addr = some ⟨e.waker,e.releaseAt,wasPopped⟩
  sorts : Sorts Entry.releaseAt line l

-- What an operation on a list of these links does to it, and what it answers.
def Effect (s : LinkedList WaitingWaker) (l : List Entry) (t : LinkedList WaitingWaker) (l' : List Entry) : Event → Prop
  | .inserted i val headUpdated =>
    l'.Perm (.of i val::l) ∧ (headUpdated = true ↔ t.head = some i) ∧ (headUpdated = false → t.head = s.head)
  | .popIf f popped => match l with
    | [] => popped = none ∧ l' = []
    | e::rest => ∃ wasPopped,
      let head : WaitingWaker := ⟨e.waker,e.releaseAt,wasPopped⟩
      popped = some (e.addr,{head with wasPopped := (f head).2},(f head).1) ∧
        l' = if (f head).1 then rest else e::rest
  | .deleted addr => l' = without l addr ∧ (addr ∉ l.map Entry.addr → t = s)

-- Every operation returns, with fuel for the length of the list.
structure Returns (w : Nat) (s : LinkedList WaitingWaker) (l : List Entry) : Prop where
  insert : ∀ i val fuel, ¬s.reachable i → l.length ≤ fuel →
    ∃ result, (s.place i val).insert (WaitingWaker.lt w) fuel i = some result
  popIf : ∀ f, ∃ result, s.popIf (storing f) = some result
  delete : ∀ addr fuel, l.length ≤ fuel → ∃ next, s.delete fuel addr = some next

section
variable {w : Nat} {evs : List Event} {s t : LinkedList WaitingWaker} {line l : List Entry} {e : Event} {i addr fuel : Nat}
  {val : WaitingWaker} {headUpdated : Bool}

theorem live_snoc : live (evs++[e]) = next (live evs) e := by
  unfold live
  rw [List.foldl_append]
  rfl

theorem without_of_absent (absent : addr ∉ l.map Entry.addr) : without l addr = l :=
  List.filter_eq_self.mpr fun _ member =>
    decide_eq_true fun same => absent (same ▸ List.mem_map_of_mem member)

theorem without_map (nodup : (l.map Entry.addr).Nodup) :
    (without l addr).map Entry.addr = (l.map Entry.addr).erase addr := by
  rw [nodup.erase_eq_filter,List.filter_map]
  refine congrArg _ (List.filter_congr fun entry _ => ?_)
  by_cases same : entry.addr = addr <;> simp [same]

theorem without_head {e : Entry} {rest : List Entry} (nodup : ((e::rest).map Entry.addr).Nodup) :
    without (e::rest) e.addr = rest := by
  obtain ⟨absent,_⟩ := List.nodup_cons.mp nodup
  unfold without
  rw [List.filter_cons_of_neg (by simp)]
  exact without_of_absent absent

theorem Queue.nodup (queue : Queue s line l) : (l.map Entry.addr).Nodup := queue.holds.nodup

theorem Queue.reachable_iff (queue : Queue s line l) : s.reachable i ↔ i ∈ l.map Entry.addr := queue.holds.reachable_iff

-- A fresh link lies in memory, and the list is as it was.
theorem Queue.placed (queue : Queue s line l) (fresh : ¬s.reachable i) : Queue (s.place i val) line l := by
  have out : i ∉ l.map Entry.addr := mt queue.reachable_iff.mpr fresh
  have same : ∀ j, j ≠ i → (s.place i val).link j = s.link j := fun j other => Function.update_of_ne other _ _
  refine ⟨queue.holds.outside out same rfl,fun e member => ?_,queue.sorts⟩
  have other : e.addr ≠ i := fun equal => out (equal ▸ List.mem_map_of_mem member)
  unfold LinkedList.value
  rw [same _ other]
  exact queue.values e member

-- The order of the code puts the new link where the order of the instants does.
theorem addr_insert {order : Nat → Nat → Prop} [DecidableRel order]
    (same : ∀ e ∈ l, order i e.addr ↔ val.releaseAt < e.releaseAt) :
    (l.map Entry.addr).orderedInsert order i =
      (l.orderedInsert (fun a b => a.releaseAt < b.releaseAt) (.of i val)).map Entry.addr := by
  induction l with
  | nil => rfl
  | cons e l ih =>
    have here := same e List.mem_cons_self
    rw [List.map_cons,List.orderedInsert_cons,List.orderedInsert_cons]
    by_cases before : val.releaseAt < e.releaseAt
    · rw [if_pos (here.mpr before),if_pos (show (Entry.of i val).releaseAt < e.releaseAt from before)]
      rfl
    · rw [if_neg (mt here.mp before),if_neg (show ¬(Entry.of i val).releaseAt < e.releaseAt from before),List.map_cons,
        ih fun e member => same e (List.mem_cons_of_mem _ member)]

theorem Queue.precedes (queue : Queue s line l) (fresh : ¬s.reachable i)
    (near : ∀ j other, s.reachable j → s.value j = some other → Near w val.releaseAt other.releaseAt) :
    ∀ e ∈ l, (s.place i val).precedes (WaitingWaker.lt w) i e.addr = true ↔ val.releaseAt < e.releaseAt := by
  intro e member
  obtain ⟨wasPopped,at_⟩ := queue.values e member
  have placed : Queue (s.place i val) line l := queue.placed fresh
  obtain ⟨wasPopped',at_'⟩ := placed.values e member
  have new : (s.place i val).value i = some val := by simp [LinkedList.value,LinkedList.place]
  have close := near _ _ (queue.reachable_iff.mpr (List.mem_map_of_mem member)) at_
  simp only [LinkedList.precedes,new,at_']
  exact lt_iff close

theorem Queue.insert (queue : Queue s line l) (fresh : ¬s.reachable i)
    (near : ∀ j other, s.reachable j → s.value j = some other → Near w val.releaseAt other.releaseAt)
    (result : (s.place i val).insert (WaitingWaker.lt w) fuel i = some (headUpdated,t)) :
    ∃ l', Queue t (line++[.of i val]) l' ∧ Effect s l t l' (.inserted i val headUpdated) := by
  have placed : Queue (s.place i val) line l := queue.placed fresh
  have out : i ∉ l.map Entry.addr := mt queue.reachable_iff.mpr fresh
  have new : (s.place i val).link i = some ⟨val,none⟩ := Function.update_self ..
  have inserted := LinkedList.insert_holds placed.holds new out result
  have holds := inserted.holds
  rw [addr_insert (queue.precedes fresh near)] at holds
  have updated := inserted.updated
  refine ⟨_,⟨holds,fun e member => ?_,queue.sorts.insert⟩,List.perm_orderedInsert _ _ _,?_,?_⟩
  · rw [inserted.value]
    rcases (List.mem_orderedInsert _).mp member with rfl | old
    · exact ⟨val.wasPopped,by simp [LinkedList.value,new,Entry.of]⟩
    · exact placed.values e old
  · cases headUpdated with
    | true => exact ⟨fun _ => updated,fun _ => rfl⟩
    | false =>
      -- The head is one of those that were there.
      refine ⟨fun inserted => absurd inserted Bool.false_ne_true,fun head => absurd ?_ out⟩
      have old : some i = (l.map Entry.addr).head? := by
        rw [← queue.holds.head_eq,← head]
        exact updated.1
      exact List.mem_of_head? old.symm
  · rintro rfl
    exact updated.1

theorem Queue.popIf {f : WaitingWaker → Bool × Bool} {popped : Option (Nat × WaitingWaker × Bool)} (queue : Queue s line l)
    (result : s.popIf (storing f) = some (popped,t)) :
    ∃ l', Queue t (next line (.popIf f popped)) l' ∧ Effect s l t l' (.popIf f popped) := by
  rcases LinkedList.popIf_cases queue.holds result with ⟨empty,rfl,rfl⟩ | ⟨i,rest,link,split,head,rfl,same,holds⟩
  · obtain rfl := List.map_eq_nil_iff.mp empty
    exact ⟨[],queue,rfl,rfl⟩
  · obtain ⟨e,rest,rfl,rfl,rfl⟩ := List.map_eq_cons_iff.mp split
    obtain ⟨wasPopped,at_⟩ := queue.values e List.mem_cons_self
    have val : link.val = ⟨e.waker,e.releaseAt,wasPopped⟩ := by simpa [LinkedList.value,head] using at_
    -- The store to was_popped leaves what was inserted.
    have values : ∀ other ∈ e::rest, ∃ wasPopped, t.value other.addr = some ⟨other.waker,other.releaseAt,wasPopped⟩ := by
      intro other member
      by_cases here : other.addr = e.addr
      · have equal : other = e := List.inj_on_of_nodup_map queue.nodup member List.mem_cons_self here
        subst equal
        exact ⟨(f link.val).2,by simp [same,LinkedList.value,storing,val]⟩
      · obtain ⟨wasPopped,at_⟩ := queue.values other member
        refine ⟨wasPopped,?_⟩
        rw [← at_]
        simp [same,LinkedList.value,Function.update_of_ne here]
    have accepts : (storing f link.val).1 = (f link.val).1 := rfl
    rw [accepts] at holds
    refine ⟨if (f link.val).1 then rest else e::rest,?_,wasPopped,?_,?_⟩
    · cases accepted : (f link.val).1 with
      | true =>
        rw [accepted] at holds
        have line_ : next line (.popIf f (some (e.addr,(storing f link.val).2,(storing f link.val).1))) =
            without line e.addr := by
          rw [accepts,accepted]
          rfl
        have sorts := queue.sorts.filter fun other => other.addr ≠ e.addr
        rw [show List.filter _ (e::rest) = rest from without_head queue.nodup] at sorts
        rw [line_]
        exact ⟨holds,fun other member => values other (List.mem_cons_of_mem _ member),sorts⟩
      | false =>
        rw [accepted] at holds
        have line_ : next line (.popIf f (some (e.addr,(storing f link.val).2,(storing f link.val).1))) = line := by
          rw [accepts,accepted]
          rfl
        rw [line_]
        exact ⟨holds,values,queue.sorts⟩
    · rw [val]
      rfl
    · rw [val]

theorem Queue.delete (queue : Queue s line l) (result : s.delete fuel addr = some t) :
    Queue t (without line addr) (without l addr) := by
  obtain ⟨holds,values,_⟩ := LinkedList.delete_holds queue.holds result
  refine ⟨by rwa [without_map queue.nodup],fun e member => ?_,queue.sorts.filter _⟩
  rw [values]
  exact queue.values e (List.mem_of_mem_filter member)

-- One operation.
theorem Queue.step (queue : Queue s line l) (taken : Step w s e t) :
    ∃ l', Queue t (next line e) l' ∧ Effect s l t l' e := by
  cases taken with
  | inserted fresh near result => exact queue.insert fresh near result
  | popIf result => exact queue.popIf result
  | deleted result => exact ⟨_,queue.delete result,rfl,fun absent => LinkedList.delete_absent queue.holds absent result⟩

theorem Queue.returns (queue : Queue s line l) : Returns w s l := by
  have length : (l.map Entry.addr).length = l.length := List.length_map _
  constructor
  case insert =>
    intro i val fuel fresh enough
    have out : i ∉ l.map Entry.addr := mt queue.reachable_iff.mpr fresh
    exact LinkedList.insert_returns (queue.placed fresh).holds (Function.update_self ..) out (by omega)
  case popIf => exact fun f => LinkedList.popIf_returns queue.holds
  case delete => exact fun addr fuel enough => LinkedList.delete_returns queue.holds (by omega)

end

-- Over every sequence of operations the list is a stable priority queue.
theorem stable_queue {w : Nat} {s : LinkedList WaitingWaker} (run : Run (Step w) LinkedList.new s) :
    run.Through (fun evs s => ∃ l, Queue s (live evs) l ∧ (l.map Entry.addr).Nodup ∧ Returns w s l) ∧
      run.Every fun evs s e t =>
        ∃ l l', Queue s (live evs) l ∧ Queue t (live (evs++[e])) l' ∧ Effect s l t l' e := by
  have base : ∃ l, Queue LinkedList.new (live []) l := ⟨[],rfl,nofun,.nil⟩
  have preserved : ∀ {evs s e t}, (∃ l, Queue s (live evs) l) → Step w s e t → ∃ l, Queue t (live (evs++[e])) l := by
    rintro evs s e t ⟨l,queue⟩ taken
    obtain ⟨l',queue',_⟩ := queue.step taken
    exact ⟨l',live_snoc ▸ queue'⟩
  constructor
  · refine run.through_of (fun evs s => ∃ l, Queue s (live evs) l) base (fun queue taken _ => preserved queue taken) ?_
      run.every_true
    rintro evs s ⟨l,queue⟩
    exact ⟨l,queue,queue.nodup,queue.returns⟩
  · refine run.every (fun evs s => ∃ l, Queue s (live evs) l) base preserved ?_
    rintro evs s e t ⟨l,queue⟩ taken
    obtain ⟨l',queue',effect⟩ := queue.step taken
    exact ⟨l,l',queue,live_snoc ▸ queue',effect⟩

end Rtic.Time.PriorityList
