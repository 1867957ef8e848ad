import Rtic.Common.WaitQueue
import Rtic.Library.Chain
namespace Rtic.Common.Pointers
open Function Chain
variable {T : Type}

-- Link<T>; a pointer is an address, null is none.
structure Link (T : Type) where
  val : T
  next : Option Nat
  prev : Option Nat
  isPopped : Bool
  deriving DecidableEq, Repr

def Link.new (val : T) : Link T := ⟨val,none,none,false⟩

-- DoublyLinkedList<T>, and what lies at each address.
structure DoublyLinkedList (T : Type) where
  head : Option Nat
  tail : Option Nat
  link : Nat → Option (Link T)

namespace DoublyLinkedList

def new : DoublyLinkedList T := ⟨none,none,fun _ => none⟩

-- Writes to the fields of the link at `i`. Where there is none it is none, as for every access below.
def store (self : DoublyLinkedList T) (i : Nat) (fields : Link T → Link T) : Option (DoublyLinkedList T) :=
  (self.link i).map fun link => {self with link := update self.link i (some (fields link))}

def pop (self : DoublyLinkedList T) : Option (Option T × DoublyLinkedList T) :=
  match self.head with
  | some head => do
    let headRef ← self.link head
    let self := {self with head := headRef.next}
    let self := if some head = self.tail then {self with tail := none} else self
    let self ← match headRef.next with
      | some next => self.store next fun link => {link with prev := none}
      | none => some self
    let self ← self.store head fun link => {link with next := none,prev := none,isPopped := true}
    some (some headRef.val,self)
  | none => some (none,self)

def push (self : DoublyLinkedList T) (i : Nat) : Option (DoublyLinkedList T) :=
  match self.tail with
  | some tail => do
    let self ← self.store i fun link => {link with prev := some tail}
    let self := {self with tail := some i}
    self.store tail fun link => {link with next := some i}
  | none => some {self with tail := some i,head := some i}

def isEmpty (self : DoublyLinkedList T) : Bool := self.head.isNone

def isPopped (self : DoublyLinkedList T) (i : Nat) : Option Bool := (self.link i).map Link.isPopped

def removeFromList (self : DoublyLinkedList T) (i : Nat) : Option (DoublyLinkedList T) := do
  let link ← self.link i
  if link.isPopped then some self
  else
    let self ← self.store i fun link => {link with isPopped := true}
    match link.prev,link.next with
    | none,none => some (if some i = self.head then {self with head := none,tail := none} else self)
    | none,some next => do
      let self ← self.store next fun nextRef => {nextRef with prev := none}
      some {self with head := some next}
    | some prev,none => do
      let self ← self.store prev fun prevRef => {prevRef with next := none}
      some {self with tail := some prev}
    | some prev,some next => do
      let self ← self.store prev fun prevRef => {prevRef with next := some next}
      self.store next fun nextRef => {nextRef with prev := some prev}

def next (self : DoublyLinkedList T) (i : Nat) : Option (Option Nat) := (self.link i).map Link.next
def prev (self : DoublyLinkedList T) (i : Nat) : Option (Option Nat) := (self.link i).map Link.prev

end DoublyLinkedList

-- The operations on one list and its links. A link is made at a free address and may be dropped
-- while it is not in the list.
inductive Operation (T : Type) where
  | make (i : Nat) (val : T)
  | push (i : Nat)
  | pop
  | removeFromList (i : Nat)
  | isEmpty
  | isPopped (i : Nat)
  | drop (i : Nat)
  deriving DecidableEq, Repr

inductive Answer (T : Type) where
  | done
  | value (val : Option T)
  | flag (value : Bool)
  deriving DecidableEq, Repr

def DoublyLinkedList.apply (self : DoublyLinkedList T) : Operation T → Option (Answer T × DoublyLinkedList T)
  | .make i val => some (.done,{self with link := update self.link i (some (Link.new val))})
  | .push i => (self.push i).map (.done,·)
  | .pop => self.pop.map fun popped => (.value popped.1,popped.2)
  | .removeFromList i => (self.removeFromList i).map (.done,·)
  | .isEmpty => some (.flag self.isEmpty,self)
  | .isPopped i => (self.isPopped i).map (.flag ·,self)
  | .drop i => some (.done,{self with link := update self.link i none})

inductive Place where
  | made
  | queued
  | out
  deriving DecidableEq, Repr

-- What the list is for: a sequence of links with their values, and where each live link is.
structure Fifo (T : Type) where
  seq : List (Nat × T)
  link : Nat → Option (T × Place)

namespace Fifo

def new : Fifo T := ⟨[],fun _ => none⟩

def ids (self : Fifo T) : List Nat := self.seq.map Prod.fst

-- none where the contract forbids the operation: a link is pushed once, as it was made, and lives
-- as long as it is queued.
def apply (self : Fifo T) : Operation T → Option (Answer T × Fifo T)
  | .make i val => match self.link i with
    | none => some (.done,{self with link := update self.link i (some (val,.made))})
    | some _ => none
  | .push i => match self.link i with
    | some (val,.made) => some (.done,⟨self.seq++[(i,val)],update self.link i (some (val,.queued))⟩)
    | _ => none
  | .pop => match self.seq with
    | [] => some (.value none,self)
    | (i,val)::rest => some (.value (some val),⟨rest,update self.link i (some (val,.out))⟩)
  | .removeFromList i => match self.link i with
    | some (val,_) =>
      some (.done,⟨self.seq.filter fun entry => entry.1 ≠ i,update self.link i (some (val,.out))⟩)
    | none => none
  | .isEmpty => some (.flag self.seq.isEmpty,self)
  | .isPopped i => match self.link i with
    | some (_,place) => some (.flag (place = .out),self)
    | none => none
  | .drop i => match self.link i with
    | some (_,.queued) | none => none
    | some _ => some (.done,{self with link := update self.link i none})

end Fifo

-- A run of operations, with all answers.
def answers {S : Type} (apply : S → Operation T → Option (Answer T × S)) : S → List (Operation T) →
    Option (List (Answer T) × S)
  | s,[] => some ([],s)
  | s,operation::rest => (apply s operation).bind fun first =>
    (answers apply first.2 rest).map fun later => (first.1::later.1,later.2)

-- The link at an address, against where it is.
def Matches : Option (Link T) → Option (T × Place) → Prop
  | none,none => True
  | some link,some (val,.made) => link = Link.new val
  | some link,some (val,.queued) => link.val = val ∧ link.isPopped = false
  | some link,some (val,.out) => link.val = val ∧ link.isPopped = true
  | _,_ => False

structure Represents (list : DoublyLinkedList T) (fifo : Fifo T) : Prop where
  forwards : Chain.Linked list.next list.head fifo.ids
  backwards : Chain.Linked list.prev list.tail fifo.ids.reverse
  empty : list.head = none ↔ list.tail = none
  links : ∀ i, Matches (list.link i) (fifo.link i)
  queued : ∀ i val, (i,val) ∈ fifo.seq ↔ fifo.link i = some (val,.queued)

section
variable {list list' : DoublyLinkedList T} {fifo fifo' : Fifo T} {i : Nat} {val : T} {l r : List Nat}

theorem Represents.mem_ids (rep : Represents list fifo) : i ∈ fifo.ids ↔ ∃ val, fifo.link i = some (val,.queued) := by
  unfold Fifo.ids
  simp [rep.queued]

theorem Represents.live (rep : Represents list fifo) {place : Place} (at_ : fifo.link i = some (val,place)) :
    ∃ link, list.link i = some link ∧ link.val = val ∧ link.isPopped = decide (place = .out) := by
  have holds := rep.links i
  rw [at_] at holds
  cases found : list.link i with
  | none =>
    rw [found] at holds
    exact holds.elim
  | some link =>
    rw [found] at holds
    cases place with
    | made =>
      cases holds
      exact ⟨_,rfl,rfl,rfl⟩
    | queued => exact ⟨link,rfl,holds⟩
    | out => exact ⟨link,rfl,holds⟩

theorem Represents.found (rep : Represents list fifo) (member : i ∈ fifo.ids) :
    ∃ link, list.link i = some link ∧ link.isPopped = false := by
  obtain ⟨val,place⟩ := rep.mem_ids.mp member
  obtain ⟨link,at_,_,alive⟩ := rep.live place
  exact ⟨link,at_,alive⟩

theorem Represents.head_eq (rep : Represents list fifo) : list.head = fifo.ids.head? := rep.forwards.head_eq
theorem Represents.tail_eq (rep : Represents list fifo) : list.tail = fifo.ids.getLast? := by
  rw [rep.backwards.head_eq,List.head?_reverse]

theorem ends_null {ids : List Nat} : ids.head? = none ↔ ids.getLast? = none := by
  rw [List.head?_eq_none_iff,List.getLast?_eq_none_iff]

-- What taking out the link between l and r does to the links.
structure Removed (list list' : DoublyLinkedList T) (l : List Nat) (i : Nat) (r : List Nat) : Prop where
  head : list'.head = (l++r).head?
  tail : list'.tail = (l++r).getLast?
  own : ∀ link, list.link i = some link → ∃ link', list'.link i = some link' ∧ link'.val = link.val ∧ link'.isPopped = true
  others : ∀ j, j ≠ i → list'.link j = (list.link j).map fun link =>
    {link with
      next := if l.getLast? = some j then r.head? else link.next
      prev := if r.head? = some j then l.getLast? else link.prev}

theorem filter_ids {seq : List (Nat × T)} : (seq.filter fun entry => entry.1 ≠ i).map Prod.fst =
    (seq.map Prod.fst).filter (· ≠ i) := by
  rw [List.filter_map]
  rfl

theorem without (distinct : (l++i::r).Nodup) : (l++i::r).filter (· ≠ i) = l++r := by
  obtain ⟨_,right,apart⟩ := List.nodup_append.mp distinct
  have before : l.filter (· ≠ i) = l := List.filter_eq_self.mpr fun j member => by
    simpa using apart j member i List.mem_cons_self
  have after : r.filter (· ≠ i) = r := List.filter_eq_self.mpr fun j member => by
    have absent : j ≠ i := fun same => (List.nodup_cons.mp right).1 (same ▸ member)
    simpa using absent
  rw [List.filter_append,List.filter_cons_of_neg (by simp),before,after]

theorem Removed.next_eq (removed : Removed list list' l i r) {j : Nat} (other : j ≠ i) :
    list'.next j = if l.getLast? = some j then (list.next j).map fun _ => r.head? else list.next j := by
  unfold DoublyLinkedList.next
  rw [removed.others j other]
  by_cases last : l.getLast? = some j <;> cases list.link j <;> simp [last]

theorem Removed.prev_eq (removed : Removed list list' l i r) {j : Nat} (other : j ≠ i) :
    list'.prev j = if r.head? = some j then (list.prev j).map fun _ => l.getLast? else list.prev j := by
  unfold DoublyLinkedList.prev
  rw [removed.others j other]
  by_cases first : r.head? = some j <;> cases list.link j <;> simp [first]

theorem Represents.around (rep : Represents list fifo) (split : fifo.ids = l++i::r) {j : Nat} (member : j ∈ l++r) :
    j ≠ i ∧ ∃ link, list.link j = some link := by
  have distinct := rep.forwards.nodup
  rw [split] at distinct
  have other : j ≠ i := by
    rw [← without distinct] at member
    simpa using (List.mem_filter.mp member).2
  have inside : j ∈ fifo.ids := by
    rw [split]
    simp only [List.mem_append,List.mem_cons] at member ⊢
    exact member.imp_right Or.inr
  obtain ⟨link,at_,_⟩ := rep.found inside
  exact ⟨other,link,at_⟩

theorem Removed.forwards (removed : Removed list list' l i r) (rep : Represents list fifo) (split : fifo.ids = l++i::r) :
    Chain.Linked list'.next list'.head (l++r) := by
  have forwards := rep.forwards
  rw [split] at forwards
  refine forwards.remove removed.head ?_ ?_
  · intro p last
    obtain ⟨other,link,at_⟩ := rep.around split (List.mem_append_left _ (List.mem_of_getLast? last))
    rw [removed.next_eq other,if_pos last]
    simp [DoublyLinkedList.next,at_]
  · intro j member apart
    rw [removed.next_eq (rep.around split member).1,if_neg apart]

theorem Removed.backwards (removed : Removed list list' l i r) (rep : Represents list fifo)
    (split : fifo.ids = l++i::r) : Chain.Linked list'.prev list'.tail (l++r).reverse := by
  have backwards := rep.backwards
  rw [split,List.reverse_append,List.reverse_cons,List.append_assoc,List.singleton_append] at backwards
  rw [List.reverse_append]
  refine backwards.remove ?_ ?_ ?_
  · rw [removed.tail,← List.head?_reverse,List.reverse_append]
  · intro p last
    rw [List.getLast?_reverse] at last
    obtain ⟨other,link,at_⟩ := rep.around split (List.mem_append_right _ (List.mem_of_head? last))
    rw [removed.prev_eq other,if_pos last,List.head?_reverse]
    simp [DoublyLinkedList.prev,at_]
  · intro j member apart
    rw [List.getLast?_reverse] at apart
    rw [← List.reverse_append,List.mem_reverse] at member
    rw [removed.prev_eq (rep.around split member).1,if_neg apart]

-- The other links keep their values and marks, and those outside the list keep their pointers as well.
theorem Removed.other_matches (removed : Removed list list' l i r) (rep : Represents list fifo)
    (split : fifo.ids = l++i::r) {j : Nat} (other : j ≠ i) : Matches (list'.link j) (fifo.link j) := by
  have holds := rep.links j
  rw [removed.others j other]
  cases at_ : list.link j with
  | none =>
    rw [at_] at holds
    exact holds
  | some link =>
    rw [at_] at holds
    rcases entry : fifo.link j with _ | ⟨v,_ | _ | _⟩
    · rw [entry] at holds
      exact holds.elim
    · have outside : j ∉ fifo.ids := fun member => by
        obtain ⟨_,queued⟩ := rep.mem_ids.mp member
        rw [entry] at queued
        cases queued
      rw [entry] at holds
      rw [split,List.mem_append,List.mem_cons] at outside
      push Not at outside
      have last : l.getLast? ≠ some j := fun last => outside.1 (List.mem_of_getLast? last)
      have first : r.head? ≠ some j := fun first => outside.2.2 (List.mem_of_head? first)
      simpa [last,first] using holds
    · rw [entry] at holds
      exact holds
    · rw [entry] at holds
      exact holds

theorem Removed.represents (removed : Removed list list' l i r) (rep : Represents list fifo) (split : fifo.ids = l++i::r)
    (place : fifo.link i = some (val,.queued)) :
    Represents list' ⟨fifo.seq.filter fun entry => entry.1 ≠ i,update fifo.link i (some (val,.out))⟩ := by
  have distinct := rep.forwards.nodup
  rw [split] at distinct
  have ids : (Fifo.ids ⟨fifo.seq.filter fun entry => entry.1 ≠ i,update fifo.link i (some (val,.out))⟩) = l++r := by
    rw [← without distinct,← split]
    exact filter_ids
  constructor
  case forwards =>
    rw [ids]
    exact removed.forwards rep split
  case backwards =>
    rw [ids]
    exact removed.backwards rep split
  case empty => rw [removed.head,removed.tail,ends_null]
  case links =>
    intro j
    by_cases same : j = i
    · subst same
      obtain ⟨link,at_,value,_⟩ := rep.live place
      obtain ⟨link',at_',kept,popped⟩ := removed.own link at_
      simp only [update_self]
      rw [at_']
      exact ⟨kept.trans value,popped⟩
    · simp only [update_of_ne same]
      exact removed.other_matches rep split same
  case queued =>
    intro j v
    simp only [List.mem_filter,rep.queued j v]
    by_cases same : j = i
    · subst same
      simp
    · simp [same]

-- A queued link with what it points at.
theorem Represents.queued_link (rep : Represents list fifo) (split : fifo.ids = l++i::r) :
    ∃ link, list.link i = some link ∧ link.isPopped = false ∧ link.next = r.head? ∧ link.prev = l.getLast? := by
  have forwards := rep.forwards
  have backwards := rep.backwards
  rw [split] at forwards backwards
  rw [List.reverse_append,List.reverse_cons,List.append_assoc,List.singleton_append] at backwards
  obtain ⟨link,at_,alive⟩ := rep.found (i:=i) (by rw [split]; simp)
  have next := forwards.succ_eq
  have prev := backwards.succ_eq
  rw [List.head?_reverse] at prev
  unfold DoublyLinkedList.next at next
  unfold DoublyLinkedList.prev at prev
  rw [at_] at next prev
  exact ⟨link,at_,alive,Option.some.inj next,Option.some.inj prev⟩

theorem marked {link : Link T} (link' : Link T) (at_ : list.link i = some link) (stored : list'.link i = some link')
    (value : link'.val = link.val) (popped : link'.isPopped = true) : ∀ own, list.link i = some own →
    ∃ link', list'.link i = some link' ∧ link'.val = own.val ∧ link'.isPopped = true := by
  intro own same
  cases same.symm.trans at_
  exact ⟨link',stored,value,popped⟩

theorem Represents.removeFromList (rep : Represents list fifo) (split : fifo.ids = l++i::r) :
    ∃ list', list.removeFromList i = some list' ∧ Removed list list' l i r := by
  obtain ⟨link,at_,alive,next,prev⟩ := rep.queued_link split
  have distinct := rep.forwards.nodup
  have head := rep.head_eq
  have tail := rep.tail_eq
  rw [split] at distinct head tail
  rcases List.eq_nil_or_concat' l with rfl | ⟨l,p,rfl⟩
  · cases r with
    | nil =>
      refine ⟨⟨none,none,update list.link i (some {link with isPopped := true})⟩,?_,rfl,rfl,?_,?_⟩
      · simp [DoublyLinkedList.removeFromList,DoublyLinkedList.store,at_,alive,next,prev,head]
      · exact marked {link with isPopped := true} at_ (by simp) rfl rfl
      · exact fun j other => by simp [update_of_ne other]
    | cons n r =>
      obtain ⟨linkN,atN,_⟩ := rep.found (i:=n) (by rw [split]; simp)
      have apart : n ≠ i := by
        rintro rfl
        simp at distinct
      refine ⟨⟨some n,list.tail,update (update list.link i (some {link with isPopped := true})) n
        (some {linkN with prev := none})⟩,?_,rfl,?_,?_,?_⟩
      · simp [DoublyLinkedList.removeFromList,DoublyLinkedList.store,at_,alive,next,prev,apart,atN]
      · rw [tail]
        simp
      · exact marked {link with isPopped := true} at_ (by simp [apart.symm]) rfl rfl
      · intro j other
        by_cases here : j = n
        · subst here
          simp [atN]
        · simp [update_of_ne here,update_of_ne other,Ne.symm here]
  · obtain ⟨linkP,atP,_⟩ := rep.found (i:=p) (by rw [split]; simp)
    have apart : p ≠ i := by
      rintro rfl
      simp [List.nodup_append] at distinct
    cases r with
    | nil =>
      refine ⟨⟨list.head,some p,update (update list.link i (some {link with isPopped := true})) p
        (some {linkP with next := none})⟩,?_,?_,by simp,?_,?_⟩
      · simp [DoublyLinkedList.removeFromList,DoublyLinkedList.store,at_,alive,next,prev,apart,atP]
      · rw [head]
        cases l <;> simp
      · exact marked {link with isPopped := true} at_ (by simp [apart.symm]) rfl rfl
      · intro j other
        by_cases here : j = p
        · subst here
          simp [atP]
        · simp [update_of_ne here,update_of_ne other,Ne.symm here]
    | cons n r =>
      obtain ⟨linkN,atN,_⟩ := rep.found (i:=n) (by rw [split]; simp)
      have apartN : n ≠ i ∧ n ≠ p := by
        constructor <;> rintro rfl <;> simp [List.nodup_append] at distinct
      refine ⟨⟨list.head,list.tail,update (update (update list.link i (some {link with isPopped := true})) p
        (some {linkP with next := some n})) n (some {linkN with prev := some p})⟩,?_,?_,?_,?_,?_⟩
      · simp [DoublyLinkedList.removeFromList,DoublyLinkedList.store,at_,alive,next,prev,apart,atP,apartN,atN]
      · rw [head]
        cases l <;> simp
      · rw [tail]
        simp
      · exact marked {link with isPopped := true} at_ (by simp [apart.symm,apartN.1.symm]) rfl rfl
      · intro j other
        by_cases here : j = n
        · subst here
          simp [atN,Ne.symm apartN.2]
        · by_cases there : j = p
          · subst there
            simp [update_of_ne here,atP,Ne.symm here]
          · simp [update_of_ne here,update_of_ne there,update_of_ne other,Ne.symm here,Ne.symm there]

theorem Represents.pop (rep : Represents list fifo) (split : fifo.ids = i::r) :
    ∃ link list', list.link i = some link ∧ list.pop = some (some link.val,list') ∧ Removed list list' [] i r := by
  obtain ⟨link,at_,alive,next,prev⟩ := rep.queued_link (l:=[]) split
  have distinct := rep.forwards.nodup
  have head := rep.head_eq
  have tail := rep.tail_eq
  rw [split] at distinct head tail
  cases r with
  | nil =>
    refine ⟨link,⟨none,none,update list.link i (some ⟨link.val,none,none,true⟩)⟩,at_,?_,rfl,rfl,?_,?_⟩
    · simp [DoublyLinkedList.pop,DoublyLinkedList.store,head,tail,at_,next]
    · exact marked ⟨link.val,none,none,true⟩ at_ (by simp) rfl rfl
    · exact fun j other => by simp [update_of_ne other]
  | cons n r =>
    obtain ⟨linkN,atN,_⟩ := rep.found (i:=n) (by rw [split]; simp)
    have apart : n ≠ i := by
      rintro rfl
      simp at distinct
    have stays : ¬some i = list.tail := by
      rw [tail,List.getLast?_cons_cons]
      intro same
      exact (List.nodup_cons.mp distinct).1 (List.mem_of_getLast? same.symm)
    refine ⟨link,⟨some n,list.tail,update (update list.link n (some {linkN with prev := none})) i
      (some ⟨link.val,none,none,true⟩)⟩,at_,?_,rfl,?_,?_,?_⟩
    · simp [DoublyLinkedList.pop,DoublyLinkedList.store,head,stays,at_,next,atN,apart.symm]
    · rw [tail]
      simp
    · exact marked ⟨link.val,none,none,true⟩ at_ (by simp) rfl rfl
    · intro j other
      by_cases here : j = n
      · subst here
        simp [update_of_ne other,atN]
      · simp [update_of_ne here,update_of_ne other,Ne.symm here]

-- What happens to a link outside the list leaves the list alone.
theorem Represents.aside (rep : Represents list fifo) (outside : i ∉ fifo.ids) {link : Option (Link T)}
    {place : Option (T × Place)} (holds : Matches link place) (unqueued : ∀ val, place ≠ some (val,.queued)) :
    Represents {list with link := update list.link i link} ⟨fifo.seq,update fifo.link i place⟩ := by
  have apart {j : Nat} (member : j ∈ fifo.ids) : j ≠ i := fun same => outside (same ▸ member)
  constructor
  case forwards =>
    exact rep.forwards.frame fun j member => by simp [DoublyLinkedList.next,update_of_ne (apart member)]
  case backwards =>
    refine rep.backwards.frame fun j member => ?_
    simp [DoublyLinkedList.prev,update_of_ne (apart (List.mem_reverse.mp member))]
  case empty => exact rep.empty
  case links =>
    intro j
    by_cases same : j = i
    · subst same
      simpa using holds
    · simpa [update_of_ne same] using rep.links j
  case queued =>
    intro j val
    by_cases same : j = i
    · subst same
      have absent : (j,val) ∉ fifo.seq := fun member => outside (List.mem_map_of_mem member)
      simpa [absent] using unqueued val
    · simpa [update_of_ne same] using rep.queued j val

theorem Represents.outside (rep : Represents list fifo) (made : ∀ val, fifo.link i ≠ some (val,.queued)) : i ∉ fifo.ids :=
  fun member => (rep.mem_ids.mp member).elim made

theorem Represents.made_link (rep : Represents list fifo) (made : fifo.link i = some (val,.made)) :
    list.link i = some (Link.new val) := by
  have holds := rep.links i
  rw [made] at holds
  cases at_ : list.link i with
  | none =>
    rw [at_] at holds
    exact holds.elim
  | some link =>
    rw [at_] at holds
    exact congrArg some holds

theorem Represents.queued_snoc (rep : Represents list fifo) (outside : i ∉ fifo.ids) (j : Nat) (v : T) :
    (j,v) ∈ fifo.seq++[(i,val)] ↔ update fifo.link i (some (val,.queued)) j = some (v,.queued) := by
  by_cases same : j = i
  · subst same
    have absent : (j,v) ∉ fifo.seq := fun member => outside (List.mem_map_of_mem member)
    simp [absent,eq_comm]
  · simp [same,rep.queued]

theorem ids_snoc {place : Nat → Option (T × Place)} :
    (Fifo.ids ⟨fifo.seq++[(i,val)],place⟩) = fifo.ids++[i] := by
  simp [Fifo.ids]

theorem Represents.push_first (rep : Represents list fifo) (made : fifo.link i = some (val,.made))
    (empty : fifo.ids = []) :
    ∃ list', list.push i = some list' ∧
      Represents list' ⟨fifo.seq++[(i,val)],update fifo.link i (some (val,.queued))⟩ := by
  have at_ := rep.made_link made
  have tail := rep.tail_eq
  rw [empty] at tail
  refine ⟨⟨some i,some i,list.link⟩,by simp [DoublyLinkedList.push,tail],?_,?_,by simp,?_,?_⟩
  · rw [ids_snoc,empty]
    exact ⟨rfl,none,by simp [DoublyLinkedList.next,at_,Link.new],rfl⟩
  · rw [ids_snoc,empty]
    exact ⟨rfl,none,by simp [DoublyLinkedList.prev,at_,Link.new],rfl⟩
  · intro j
    by_cases same : j = i
    · subst same
      simp [at_,Matches,Link.new]
    · simpa [update_of_ne same] using rep.links j
  · exact rep.queued_snoc (rep.outside (by simp [made]))

-- The new link points back at the last one, which gets it for its next.
theorem Represents.push_last (rep : Represents list fifo) (made : fifo.link i = some (val,.made)) {p : Nat}
    (split : fifo.ids = l++[p]) :
    ∃ list', list.push i = some list' ∧
      Represents list' ⟨fifo.seq++[(i,val)],update fifo.link i (some (val,.queued))⟩ := by
  have at_ := rep.made_link made
  have outside := rep.outside (i:=i) (by simp [made])
  have others {j : Nat} (member : j ∈ fifo.ids) : j ≠ i := fun same => outside (same ▸ member)
  have last : list.tail = some p := by rw [rep.tail_eq,split]; simp
  have queued : p ∈ fifo.ids := by rw [split]; simp
  obtain ⟨linkP,atP,aliveP⟩ := rep.found queued
  have apart := others queued
  have distinct := rep.forwards.nodup
  have forwards := rep.forwards
  rw [split] at distinct forwards
  refine ⟨⟨list.head,some i,update (update list.link i (some ⟨val,none,some p,false⟩)) p
    (some {linkP with next := some i})⟩,?_,?_,?_,?_,?_,rep.queued_snoc outside⟩
  · simp [DoublyLinkedList.push,DoublyLinkedList.store,last,at_,Link.new,apart,atP]
  · rw [ids_snoc,split]
    refine forwards.snoc ?_ ?_ ?_
    · simp [DoublyLinkedList.next]
    · simp [DoublyLinkedList.next,apart.symm]
    · intro j member
      have here : j ≠ p := by
        rintro rfl
        exact (List.nodup_append.mp distinct).2.2 j member j List.mem_cons_self rfl
      simp [DoublyLinkedList.next,update_of_ne here,update_of_ne (others (j:=j) (by rw [split]; simp [member]))]
  · rw [ids_snoc,List.reverse_append]
    refine ⟨rfl,some p,by simp [DoublyLinkedList.prev,apart.symm],?_⟩
    rw [← last]
    refine rep.backwards.frame fun j member => ?_
    have other := others (List.mem_reverse.mp member)
    by_cases here : j = p
    · subst here
      simp [DoublyLinkedList.prev,atP]
    · simp [DoublyLinkedList.prev,update_of_ne here,update_of_ne other]
  · have some_ : list.head ≠ none := by
      rw [rep.head_eq,split]
      simp
    simp [some_]
  · intro j
    by_cases same : j = i
    · subst same
      simp [update_of_ne apart.symm,Matches]
    · have holds := rep.links j
      by_cases here : j = p
      · subst here
        obtain ⟨v,place⟩ := rep.mem_ids.mp queued
        rw [atP,place] at holds
        simpa [update_of_ne same,place,Matches] using holds
      · simpa [update_of_ne here,update_of_ne same] using holds

theorem Represents.push (rep : Represents list fifo) (made : fifo.link i = some (val,.made)) :
    ∃ list', list.push i = some list' ∧
      Represents list' ⟨fifo.seq++[(i,val)],update fifo.link i (some (val,.queued))⟩ := by
  rcases List.eq_nil_or_concat' fifo.ids with empty | ⟨l,p,split⟩
  · exact rep.push_first made empty
  · exact rep.push_last made split

theorem filter_outside {seq : List (Nat × T)} (outside : i ∉ seq.map Prod.fst) :
    (seq.filter fun entry => entry.1 ≠ i) = seq := by
  refine List.filter_eq_self.mpr fun entry member => ?_
  have apart : entry.1 ≠ i := fun same => outside (same ▸ List.mem_map_of_mem member)
  simpa using apart

-- A link that is not in the list is only marked.
theorem Represents.remove (rep : Represents list fifo) {place : Place} (at_ : fifo.link i = some (val,place)) :
    ∃ list', list.removeFromList i = some list' ∧
      Represents list' ⟨fifo.seq.filter fun entry => entry.1 ≠ i,update fifo.link i (some (val,.out))⟩ := by
  cases place with
  | made =>
    have outside := rep.outside (i:=i) (by simp [at_])
    have apart : ¬some i = list.head := by
      rw [rep.head_eq]
      exact fun same => outside (List.mem_of_head? same.symm)
    have marked : Matches (some {Link.new val with isPopped := true}) (some (val,.out)) := ⟨rfl,rfl⟩
    rw [filter_outside outside]
    refine ⟨_,?_,rep.aside outside marked (by simp)⟩
    simp [DoublyLinkedList.removeFromList,DoublyLinkedList.store,rep.made_link at_,Link.new,apart]
  | queued =>
    obtain ⟨l,r,split⟩ := List.append_of_mem (rep.mem_ids.mpr ⟨val,at_⟩)
    obtain ⟨list',result,removed⟩ := rep.removeFromList split
    exact ⟨list',result,removed.represents rep split at_⟩
  | out =>
    have outside := rep.outside (i:=i) (by simp [at_])
    obtain ⟨link,found,_,popped⟩ := rep.live at_
    rw [filter_outside outside,← at_,update_eq_self]
    refine ⟨list,?_,rep⟩
    simp [DoublyLinkedList.removeFromList,found,popped]

-- Each operation that the contract allows is answered alike.
theorem step_represents (rep : Represents list fifo) {operation : Operation T} {answer : Answer T}
    (allowed : fifo.apply operation = some (answer,fifo')) :
    ∃ list', list.apply operation = some (answer,list') ∧ Represents list' fifo' := by
  cases operation with
  | make i val =>
    simp only [Fifo.apply] at allowed
    split at allowed
    · rename_i free
      cases allowed
      exact ⟨_,rfl,rep.aside (rep.outside (by simp [free])) rfl (by simp)⟩
    · cases allowed
  | push i =>
    simp only [Fifo.apply] at allowed
    split at allowed
    · rename_i val made
      cases allowed
      obtain ⟨list',pushed,rep'⟩ := rep.push made
      exact ⟨list',by simp [DoublyLinkedList.apply,pushed],rep'⟩
    · cases allowed
  | pop =>
    simp only [Fifo.apply] at allowed
    split at allowed
    · rename_i empty
      cases allowed
      have none_ : list.head = none := by simp [rep.head_eq,Fifo.ids,empty]
      exact ⟨list,by simp [DoublyLinkedList.apply,DoublyLinkedList.pop,none_],rep⟩
    · rename_i i val rest seq
      cases allowed
      have split : fifo.ids = i::rest.map Prod.fst := by simp [Fifo.ids,seq]
      obtain ⟨link,list',at_,popped,removed⟩ := rep.pop split
      have place := (rep.queued i val).mp (by simp [seq])
      have holds := rep.links i
      rw [at_,place] at holds
      have shorter : (fifo.seq.filter fun entry => entry.1 ≠ i) = rest := by
        have distinct := rep.forwards.nodup
        rw [split,List.nodup_cons] at distinct
        rw [seq,List.filter_cons_of_neg (by simp),filter_outside distinct.1]
      exact ⟨list',by simp [DoublyLinkedList.apply,popped,holds.1],shorter ▸ removed.represents rep split place⟩
  | removeFromList i =>
    simp only [Fifo.apply] at allowed
    split at allowed
    · rename_i val place at_
      cases allowed
      obtain ⟨list',removed,rep'⟩ := rep.remove at_
      exact ⟨list',by simp [DoublyLinkedList.apply,removed],rep'⟩
    · cases allowed
  | isEmpty =>
    cases allowed
    refine ⟨list,?_,rep⟩
    simp only [DoublyLinkedList.apply,DoublyLinkedList.isEmpty,rep.head_eq,Fifo.ids]
    cases fifo.seq <;> simp
  | isPopped i =>
    simp only [Fifo.apply] at allowed
    split at allowed
    · rename_i val place at_
      cases allowed
      obtain ⟨link,found,_,popped⟩ := rep.live at_
      refine ⟨list,?_,rep⟩
      simp [DoublyLinkedList.apply,DoublyLinkedList.isPopped,found,popped]
    · cases allowed
  | drop i =>
    simp only [Fifo.apply] at allowed
    split at allowed
    · cases allowed
    · cases allowed
    · rename_i entry unqueued live
      cases allowed
      exact ⟨_,rfl,rep.aside (rep.outside fun val queued => unqueued val (Option.some.inj (live.symm.trans queued)))
        True.intro (by simp)⟩

theorem answers_represent (rep : Represents list fifo) {operations : List (Operation T)} {given : List (Answer T)}
    (allowed : answers Fifo.apply fifo operations = some (given,fifo')) :
    ∃ list', answers DoublyLinkedList.apply list operations = some (given,list') ∧ Represents list' fifo' := by
  induction operations generalizing list fifo given with
  | nil =>
    cases allowed
    exact ⟨list,rfl,rep⟩
  | cons operation rest ih =>
    obtain ⟨⟨answer,middle⟩,first,later⟩ := Option.bind_eq_some_iff.mp allowed
    obtain ⟨⟨given',last⟩,more,same⟩ := Option.map_eq_some_iff.mp later
    cases same
    obtain ⟨between,result,rep'⟩ := step_represents rep first
    obtain ⟨list',results,rep''⟩ := ih rep' more
    refine ⟨list',?_,rep''⟩
    unfold answers
    rw [result,Option.bind_some,results]
    rfl
end

theorem new_represents : Represents (.new : DoublyLinkedList T) .new := by
  constructor
  case forwards => exact rfl
  case backwards => exact rfl
  case empty => exact Iff.rfl
  case links => exact fun i => True.intro
  case queued => simp [Fifo.new]

-- The pointers carry out what the sequence does, for every sequence of operations.
theorem refines_fifo {operations : List (Operation T)} {given : List (Answer T)} {fifo : Fifo T}
    (allowed : answers Fifo.apply .new operations = some (given,fifo)) :
    ∃ list, answers DoublyLinkedList.apply .new operations = some (given,list) ∧ Represents list fifo :=
  answers_represent new_represents allowed

def removals : List (Operation Nat) :=
  [.make 1 10,.make 2 11,.make 3 12,.make 4 13,.make 5 14,.push 1,.push 2,.push 3,.push 4,.push 5,.pop,.isPopped 1,
    .removeFromList 4,.removeFromList 2,.removeFromList 3,.isEmpty,.removeFromList 1,.pop,.isEmpty,.pop]

theorem removals_represented : ∃ list fifo,
    answers DoublyLinkedList.apply .new removals = some
      ([.done,.done,.done,.done,.done,.done,.done,.done,.done,.done,.value (some 10),.flag true,
        .done,.done,.done,.flag false,.done,.value (some 14),.flag true,.value none],list) ∧ Represents list fifo := by
  obtain ⟨list,results,rep⟩ := refines_fifo (show answers Fifo.apply .new removals = some (_,_) from rfl)
  exact ⟨list,_,results,rep⟩

-- WaitQueue is this list with wakers, where a link is pushed as soon as it is made.
def Fifo.waitQueue (self : Fifo Waker) : WaitQueue :=
  ⟨self.ids,fun i => match self.link i with
    | some (waker,.queued) => some ⟨waker,false⟩
    | some (waker,.out) => some ⟨waker,true⟩
    | _ => none⟩

section
variable {list : DoublyLinkedList Waker} {fifo made fifo' : Fifo Waker} {i : Nat} {waker : Waker}

theorem waitQueue_push (makes : fifo.apply (.make i waker) = some (.done,made))
    (pushes : made.apply (.push i) = some (.done,fifo')) : fifo'.waitQueue = fifo.waitQueue.push i waker := by
  simp only [Fifo.apply] at makes
  split at makes
  · cases makes
    simp only [Fifo.apply,update_self] at pushes
    cases pushes
    unfold Fifo.waitQueue WaitQueue.push
    congr 1
    · simp [Fifo.ids]
    · funext j
      by_cases same : j = i
      · subst same
        simp
      · simp [update_of_ne same]
  · cases makes

theorem waitQueue_pop (rep : Represents list fifo) {val : Option Waker}
    (pops : fifo.apply .pop = some (.value val,fifo')) :
    ∃ popped, fifo.waitQueue.pop = some (popped,fifo'.waitQueue) ∧ popped.map Prod.snd = val := by
  simp only [Fifo.apply] at pops
  split at pops
  · rename_i empty
    cases pops
    exact ⟨none,by simp [WaitQueue.pop,Fifo.waitQueue,Fifo.ids,empty],rfl⟩
  · rename_i i waker rest seq
    cases pops
    have place := (rep.queued i waker).mp (by simp [seq])
    refine ⟨some (i,waker),?_,rfl⟩
    simp only [WaitQueue.pop,Fifo.waitQueue,Fifo.ids,seq,List.map_cons,place,Option.map_some]
    congr 3
    funext j
    by_cases same : j = i
    · subst same
      simp
    · simp [update_of_ne same]

theorem waitQueue_removeFromList (rep : Represents list fifo) (pushed : ∀ waker, fifo.link i ≠ some (waker,.made))
    (removes : fifo.apply (.removeFromList i) = some (.done,fifo')) :
    fifo'.waitQueue = fifo.waitQueue.removeFromList i := by
  simp only [Fifo.apply] at removes
  split at removes
  · rename_i waker place at_
    cases removes
    have ids : (fifo.seq.filter fun entry => entry.1 ≠ i).map Prod.fst = fifo.ids.erase i := by
      rw [filter_ids,rep.forwards.nodup.erase_eq_filter]
      refine List.filter_congr fun j _ => ?_
      by_cases same : j = i <;> simp [same]
    cases place with
    | made => exact absurd at_ (pushed waker)
    | queued =>
      have waits : fifo.waitQueue.link i = some ⟨waker,false⟩ := by simp [Fifo.waitQueue,at_]
      rw [WaitQueue.removeFromList_queued waits]
      unfold Fifo.waitQueue
      congr 1
      funext j
      by_cases same : j = i
      · subst same
        simp
      · simp [update_of_ne same]
    | out =>
      have outside := rep.outside (i:=i) (by simp [at_])
      have unwaiting : ¬fifo.waitQueue.waits i := by simp [WaitQueue.waits,Fifo.waitQueue,at_]
      rw [WaitQueue.removeFromList_out unwaiting,filter_outside outside,← at_,update_eq_self]
  · cases removes

theorem waitQueue_free (drops : fifo.apply (.drop i) = some (.done,fifo')) : fifo'.waitQueue = fifo.waitQueue.free i := by
  simp only [Fifo.apply] at drops
  split at drops
  · cases drops
  · cases drops
  · cases drops
    unfold Fifo.waitQueue WaitQueue.free
    congr 1
    funext j
    by_cases same : j = i
    · subst same
      simp
    · simp [update_of_ne same]
end

end Rtic.Common.Pointers
