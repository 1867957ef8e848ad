import Mathlib.Data.List.Sort
import Mathlib.Logic.Function.Basic
import Rtic.Library.Chain
namespace Rtic.Time
open Function Chain

structure Link (T : Type) where
  val : T
  next : Option Nat
  deriving DecidableEq, Repr

-- The head pointer, and the links that lie in memory. An operation that reads a link
-- where none lies has no result, and neither has one that is cut off for want of fuel.
structure LinkedList (T : Type) where
  head : Option Nat
  link : Nat → Option (Link T)

namespace LinkedList
variable {T : Type}

def new : LinkedList T := ⟨none,fun _ => none⟩

def setNext (self : LinkedList T) (i : Nat) (next : Option Nat) : Option (LinkedList T) :=
  (self.link i).map fun link => {self with link := update self.link i (some {link with next := next})}

-- The closure `f` may also store to what it is given. The result is the head with
-- its value after that, and whether it was popped.
def popIf (self : LinkedList T) (f : T → Bool × T) : Option (Option (Nat × T × Bool) × LinkedList T) :=
  match self.head with
  | none => some (none,self)
  | some i => do
    let head ← self.link i
    let (accepted,val) := f head.val
    let link := update self.link i (some {head with val := val})
    return (some (i,val,accepted),⟨if accepted then head.next else self.head,link⟩)

-- The loop of `delete`, from the link at `curr` on.
def deleteAfter (self : LinkedList T) (addr : Nat) : Nat → Nat → Option Nat → Option (LinkedList T)
  | 0,_,_ => none
  | _+1,_,none => some self
  | fuel+1,curr,some next => do
    let nextLink ← self.link next
    if next = addr then self.setNext curr nextLink.next
    else self.deleteAfter addr fuel next nextLink.next

def delete (self : LinkedList T) (fuel addr : Nat) : Option (LinkedList T) :=
  match self.head with
  | none => some self
  | some head => do
    let headRef ← self.link head
    if head = addr then return {self with head := headRef.next}
    else self.deleteAfter addr fuel head headRef.next

-- The loop of `insert`, where `lt` is `<` of the values.
def insertAfter (self : LinkedList T) (lt : T → T → Bool) (addr : Nat) (val : T) :
    Nat → Nat → Option Nat → Option (LinkedList T)
  | 0,_,_ => none
  | _+1,curr,none => self.setNext curr (some addr)
  | fuel+1,curr,some next => do
    let nextLink ← self.link next
    if lt val nextLink.val then
      let self ← self.setNext addr (some next)
      self.setNext curr (some addr)
    else self.insertAfter lt addr val fuel next nextLink.next

-- The link at `addr` is in memory already. The result says whether it became the head.
def insert (self : LinkedList T) (lt : T → T → Bool) (fuel addr : Nat) : Option (Bool × LinkedList T) := do
  let link ← self.link addr
  match self.head with
  | none => return (true,{self with head := some addr})
  | some head => do
    let headRef ← self.link head
    if lt link.val headRef.val then
      let self ← self.setNext addr (some head)
      return (true,{self with head := some addr})
    else do
      let self ← self.insertAfter lt addr link.val fuel head headRef.next
      return (false,self)

-- A link is put at an address, and what lies there is gone.
def place (self : LinkedList T) (i : Nat) (val : T) : LinkedList T :=
  {self with link := update self.link i (some ⟨val,none⟩)}
def free (self : LinkedList T) (i : Nat) : LinkedList T := {self with link := update self.link i none}

def succ (self : LinkedList T) (i : Nat) : Option (Option Nat) := (self.link i).map Link.next
def value (self : LinkedList T) (i : Nat) : Option T := (self.link i).map Link.val

-- The links of the list are those at the addresses `l`, from the head on.
def Holds (self : LinkedList T) (l : List Nat) : Prop := Linked self.succ self.head l

def reachable (self : LinkedList T) (i : Nat) : Prop := Reachable self.succ self.head i

section
variable {self next : LinkedList T} {l : List Nat} {i addr curr fuel : Nat} {link : Link T} {tail : Option Nat}

theorem succ_of_link (linked : self.link i = some link) : self.succ i = some link.next := by
  simp [succ,linked]

theorem setNext_cases (set : self.setNext i tail = some next) :
    ∃ link, self.link i = some link ∧ next = {self with link := update self.link i (some {link with next := tail})} := by
  obtain ⟨link,linked,same⟩ := Option.map_eq_some_iff.mp set
  exact ⟨link,linked,same.symm⟩

-- An operation that only moves pointers leaves the head and the values as they are,
-- and the links at other addresses than those it was told.
structure Rewired (old new : LinkedList T) (l : List Nat) : Prop where
  head : new.head = old.head
  value : ∀ i, new.value i = old.value i
  others : ∀ i, i ∉ l → new.link i = old.link i

theorem Rewired.refl : Rewired self self l := ⟨rfl,fun _ => rfl,fun _ _ => rfl⟩

theorem Rewired.mono {r : List Nat} (rewired : Rewired self next l) (inside : l ⊆ r) : Rewired self next r :=
  ⟨rewired.head,rewired.value,fun i outside => rewired.others i fun member => outside (inside member)⟩

theorem Rewired.trans {last : LinkedList T} (rewired : Rewired self next l) (again : Rewired next last l) :
    Rewired self last l := by
  refine ⟨again.head.trans rewired.head,fun i => (again.value i).trans (rewired.value i),fun i outside => ?_⟩
  exact (again.others i outside).trans (rewired.others i outside)

theorem setNext_rewired (set : self.setNext i tail = some next) : Rewired self next [i] := by
  obtain ⟨link,linked,rfl⟩ := setNext_cases set
  refine ⟨rfl,fun j => ?_,fun j outside => update_of_ne (by simpa using outside) _ _⟩
  by_cases same : j = i
  · subst same
    simp [value,linked]
  · simp [value,update_of_ne same]

theorem setNext_succ (set : self.setNext i tail = some next) : next.succ i = some tail := by
  obtain ⟨link,linked,rfl⟩ := setNext_cases set
  simp [succ]

theorem Rewired.succ (rewired : Rewired self next l) (outside : i ∉ l) : next.succ i = self.succ i := by
  unfold LinkedList.succ
  rw [rewired.others i outside]

-- The loop takes the address out of what comes after `curr`.
theorem deleteAfter_linked (linked : Linked self.succ (some curr) (curr::l)) (other : curr ≠ addr)
    (start : self.succ curr = some tail) (result : self.deleteAfter addr fuel curr tail = some next) :
    Rewired self next (curr::l) ∧ Linked next.succ (some curr) (curr::l.erase addr) := by
  induction l generalizing curr fuel tail with
  | nil =>
    have rest := linked.past start
    cases rest
    cases fuel with
    | zero => cases result
    | succ fuel =>
      cases result
      exact ⟨.refl,rfl,none,start,rfl⟩
  | cons n l ih =>
    have nodup := linked.nodup
    have rest := linked.past start
    have rest_ := rest
    obtain ⟨rfl,after,nextAt,below⟩ := rest
    cases fuel with
    | zero => cases result
    | succ fuel =>
      simp only [deleteAfter,Option.bind_eq_bind,Option.bind_eq_some_iff] at result
      obtain ⟨nextLink,nextLinked,result⟩ := result
      have same : after = nextLink.next := Option.some.inj (nextAt.symm.trans (succ_of_link nextLinked))
      subst same
      split at result
      · rename_i found
        subst found
        have rewired := setNext_rewired result
        refine ⟨rewired.mono (by simp),rfl,nextLink.next,setNext_succ result,?_⟩
        rw [List.erase_cons_head]
        refine below.frame fun j member => rewired.succ ?_
        rintro inside
        cases List.mem_singleton.mp inside
        exact (List.nodup_cons.mp nodup).1 (List.mem_cons_of_mem _ member)
      · rename_i missed
        obtain ⟨rewired,after⟩ := ih rest_ missed nextAt result
        refine ⟨rewired.mono (List.subset_cons_self _ _),rfl,some n,?_,?_⟩
        · rw [rewired.succ (List.nodup_cons.mp nodup).1,start]
        · rwa [List.erase_cons_tail (by simpa using missed)]

theorem delete_holds (holds : self.Holds l) (result : self.delete fuel addr = some next) :
    next.Holds (l.erase addr) ∧ (∀ i, next.value i = self.value i) ∧ ∀ i, i ∉ l → next.link i = self.link i := by
  unfold delete at result
  cases l with
  | nil =>
    rw [show self.head = none from holds] at result
    cases result
    exact ⟨holds,fun _ => rfl,fun _ _ => rfl⟩
  | cons head l =>
    have linked := holds
    obtain ⟨start,tail,at_,rest⟩ := holds
    rw [start] at result
    simp only [Option.bind_eq_bind,Option.bind_eq_some_iff] at result
    obtain ⟨headRef,headLinked,result⟩ := result
    have same : tail = headRef.next := Option.some.inj (at_.symm.trans (succ_of_link headLinked))
    subst same
    split at result
    · rename_i found
      subst found
      cases result
      rw [List.erase_cons_head]
      exact ⟨rest,fun _ => rfl,fun _ _ => rfl⟩
    · rename_i missed
      have linked : Linked self.succ (some head) (head::l) := start ▸ linked
      obtain ⟨rewired,after⟩ := deleteAfter_linked linked missed at_ result
      refine ⟨?_,rewired.value,rewired.others⟩
      rw [List.erase_cons_tail (by simpa using missed)]
      unfold Holds
      rwa [rewired.head,start]

-- Where no link lies at the address, nothing is changed.
theorem deleteAfter_absent (linked : Linked self.succ (some curr) (curr::l)) (absent : addr ∉ l)
    (start : self.succ curr = some tail) (result : self.deleteAfter addr fuel curr tail = some next) : next = self := by
  induction l generalizing curr fuel tail with
  | nil =>
    have rest := linked.past start
    cases rest
    cases fuel with
    | zero => cases result
    | succ fuel =>
      cases result
      rfl
  | cons n l ih =>
    have rest := linked.past start
    have rest_ := rest
    obtain ⟨rfl,after,nextAt,below⟩ := rest
    cases fuel with
    | zero => cases result
    | succ fuel =>
      simp only [deleteAfter,Option.bind_eq_bind,Option.bind_eq_some_iff] at result
      obtain ⟨nextLink,nextLinked,result⟩ := result
      have other : n ≠ addr := fun same => absent (same ▸ List.mem_cons_self)
      rw [if_neg other] at result
      exact ih rest_ (fun below => absent (List.mem_cons_of_mem _ below)) (succ_of_link nextLinked) result

theorem delete_absent (holds : self.Holds l) (absent : addr ∉ l) (result : self.delete fuel addr = some next) :
    next = self := by
  unfold delete at result
  cases l with
  | nil =>
    rw [show self.head = none from holds] at result
    cases result
    rfl
  | cons head l =>
    have linked := holds
    obtain ⟨start,tail,at_,rest⟩ := holds
    rw [start] at result
    simp only [Option.bind_eq_bind,Option.bind_eq_some_iff] at result
    obtain ⟨headRef,headLinked,result⟩ := result
    have other : head ≠ addr := fun same => absent (same ▸ List.mem_cons_self)
    rw [if_neg other] at result
    exact deleteAfter_absent (start ▸ linked) (fun below => absent (List.mem_cons_of_mem _ below))
      (succ_of_link headLinked) result

theorem deleteAfter_returns (linked : Linked self.succ (some curr) (curr::l)) (start : self.succ curr = some tail)
    (enough : l.length < fuel) : ∃ next, self.deleteAfter addr fuel curr tail = some next := by
  induction l generalizing curr fuel tail with
  | nil =>
    have rest := linked.past start
    cases rest
    obtain ⟨fuel,rfl⟩ := Nat.exists_eq_succ_of_ne_zero (Nat.ne_zero_of_lt enough)
    exact ⟨self,rfl⟩
  | cons n l ih =>
    have rest := linked.past start
    have rest_ := rest
    obtain ⟨rfl,after,nextAt,below⟩ := rest
    obtain ⟨fuel,rfl⟩ := Nat.exists_eq_succ_of_ne_zero (Nat.ne_zero_of_lt enough)
    obtain ⟨nextLink,nextLinked,same⟩ := Option.map_eq_some_iff.mp nextAt
    obtain ⟨currLink,currLinked,_⟩ := Option.map_eq_some_iff.mp start
    simp only [deleteAfter,nextLinked,Option.bind_eq_bind,Option.bind_some]
    split
    · exact ⟨_,by rw [setNext,currLinked]; rfl⟩
    · exact ih rest_ (succ_of_link nextLinked) (by simpa using enough)

-- With fuel for the length of the list, `delete` finds its way to the end.
theorem delete_returns (holds : self.Holds l) (enough : l.length ≤ fuel) : ∃ next, self.delete fuel addr = some next := by
  unfold delete
  cases l with
  | nil =>
    rw [show self.head = none from holds]
    exact ⟨self,rfl⟩
  | cons head l =>
    have linked := holds
    obtain ⟨start,tail,at_,rest⟩ := holds
    obtain ⟨headRef,headLinked,same⟩ := Option.map_eq_some_iff.mp at_
    rw [start]
    simp only [headLinked,Option.bind_eq_bind,Option.bind_some]
    split
    · exact ⟨_,rfl⟩
    · exact deleteAfter_returns (start ▸ linked) (succ_of_link headLinked) enough

-- Whether a link goes before another one.
def precedes (self : LinkedList T) (lt : T → T → Bool) (i j : Nat) : Bool :=
  match self.value i,self.value j with
  | some a,some b => lt a b
  | _,_ => false

theorem precedes_links {lt : T → T → Bool} {other : Link T} (linked : self.link i = some link)
    (linked' : self.link addr = some other) : self.precedes lt i addr = lt link.val other.val := by
  simp [precedes,value,linked,linked']

theorem insertAfter_linked {lt : T → T → Bool} {val : T} (linked : Linked self.succ (some curr) (curr::l))
    (new : self.link addr = some ⟨val,none⟩) (outside : addr ∉ curr::l) (start : self.succ curr = some tail)
    (result : self.insertAfter lt addr val fuel curr tail = some next) :
    Rewired self next (addr::curr::l) ∧
      Linked next.succ (some curr) (curr::l.orderedInsert (fun i j => self.precedes lt i j = true) addr) := by
  induction l generalizing curr fuel tail with
  | nil =>
    have rest := linked.past start
    cases rest
    cases fuel with
    | zero => cases result
    | succ fuel =>
      have rewired := setNext_rewired result
      have other : addr ∉ [curr] := outside
      refine ⟨rewired.mono (List.subset_cons_self _ _),rfl,some addr,setNext_succ result,rfl,none,?_,rfl⟩
      rw [rewired.succ other,succ_of_link new]
  | cons n l ih =>
    have nodup := linked.nodup
    have rest := linked.past start
    have rest_ := rest
    obtain ⟨rfl,after,nextAt,below⟩ := rest
    cases fuel with
    | zero => cases result
    | succ fuel =>
      simp only [insertAfter,Option.bind_eq_bind,Option.bind_eq_some_iff] at result
      obtain ⟨nextLink,nextLinked,result⟩ := result
      have same : after = nextLink.next := Option.some.inj (nextAt.symm.trans (succ_of_link nextLinked))
      subst same
      have order : self.precedes lt addr n = lt val nextLink.val := precedes_links new nextLinked
      split at result
      · rename_i first
        obtain ⟨middle,set,result⟩ := Option.bind_eq_some_iff.mp result
        have before := setNext_rewired set
        have after := setNext_rewired result
        have apart : addr ∉ [curr] := fun inside => outside (by simp [List.mem_singleton.mp inside])
        rw [List.orderedInsert_cons,if_pos (order.trans first)]
        refine ⟨(before.mono (by simp)).trans (after.mono (by simp)),rfl,some addr,setNext_succ result,rfl,some n,?_,?_⟩
        · rw [after.succ apart,setNext_succ set]
        · refine rest_.frame fun j member => ?_
          have notCurr : j ∉ [curr] := fun inside =>
            (List.nodup_cons.mp nodup).1 (List.mem_singleton.mp inside ▸ member)
          have notAddr : j ∉ [addr] := fun inside =>
            outside (List.mem_cons_of_mem _ (List.mem_singleton.mp inside ▸ member))
          rw [after.succ notCurr,before.succ notAddr]
      · rename_i later
        obtain ⟨rewired,after⟩ := ih rest_ (fun inside => outside (List.mem_cons_of_mem _ inside)) nextAt result
        rw [List.orderedInsert_cons,if_neg (by rw [order]; exact later)]
        have apart : curr ∉ addr::n::l := by
          intro inside
          rcases List.mem_cons.mp inside with same | below
          · exact outside (same ▸ List.mem_cons_self)
          · exact (List.nodup_cons.mp nodup).1 below
        refine ⟨rewired.mono (by simp),rfl,some n,?_,after⟩
        rw [rewired.succ apart,start]

-- What `insert` makes of a list: the new link goes before the first that it precedes.
structure Inserted (old new : LinkedList T) (lt : T → T → Bool) (addr : Nat) (l : List Nat) (headUpdated : Bool) : Prop where
  holds : new.Holds (l.orderedInsert (fun i j => old.precedes lt i j = true) addr)
  value : ∀ i, new.value i = old.value i
  others : ∀ i, i ∉ addr::l → new.link i = old.link i
  updated : if headUpdated then new.head = some addr else new.head = old.head ∧ l ≠ []

theorem insert_holds {lt : T → T → Bool} {val : T} {headUpdated : Bool} (holds : self.Holds l)
    (fresh : self.link addr = some ⟨val,none⟩) (outside : addr ∉ l)
    (result : self.insert lt fuel addr = some (headUpdated,next)) : Inserted self next lt addr l headUpdated := by
  unfold insert at result
  simp only [fresh,Option.bind_eq_bind,Option.bind_some] at result
  cases l with
  | nil =>
    rw [show self.head = none from holds] at result
    cases result
    exact ⟨⟨rfl,none,succ_of_link fresh,rfl⟩,fun _ => rfl,fun _ _ => rfl,rfl⟩
  | cons head l =>
    have linked := holds
    obtain ⟨start,tail,at_,rest⟩ := holds
    rw [start] at result
    simp only [Option.bind_eq_some_iff] at result
    obtain ⟨headRef,headLinked,result⟩ := result
    have same : tail = headRef.next := Option.some.inj (at_.symm.trans (succ_of_link headLinked))
    subst same
    have order : self.precedes lt addr head = lt val headRef.val := precedes_links fresh headLinked
    split at result
    · rename_i first
      obtain ⟨middle,set,result⟩ := Option.bind_eq_some_iff.mp result
      cases result
      have rewired := setNext_rewired set
      refine ⟨?_,rewired.value,fun i out => rewired.others i (by simp at out ⊢; exact out.1),rfl⟩
      rw [List.orderedInsert_cons,if_pos (order.trans first)]
      have below : Linked self.succ (some head) (head::l) := start ▸ linked
      have start_ : middle.succ addr = some (some head) := setNext_succ set
      refine ⟨rfl,some head,start_,below.frame fun j member => rewired.succ ?_⟩
      intro inside
      exact outside (List.mem_singleton.mp inside ▸ member)
    · rename_i later
      obtain ⟨middle,walked,result⟩ := Option.bind_eq_some_iff.mp result
      cases result
      obtain ⟨rewired,after⟩ := insertAfter_linked (start ▸ linked) fresh outside at_ walked
      refine ⟨?_,rewired.value,rewired.others,rewired.head,List.cons_ne_nil _ _⟩
      rw [List.orderedInsert_cons,if_neg (by rw [order]; exact later)]
      unfold Holds
      rwa [rewired.head,start]

theorem insertAfter_returns (lt : T → T → Bool) (val : T) (linked : Linked self.succ (some curr) (curr::l))
    (new : self.link addr = some link) (outside : addr ∉ curr::l) (start : self.succ curr = some tail)
    (enough : l.length < fuel) : ∃ next, self.insertAfter lt addr val fuel curr tail = some next := by
  induction l generalizing curr fuel tail with
  | nil =>
    have rest := linked.past start
    cases rest
    obtain ⟨fuel,rfl⟩ := Nat.exists_eq_succ_of_ne_zero (Nat.ne_zero_of_lt enough)
    obtain ⟨currLink,currLinked,_⟩ := Option.map_eq_some_iff.mp start
    exact ⟨_,by rw [insertAfter,setNext,currLinked]; rfl⟩
  | cons n l ih =>
    have rest := linked.past start
    have rest_ := rest
    obtain ⟨rfl,after,nextAt,below⟩ := rest
    obtain ⟨fuel,rfl⟩ := Nat.exists_eq_succ_of_ne_zero (Nat.ne_zero_of_lt enough)
    obtain ⟨nextLink,nextLinked,same⟩ := Option.map_eq_some_iff.mp nextAt
    obtain ⟨currLink,currLinked,_⟩ := Option.map_eq_some_iff.mp start
    have apart : curr ≠ addr := fun same => outside (same ▸ List.mem_cons_self)
    simp only [insertAfter,nextLinked,Option.bind_eq_bind,Option.bind_some]
    split
    · simp only [setNext,new,Option.map_some,Option.bind_some,update_of_ne apart,currLinked]
      exact ⟨_,rfl⟩
    · exact ih rest_ (fun inside => outside (List.mem_cons_of_mem _ inside)) (succ_of_link nextLinked) (by simpa using enough)

theorem insert_returns {lt : T → T → Bool} (holds : self.Holds l) (new : self.link addr = some link) (outside : addr ∉ l)
    (enough : l.length ≤ fuel) : ∃ result, self.insert lt fuel addr = some result := by
  unfold insert
  simp only [new,Option.bind_eq_bind,Option.bind_some]
  cases l with
  | nil =>
    rw [show self.head = none from holds]
    exact ⟨_,rfl⟩
  | cons head l =>
    have linked := holds
    obtain ⟨start,tail,at_,rest⟩ := holds
    obtain ⟨headRef,headLinked,same⟩ := Option.map_eq_some_iff.mp at_
    rw [start]
    simp only [headLinked,Option.bind_some]
    split
    · simp only [setNext,new,Option.map_some,Option.bind_some]
      exact ⟨_,rfl⟩
    · obtain ⟨next,walked⟩ := insertAfter_returns lt link.val (start ▸ linked) new outside
        (succ_of_link headLinked) enough
      simp only [walked,Option.bind_some]
      exact ⟨_,rfl⟩

-- What `popIf` did with the head: nothing was there, it stayed, or it was popped.
theorem popIf_cases {f : T → Bool × T} {popped : Option (Nat × T × Bool)} (holds : self.Holds l)
    (result : self.popIf f = some (popped,next)) :
    (l = [] ∧ popped = none ∧ next = self) ∨
    ∃ i rest link, l = i::rest ∧ self.link i = some link ∧ popped = some (i,(f link.val).2,(f link.val).1) ∧
      next = ⟨if (f link.val).1 then rest.head? else some i,update self.link i (some {link with val := (f link.val).2})⟩ ∧
      next.Holds (if (f link.val).1 then rest else l) := by
  unfold popIf at result
  cases l with
  | nil =>
    rw [show self.head = none from holds] at result
    cases result
    exact Or.inl ⟨rfl,rfl,rfl⟩
  | cons i rest =>
    have linked := holds
    have nodup := linked.nodup
    obtain ⟨start,tail,at_,below⟩ := holds
    obtain ⟨link,head,same⟩ := Option.map_eq_some_iff.mp at_
    subst same
    rw [start] at result
    simp only [head,Option.bind_eq_bind,Option.bind_some] at result
    cases result
    have succ_ : ∀ j, LinkedList.succ ⟨if (f link.val).1 then link.next else some i,
        update self.link i (some {link with val := (f link.val).2})⟩ j = self.succ j := fun j => by
      by_cases same : j = i
      · subst same
        simp [succ,head]
      · simp [succ,update_of_ne same]
    refine Or.inr ⟨i,rest,link,rfl,head,rfl,?_,?_⟩
    · rw [show link.next = rest.head? from Linked.head_eq below]
    · cases accepted : (f link.val).1 with
      | true =>
        simp only [accepted] at succ_
        exact below.frame fun j _ => succ_ j
      | false =>
        simp only [accepted] at succ_
        have linked : Linked self.succ (some i) (i::rest) := start ▸ linked
        exact linked.frame fun j _ => succ_ j

theorem popIf_returns {f : T → Bool × T} (holds : self.Holds l) : ∃ result, self.popIf f = some result := by
  unfold popIf
  cases l with
  | nil =>
    rw [show self.head = none from holds]
    exact ⟨_,rfl⟩
  | cons i rest =>
    obtain ⟨start,tail,at_,_⟩ := holds
    obtain ⟨link,head,_⟩ := Option.map_eq_some_iff.mp at_
    rw [start]
    simp only [head,Option.bind_eq_bind,Option.bind_some]
    exact ⟨_,rfl⟩

-- A link outside the list is made or freed.
theorem Holds.outside (holds : self.Holds l) (out : i ∉ l) (same : ∀ j, j ≠ i → next.link j = self.link j)
    (head : next.head = self.head) : next.Holds l := by
  unfold Holds
  rw [head]
  refine Path.frame holds fun j member => ?_
  unfold succ
  rw [same j fun same => out (same ▸ member)]

theorem Holds.linked (holds : self.Holds l) (member : i ∈ l) : ∃ link, self.link i = some link := by
  obtain ⟨before,after,rfl⟩ := List.append_of_mem member
  obtain ⟨middle,_,_,next,at_,_⟩ := path_append.mp holds
  obtain ⟨link,linked,_⟩ := Option.map_eq_some_iff.mp at_
  exact ⟨link,linked⟩

end
end LinkedList
end Rtic.Time
