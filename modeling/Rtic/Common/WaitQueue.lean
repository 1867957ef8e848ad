import Mathlib.Data.List.Nodup
import Mathlib.Logic.Function.Basic
import Rtic.Common.WakerRegistration
namespace Rtic.Common
open Function

-- Link<Waker>. It lies in the future that waits.
structure Link where
  waker : Waker
  isPopped : Bool
  deriving DecidableEq, Repr

-- DoublyLinkedList<Waker>: the addresses of the links that are in the list, head
-- first, and what lies at each address.
structure WaitQueue where
  queue : List Nat
  link : Nat → Option Link

namespace WaitQueue

def new : WaitQueue := ⟨[],fun _ => none⟩

def isEmpty (self : WaitQueue) : Bool := self.queue.isEmpty

-- Reads the link at the head, and there is nothing to read if its future is gone.
def pop (self : WaitQueue) : Option (Option (Nat × Waker) × WaitQueue) :=
  match self.queue with
  | [] => some (none,self)
  | i::rest => (self.link i).map fun link =>
    (some (i,link.waker),⟨rest,update self.link i (some {link with isPopped := true})⟩)

-- A new link at `i`.
def push (self : WaitQueue) (i : Nat) (waker : Waker) : WaitQueue :=
  ⟨self.queue++[i],update self.link i (some ⟨waker,false⟩)⟩

-- Link::remove_from_list, where there is a link.
def removeFromList (self : WaitQueue) (i : Nat) : WaitQueue :=
  match self.link i with
  | some link => if link.isPopped then self
    else ⟨self.queue.erase i,update self.link i (some {link with isPopped := true})⟩
  | none => self

-- The future ends or its link is set to None.
def free (self : WaitQueue) (i : Nat) : WaitQueue := {self with link := update self.link i none}

def waits (self : WaitQueue) (i : Nat) : Prop := ∃ waker, self.link i = some ⟨waker,false⟩
def popped (self : WaitQueue) (i : Nat) : Prop := ∃ waker, self.link i = some ⟨waker,true⟩

structure Sound (list : WaitQueue) : Prop where
  nodup : list.queue.Nodup
  queued : ∀ i, i ∈ list.queue ↔ list.waits i

section
variable {self next : WaitQueue} {i : Nat} {waker : Waker}

theorem popped_not_waits (popped : self.popped i) : ¬self.waits i := by
  obtain ⟨waker,linked⟩ := popped
  rintro ⟨other,queued⟩
  rw [linked] at queued
  cases queued

theorem isEmpty_iff : self.isEmpty = true ↔ self.queue = [] := List.isEmpty_iff

theorem new_sound : new.Sound := by
  refine ⟨List.nodup_nil,fun i => ?_⟩
  simp [new,waits]

theorem pop_cases {popped : Option (Nat × Waker)} (got : self.pop = some (popped,next)) :
    (self.queue = [] ∧ popped = none ∧ next = self) ∨
    ∃ i rest link, self.queue = i::rest ∧ self.link i = some link ∧ popped = some (i,link.waker) ∧
      next = ⟨rest,update self.link i (some {link with isPopped := true})⟩ := by
  unfold pop at got
  split at got
  · rename_i empty
    cases got
    exact Or.inl ⟨empty,rfl,rfl⟩
  · rename_i i rest queue
    obtain ⟨link,linked,same⟩ := Option.map_eq_some_iff.mp got
    cases same
    exact Or.inr ⟨i,rest,link,queue,linked,rfl,rfl⟩

-- With every queued link alive, `pop` always returns.
theorem Sound.pop_returns (sound : self.Sound) : ∃ result, self.pop = some result := by
  unfold pop
  split
  · exact ⟨_,rfl⟩
  · rename_i i rest queue
    obtain ⟨waker,linked⟩ := (sound.queued i).mp (by rw [queue]; exact List.mem_cons_self)
    rw [linked]
    exact ⟨_,rfl⟩

theorem Sound.pop (sound : self.Sound) {popped : Option (Nat × Waker)} (got : self.pop = some (popped,next)) :
    next.Sound := by
  rcases pop_cases got with ⟨_,_,rfl⟩ | ⟨i,rest,link,queue,linked,_,rfl⟩
  · exact sound
  · have nodup := sound.nodup
    rw [queue,List.nodup_cons] at nodup
    refine ⟨nodup.2,fun j => ?_⟩
    have queued := sound.queued j
    rw [queue,List.mem_cons] at queued
    by_cases same : j = i
    · subst same
      simp [waits,nodup.1]
    · simpa [waits,update_of_ne same,same] using queued

theorem Sound.push (sound : self.Sound) (unlinked : self.link i = none) : (self.push i waker).Sound := by
  have outside : i ∉ self.queue := fun inside => by
    obtain ⟨_,linked⟩ := (sound.queued i).mp inside
    rw [unlinked] at linked
    cases linked
  refine ⟨List.nodup_append.mpr ⟨sound.nodup,List.nodup_singleton i,?_⟩,fun j => ?_⟩
  · intro j inside k last same
    cases List.mem_singleton.mp last
    exact outside (same ▸ inside)
  · have queued := sound.queued j
    by_cases same : j = i
    · subst same
      simp [WaitQueue.push,waits]
    · simpa [WaitQueue.push,waits,update_of_ne same,same] using queued

theorem removeFromList_queued (linked : self.link i = some ⟨waker,false⟩) :
    self.removeFromList i = ⟨self.queue.erase i,update self.link i (some ⟨waker,true⟩)⟩ := by
  simp [removeFromList,linked]

theorem removeFromList_out (out : ¬self.waits i) : self.removeFromList i = self := by
  unfold removeFromList
  split
  · rename_i link linked
    rcases link with ⟨waker,_|_⟩
    · exact absurd ⟨waker,linked⟩ out
    · rfl
  · rfl

theorem Sound.removeFromList (sound : self.Sound) : (self.removeFromList i).Sound := by
  by_cases queued : self.waits i
  · obtain ⟨waker,linked⟩ := queued
    rw [removeFromList_queued linked]
    refine ⟨sound.nodup.erase i,fun j => ?_⟩
    rw [sound.nodup.mem_erase_iff]
    have others := sound.queued j
    by_cases same : j = i
    · subst same
      simp [waits]
    · simpa [waits,update_of_ne same,same] using others
  · rw [removeFromList_out queued]
    exact sound

theorem removeFromList_not_waits : ¬(self.removeFromList i).waits i := by
  by_cases queued : self.waits i
  · obtain ⟨waker,linked⟩ := queued
    rw [removeFromList_queued linked]
    simp [waits]
  · rwa [removeFromList_out queued]

theorem removeFromList_other {j : Nat} (other : j ≠ i) : (self.removeFromList i).link j = self.link j := by
  by_cases queued : self.waits i
  · obtain ⟨waker,linked⟩ := queued
    rw [removeFromList_queued linked]
    exact update_of_ne other _ _
  · rw [removeFromList_out queued]

theorem removeFromList_queue (sound : self.Sound) : (self.removeFromList i).queue = self.queue.erase i := by
  by_cases queued : self.waits i
  · obtain ⟨waker,linked⟩ := queued
    rw [removeFromList_queued linked]
  · rw [removeFromList_out queued,List.erase_of_not_mem]
    rwa [sound.queued]

theorem Sound.free (sound : self.Sound) (out : ¬self.waits i) : (self.free i).Sound := by
  refine ⟨sound.nodup,fun j => ?_⟩
  have queued := sound.queued j
  by_cases same : j = i
  · subst same
    simpa [WaitQueue.free,waits] using queued.not.mpr out
  · simpa [WaitQueue.free,waits,update_of_ne same] using queued

@[simp] theorem free_queue : (self.free i).queue = self.queue := rfl
@[simp] theorem free_link : (self.free i).link i = none := by simp [free]
@[simp] theorem push_queue : (self.push i waker).queue = self.queue++[i] := rfl
@[simp] theorem push_link : (self.push i waker).link i = some ⟨waker,false⟩ := update_self i _ self.link
theorem free_other {j : Nat} (other : j ≠ i) : (self.free i).link j = self.link j := update_of_ne other _ _
theorem push_other {j : Nat} (other : j ≠ i) : (self.push i waker).link j = self.link j := update_of_ne other _ _
end

end WaitQueue
end Rtic.Common
