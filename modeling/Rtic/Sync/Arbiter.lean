import Rtic.Common.WaitQueue
import Rtic.Library.Transition
namespace Rtic.Sync.Arbiter
open Function Rtic.Common

structure Arbiter where
  waitQueue : WaitQueue
  taken : Bool

-- How the critical section in a poll of `access` ends: the first two with Ready,
-- the others with Pending.
inductive Polled where
  | entered
  | granted
  | queued
  | stillQueued
  deriving DecidableEq, Repr

def Polled.ready : Polled → Bool
  | .entered => true
  | .granted => true
  | _ => false

namespace Arbiter

def new : Arbiter := ⟨WaitQueue.new,false⟩

-- The closure of `poll_fn`, where the link of the future lies at `i`.
def poll (self : Arbiter) (i : Nat) (waker : Waker) : Polled × Arbiter :=
  if self.waitQueue.isEmpty && !self.taken then (.entered,{self with taken := true})
  else match self.waitQueue.link i with
    | some link => if link.isPopped then (.granted,self) else (.stillQueued,self)
    | none => (.queued,{self with waitQueue := self.waitQueue.push i waker})

def tryAccess (self : Arbiter) : Bool × Arbiter :=
  if self.waitQueue.isEmpty && !self.taken then (true,{self with taken := true}) else (false,self)

-- Drop of an ExclusiveAccess, and the waker that it wakes.
def release (self : Arbiter) : Option (Option (Nat × Waker) × Arbiter) :=
  if self.waitQueue.isEmpty then some (none,{self with taken := false})
  else self.waitQueue.pop.map fun popped => (popped.1,{self with waitQueue := popped.2})

end Arbiter

-- Where an `access` future stands between two critical sections.
inductive FuturePoint where
  | gone
  -- before its first poll, and suspended
  | fresh
  | waiting
  -- the dropper, after `poll_fn` returned Ready or as the suspended future is dropped
  | unlink (ready : Bool)
  | granted
  deriving DecidableEq, Repr

def FuturePoint.suspended : FuturePoint → Bool
  | .fresh => true
  | .waiting => true
  | _ => false

-- `tokens` counts the values of type ExclusiveAccess that are alive.
structure State extends Arbiter where
  point : Nat → FuturePoint
  tokens : Nat

-- A future is named by its address, which may be taken again when it is gone.
inductive Event where
  | created (i : Nat)
  | polled (i : Nat) (waker : Waker) (outcome : Polled)
  | unlinked (i : Nat) (ready : Bool)
  | obtained (i : Nat)
  | forgotten (i : Nat)
  | cancelled (i : Nat)
  | tryAccessed (success : Bool)
  | released (handed : Option (Nat × Waker))
  deriving DecidableEq, Repr

inductive Step : State → Event → State → Prop where
  | created (here : s.point i = .gone) : Step s (.created i) {s with point := update s.point i .fresh}
  | polled (here : (s.point i).suspended = true) (result : s.poll i waker = (outcome,next)) :
      Step s (.polled i waker outcome)
        {s with
          toArbiter := next
          point := update s.point i (if outcome.ready then .unlink true else .waiting)}
  | unlinked (here : s.point i = .unlink true) :
      Step s (.unlinked i true)
        {s with waitQueue := s.waitQueue.removeFromList i,point := update s.point i .granted}
  | obtained (here : s.point i = .granted) :
      Step s (.obtained i)
        {s with waitQueue := s.waitQueue.free i,point := update s.point i .gone,tokens := s.tokens+1}
  -- drop of a future, with a dropper only if it was polled
  | forgotten (here : s.point i = .fresh) : Step s (.forgotten i) {s with point := update s.point i .gone}
  | cancelled (here : s.point i = .waiting) : Step s (.cancelled i) {s with point := update s.point i (.unlink false)}
  | dropped (here : s.point i = .unlink false) :
      Step s (.unlinked i false)
        {s with waitQueue := (s.waitQueue.removeFromList i).free i,point := update s.point i .gone}
  | tryAccessed (result : s.tryAccess = (success,next)) :
      Step s (.tryAccessed success) {s with toArbiter := next,tokens := s.tokens+success.toNat}
  | released (held : 0 < s.tokens) (result : s.release = some (handed,next)) :
      Step s (.released handed) {s with toArbiter := next,tokens := s.tokens-1}

def initial : State := ⟨Arbiter.new,fun _ => .gone,0⟩

abbrev Run (s : State) := Transition.Run Step initial s

section
variable {self next : Arbiter} {i : Nat} {waker : Waker} {outcome : Polled}

theorem poll_cases (result : self.poll i waker = (outcome,next)) :
    (self.waitQueue.queue = [] ∧ self.taken = false ∧ outcome = .entered ∧ next = {self with taken := true}) ∨
    ((self.waitQueue.queue ≠ [] ∨ self.taken = true) ∧
      ((∃ link, self.waitQueue.link i = some ⟨link,true⟩ ∧ outcome = .granted ∧ next = self) ∨
      (self.waitQueue.waits i ∧ outcome = .stillQueued ∧ next = self) ∨
      (self.waitQueue.link i = none ∧ outcome = .queued ∧
        next = {self with waitQueue := self.waitQueue.push i waker}))) := by
  unfold Arbiter.poll at result
  split at result
  · rename_i free
    cases result
    simp only [Bool.and_eq_true,WaitQueue.isEmpty_iff,Bool.not_eq_true'] at free
    exact Or.inl ⟨free.1,free.2,rfl,rfl⟩
  · rename_i busy
    have busy : self.waitQueue.queue ≠ [] ∨ self.taken = true := by
      by_contra neither
      rw [not_or,not_not,Bool.not_eq_true] at neither
      exact busy (by simp [WaitQueue.isEmpty,neither])
    refine Or.inr ⟨busy,?_⟩
    split at result
    · rename_i link linked
      rcases link with ⟨link,_|_⟩
      · cases result
        exact Or.inr (Or.inl ⟨⟨link,linked⟩,rfl,rfl⟩)
      · cases result
        exact Or.inl ⟨link,linked,rfl,rfl⟩
    · rename_i unlinked
      cases result
      exact Or.inr (Or.inr ⟨unlinked,rfl,rfl⟩)

theorem tryAccess_cases {success : Bool} (result : self.tryAccess = (success,next)) :
    (self.waitQueue.queue = [] ∧ self.taken = false ∧ success = true ∧ next = {self with taken := true}) ∨
    (success = false ∧ next = self) := by
  unfold Arbiter.tryAccess at result
  split at result
  · rename_i free
    cases result
    simp only [Bool.and_eq_true,WaitQueue.isEmpty_iff,Bool.not_eq_true'] at free
    exact Or.inl ⟨free.1,free.2,rfl,rfl⟩
  · cases result
    exact Or.inr ⟨rfl,rfl⟩

theorem release_cases {handed : Option (Nat × Waker)} (result : self.release = some (handed,next)) :
    (self.waitQueue.queue = [] ∧ handed = none ∧ next = {self with taken := false}) ∨
    ∃ j rest link, self.waitQueue.queue = j::rest ∧ self.waitQueue.link j = some link ∧
      handed = some (j,link.waker) ∧
      next = {self with
        waitQueue := ⟨rest,update self.waitQueue.link j (some {link with isPopped := true})⟩} := by
  unfold Arbiter.release at result
  split at result
  · rename_i empty
    cases result
    exact Or.inl ⟨WaitQueue.isEmpty_iff.mp empty,rfl,rfl⟩
  · rename_i filled
    obtain ⟨⟨popped,queue⟩,got,same⟩ := Option.map_eq_some_iff.mp result
    cases same
    rcases WaitQueue.pop_cases got with ⟨empty,_,_⟩ | ⟨j,rest,link,queue,linked,rfl,rfl⟩
    · exact absurd (WaitQueue.isEmpty_iff.mpr empty) filled
    · exact Or.inr ⟨j,rest,link,queue,linked,rfl,rfl⟩
end

end Rtic.Sync.Arbiter
