import Rtic.Common.WakerRegistration
import Rtic.Library.Transition
namespace Rtic.Common
open Transition

-- A step with the waker in the Context of the poll that it belongs to; it does not matter where it belongs to none.
structure InContext (E : Type) where
  event : E
  context : Waker
  deriving DecidableEq, Repr

-- How futures, named by their addresses, show in the steps of a program on states `S`.
structure Futures (E S : Type) where
  created : E → Option Nat
  -- the future whose poll ends as Pending
  pending : E → Option Nat
  -- the waker that is cloned out of the Context
  clones : E → Option Waker
  -- the future whose link a step to this state pops, with the waker that is woken for it
  woken : E → S → Option (Nat × Waker)

namespace Futures
variable {E S K : Type} (futures : Futures E S)

def Step (step : S → E → S → Prop) (s : S) (l : InContext E) (t : S) : Prop :=
  step s l.event t ∧ ∀ waker, futures.clones l.event = some waker → waker = l.context

def next (i : Nat) (wakers : List Waker) (l : InContext E) : List Waker :=
  if futures.created l.event = some i then []
  else if futures.pending l.event = some i then wakers++[l.context]
  else wakers

-- The wakers of the polls that the future at `i` has answered Pending to, since it was created.
def polls (evs : List (InContext E)) (i : Nat) : List Waker := evs.foldl (futures.next i) []

-- The waker that is woken wakes the task that polled last.
def WakesLatest (task : Waker → K) (evs : List (InContext E)) (_ : S) (l : InContext E) (t : S) : Prop :=
  ∀ i waker, futures.woken l.event t = some (i,waker) → (futures.polls evs i).getLast?.map task = some (task waker)

-- A future whose link is popped was polled last by the task that polled it first.
def Unmoved (task : Waker → K) (evs : List (InContext E)) (_ : S) (l : InContext E) (t : S) : Prop :=
  ∀ i waker, futures.woken l.event t = some (i,waker) →
    (futures.polls evs i).head?.map task = (futures.polls evs i).getLast?.map task

def WakesFirst (evs : List (InContext E)) (_ : S) (l : InContext E) (t : S) : Prop :=
  ∀ i waker, futures.woken l.event t = some (i,waker) → (futures.polls evs i).head? = some waker

section
variable {futures} {task : Waker → K} {evs : List (InContext E)} {l : InContext E} {i : Nat} {s t : S} {step : S → E → S → Prop}
  {init : S}

theorem polls_snoc : futures.polls (evs++[l]) i = futures.next i (futures.polls evs i) l := by
  unfold polls
  rw [List.foldl_append]
  rfl

theorem next_pending {wakers : List Waker} (created : futures.created l.event = none)
    (pending : futures.pending l.event = some i) : futures.next i wakers l = wakers++[l.context] := by
  unfold next
  rw [created,if_neg nofun,if_pos pending]

-- The first of them stays the first.
theorem head_next {wakers : List Waker} {waker : Waker} (first : wakers.head? = some waker)
    (created : futures.created l.event = none) (pending : futures.pending l.event = some i) :
    (futures.next i wakers l).head? = some waker := by
  rw [next_pending created pending,List.head?_append,first]
  rfl

theorem polls_created (created : futures.created l.event = some i) : futures.polls (evs++[l]) i = [] := by
  rw [polls_snoc]
  exact if_pos created

theorem polls_keep (created : futures.created l.event ≠ some i) (pending : futures.pending l.event ≠ some i) :
    futures.polls (evs++[l]) i = futures.polls evs i := by
  rw [polls_snoc]
  exact (if_neg created).trans (if_neg pending)

theorem polls_pending (created : futures.created l.event ≠ some i) (pending : futures.pending l.event = some i) :
    futures.polls (evs++[l]) i = futures.polls evs i++[l.context] := by
  rw [polls_snoc]
  exact (if_neg created).trans (if_pos pending)

-- Where each link that is popped wakes the task that polled first, those are the same.
theorem wakesLatest_iff (run : Run (futures.Step step) init s) (first : run.Every futures.WakesFirst) :
    run.Every (futures.WakesLatest task) ↔ run.Every (futures.Unmoved task) := by
  constructor
  · intro latest
    refine (latest.and first).imp fun both i waker woken => ?_
    rw [both.2 i waker woken]
    exact (both.1 i waker woken).symm
  · intro unmoved
    refine (unmoved.and first).imp fun both i waker woken => ?_
    rw [← both.1 i waker woken,both.2 i waker woken]
    rfl
end

end Futures
end Rtic.Common
