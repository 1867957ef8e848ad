import Mathlib.Data.List.Basic
import Mathlib.Logic.Function.Basic
import Rtic.Library.Transition
import Rtic.Sync.Signal
namespace Rtic.Sync.Watch
open Function Transition Rtic.Common
variable {T : Type}

-- Where the WatchReader stands between two accesses to the Signal. Inside a poll
-- of `changed`, `origin` is the waker of that poll.
inductive ReaderPoint (T : Type) where
  | idle
  -- changed: the future before its first poll, and after one that was Pending
  | fresh
  | pending (waker : Waker)
  | register (waker : Waker)
  | checkSeen (waker : Waker)
  | load (origin : Option Waker)
  | markSeen (origin : Option Waker) (value : T)
  deriving DecidableEq, Repr

def ReaderPoint.awaiting : ReaderPoint T → Bool
  | .fresh => true
  | .pending _ => true
  | _ => false

-- What `None` and Poll::Pending leave behind.
def ReaderPoint.suspended : Option Waker → ReaderPoint T
  | some waker => .pending waker
  | none => .idle

structure State (T : Type) extends Signal T where
  handles : Nat
  writer : Nat → WriterPoint
  reader : ReaderPoint T

-- Steps of the WatchWriter `i`, then steps of the WatchReader.
inductive Event (T : Type) where
  | cloned (i j : Nat)
  | stored (i : Nat) (value : T)
  | cleared (i : Nat)
  | woke (i : Nat) (woken : Option Waker)
  | tryGetCalled
  | changedCalled
  | changedDropped
  | polled (waker : Waker)
  | registered (woken : Option Waker)
  | checked (seen : Bool)
  | loaded (value : T)
  | foundUnset
  | returned (origin : Option Waker) (value : T)
  deriving DecidableEq, Repr

inductive Step : State T → Event T → State T → Prop where
  | cloned (alive : i < s.handles) (here : s.writer i = .idle) :
      Step s (.cloned i s.handles) {s with handles := s.handles+1}
  | stored (alive : i < s.handles) (here : s.writer i = .idle) :
      Step s (.stored i value) {s with toSignal := s.replace (.set value),writer := update s.writer i .clearSeen}
  | cleared (here : s.writer i = .clearSeen) :
      Step s (.cleared i) {s with toSignal := s.clearSeen,writer := update s.writer i .wake}
  | woke (here : s.writer i = .wake) :
      Step s (.woke i s.wake.2) {s with toSignal := s.wake.1,writer := update s.writer i .idle}
  | tryGetCalled (here : s.reader = .idle) : Step s .tryGetCalled {s with reader := .load none}
  | changedCalled (here : s.reader = .idle) : Step s .changedCalled {s with reader := .fresh}
  | changedDropped (here : s.reader.awaiting = true) : Step s .changedDropped {s with reader := .idle}
  | polled (here : s.reader.awaiting = true) : Step s (.polled waker) {s with reader := .register waker}
  | registered (here : s.reader = .register waker) :
      Step s (.registered (s.register waker).2) {s with toSignal := (s.register waker).1,reader := .checkSeen waker}
  | seen (here : s.reader = .checkSeen waker) (seen : s.seen = true) :
      Step s (.checked true) {s with reader := .pending waker}
  | unseen (here : s.reader = .checkSeen waker) (unseen : s.seen = false) :
      Step s (.checked false) {s with reader := .load (some waker)}
  | loaded (here : s.reader = .load origin) (filled : s.store = .set value) :
      Step s (.loaded value) {s with reader := .markSeen origin value}
  | foundUnset (here : s.reader = .load origin) (empty : s.store = .unset) :
      Step s .foundUnset {s with reader := .suspended origin}
  -- mark_seen, after which the value is returned
  | returned (here : s.reader = .markSeen origin value) :
      Step s (.returned origin value) {s with toSignal := s.markSeen,reader := .idle}

-- What `split` returns: one WatchWriter, number 0, and the WatchReader.
def initial : State T := ⟨{Signal.new with alreadySplit := true},1,fun _ => .idle,.idle⟩

theorem initial_split : (Signal.new : Signal T).split = some (initial : State T).toSignal := rfl

abbrev Run (s : State T) := Transition.Run Step (initial : State T) s

-- Writes are numbered from 1 on in the order of their stores. `loaded` is the
-- number of the write whose value the reader loaded last, and `returned` are those
-- of the values that try_get and changed have returned.
structure History where
  writes : Nat
  loaded : Nat
  returned : List Nat
  deriving DecidableEq, Repr

def History.observe (self : History) : Event T → History
  | .stored _ _ => {self with writes := self.writes+1}
  | .loaded _ => {self with loaded := self.writes}
  | .returned _ _ => {self with returned := self.returned++[self.loaded]}
  | _ => self

def history (evs : List (Event T)) : History := evs.foldl History.observe ⟨0,0,[]⟩

def Event.store : Event T → Option T
  | .stored _ value => some value
  | _ => none

def storedValues (evs : List (Event T)) : List T := evs.filterMap Event.store

-- The value that the write of this number stored.
def valueOf (evs : List (Event T)) (write : Nat) : Option T := (storedValues evs)[write-1]?

variable {evs : List (Event T)} {s t : State T} {e : Event T}

theorem history_snoc : history (evs++[e]) = (history evs).observe e := by
  unfold history
  rw [List.foldl_append]
  rfl

theorem storedValues_snoc : storedValues (evs++[e]) = storedValues evs++e.store.toList := by
  unfold storedValues
  rw [List.filterMap_append]
  cases stored : e.store <;> simp [stored]

-- The store holds the value of the last write, and the reader carries the value
-- of the write that it loaded.
structure Traced (evs : List (Event T)) (s : State T) : Prop where
  writes : (history evs).writes = (storedValues evs).length
  store : s.store = (storedValues evs).getLast?.elim .unset .set
  loaded : ∀ origin value, s.reader = .markSeen origin value →
    0 < (history evs).loaded ∧ (history evs).loaded ≤ (history evs).writes ∧
      valueOf evs (history evs).loaded = some value
  returned : ∀ write ∈ (history evs).returned, 0 < write ∧ write ≤ (history evs).writes

theorem initial_traced : Traced [] (initial : State T) := ⟨rfl,rfl,nofun,nofun⟩

theorem valueOf_snoc {write : Nat} {value : T} (some_ : valueOf evs write = some value) :
    valueOf (evs++[e]) write = some value := by
  unfold valueOf at some_ ⊢
  rw [storedValues_snoc]
  obtain ⟨inside,_⟩ := List.getElem?_eq_some_iff.mp some_
  rw [List.getElem?_append_left inside,some_]

-- A step that neither stores nor loads nor returns a value.
theorem Traced.keep (traced : Traced evs s) (silent : ∀ h : History, h.observe e = h) (store : t.store = s.store)
    (stored : e.store = none)
    (reader : ∀ origin value, t.reader = .markSeen origin value → s.reader = .markSeen origin value) :
    Traced (evs++[e]) t := by
  have values : storedValues (evs++[e]) = storedValues evs := by
    rw [storedValues_snoc,stored,Option.toList_none,List.append_nil]
  have same : history (evs++[e]) = history evs := history_snoc.trans (silent _)
  refine ⟨by rw [same,values,traced.writes],by rw [values,store,traced.store],fun origin value here => ?_,?_⟩
  · rw [same]
    obtain ⟨positive,bound,some_⟩ := traced.loaded origin value (reader origin value here)
    exact ⟨positive,bound,valueOf_snoc some_⟩
  · rw [same]
    exact traced.returned

theorem step_traced (traced : Traced evs s) (taken : Step s e t) : Traced (evs++[e]) t := by
  cases taken with
  | stored alive here =>
    rename_i i value
    have values : storedValues (evs++[.stored i value]) = storedValues evs++[value] := storedValues_snoc
    have next : history (evs++[.stored i value]) = {history evs with writes := (history evs).writes+1} := history_snoc
    refine ⟨by simp [next,values,traced.writes],by rw [values,List.getLast?_concat]; rfl,fun origin value here => ?_,?_⟩
    · obtain ⟨positive,bound,some_⟩ := traced.loaded origin value here
      rw [next]
      exact ⟨positive,Nat.le_succ_of_le bound,valueOf_snoc some_⟩
    · intro write member
      rw [next] at member ⊢
      obtain ⟨positive,bound⟩ := traced.returned write member
      exact ⟨positive,Nat.le_succ_of_le bound⟩
  | loaded here filled =>
    rename_i value origin
    have values : storedValues (evs++[.loaded value]) = storedValues evs := by
      rw [storedValues_snoc]
      exact List.append_nil _
    have next : history (evs++[.loaded value]) = {history evs with loaded := (history evs).writes} := history_snoc
    have store := traced.store
    rw [filled] at store
    have last : (storedValues evs).getLast? = some value := by
      cases found : (storedValues evs).getLast? with
      | none => rw [found] at store; cases store
      | some other => rw [found] at store; cases store; rfl
    have positive : 0 < (storedValues evs).length := by
      rw [List.length_pos_iff]
      rintro empty
      rw [empty] at last
      cases last
    refine ⟨by rw [next,values]; exact traced.writes,by rw [values]; exact traced.store,fun origin' value' here' => ?_,?_⟩
    · cases here'
      rw [next]
      refine ⟨by simpa [traced.writes] using positive,Nat.le_refl _,?_⟩
      unfold valueOf
      rw [values,traced.writes,← List.getLast?_eq_getElem?]
      exact last
    · rw [next]
      exact traced.returned
  | returned here =>
    rename_i origin value
    have values : storedValues (evs++[.returned origin value]) = storedValues evs := by
      rw [storedValues_snoc]
      exact List.append_nil _
    have next : history (evs++[.returned origin value]) =
        {history evs with returned := (history evs).returned++[(history evs).loaded]} := history_snoc
    refine ⟨by rw [next,values]; exact traced.writes,by rw [values]; exact traced.store,nofun,?_⟩
    intro write member
    rw [next] at member ⊢
    rcases List.mem_append.mp member with before | last
    · exact traced.returned write before
    · cases List.mem_singleton.mp last
      obtain ⟨positive,bound,_⟩ := traced.loaded _ _ here
      exact ⟨positive,bound⟩
  | foundUnset here empty =>
    rename_i origin
    exact traced.keep (fun _ => rfl) rfl rfl (by cases origin <;> nofun)
  | _ => exact traced.keep (fun _ => rfl) rfl rfl (by first | exact fun _ _ here => here | nofun)

end Rtic.Sync.Watch
