import Mathlib.Data.List.Basic
import Mathlib.Logic.Function.Basic
import Rtic.Library.Transition
import Rtic.Sync.Signal
namespace Rtic.Sync.SignalReader
open Function Transition Rtic.Common
variable {T : Type}

-- Where the SignalReader stands between two accesses to the Signal. Inside a poll of a
-- wait future, `waker` is the waker of that poll.
inductive ReaderPoint where
  | idle
  -- try_read
  | tryTake
  -- the future of wait, or of wait_fresh, before its first poll
  | created (fresh : Bool)
  -- the take that wait_fresh begins with
  | evict (waker : Waker)
  | register (waker : Waker)
  | take (waker : Waker)
  | pending (waker : Waker)
  deriving DecidableEq, Repr

def ReaderPoint.awaiting : ReaderPoint → Bool
  | .created _ => true
  | .pending _ => true
  | _ => false

structure State (T : Type) extends Signal T where
  handles : Nat
  writer : Nat → WriterPoint
  reader : ReaderPoint

-- Steps of the SignalWriter `i`, then steps of the SignalReader.
inductive Event (T : Type) where
  | cloned (i j : Nat)
  | stored (i : Nat) (value : Store T)
  | cleared (i : Nat)
  | woke (i : Nat) (woken : Option Waker)
  | tryReadCalled
  | waitCalled (fresh : Bool)
  | waitDropped
  | firstPolled (fresh : Bool) (waker : Waker)
  | polled (waker : Waker)
  | evicted (found : Store T)
  | registered (woken : Option Waker)
  | read (found : Store T)
  | took (found : Store T)
  deriving DecidableEq, Repr

inductive Step : State T → Event T → State T → Prop where
  | cloned (alive : i < s.handles) (here : s.writer i = .idle) :
      Step s (.cloned i s.handles) {s with handles := s.handles+1}
  -- write_inner, of Set(value) from write and of Unset from clear
  | stored (alive : i < s.handles) (here : s.writer i = .idle) :
      Step s (.stored i value) {s with toSignal := s.replace value,writer := update s.writer i .clearSeen}
  | cleared (here : s.writer i = .clearSeen) :
      Step s (.cleared i) {s with toSignal := s.clearSeen,writer := update s.writer i .wake}
  | woke (here : s.writer i = .wake) :
      Step s (.woke i s.wake.2) {s with toSignal := s.wake.1,writer := update s.writer i .idle}
  | tryReadCalled (here : s.reader = .idle) : Step s .tryReadCalled {s with reader := .tryTake}
  | waitCalled (here : s.reader = .idle) : Step s (.waitCalled fresh) {s with reader := .created fresh}
  | waitDropped (here : s.reader.awaiting = true) : Step s .waitDropped {s with reader := .idle}
  | firstPolled (here : s.reader = .created fresh) :
      Step s (.firstPolled fresh waker) {s with reader := if fresh then .evict waker else .register waker}
  | polled (here : s.reader = .pending earlier) : Step s (.polled waker) {s with reader := .register waker}
  | evicted (here : s.reader = .evict waker) :
      Step s (.evicted s.take.1) {s with toSignal := s.take.2,reader := .register waker}
  | registered (here : s.reader = .register waker) :
      Step s (.registered (s.register waker).2) {s with toSignal := (s.register waker).1,reader := .take waker}
  -- None or Some is returned with what was taken
  | read (here : s.reader = .tryTake) : Step s (.read s.take.1) {s with toSignal := s.take.2,reader := .idle}
  | ready (here : s.reader = .take waker) (found : s.take.1 = .set value) :
      Step s (.took (.set value)) {s with toSignal := s.take.2,reader := .idle}
  | notReady (here : s.reader = .take waker) (found : s.take.1 = .unset) :
      Step s (.took .unset) {s with toSignal := s.take.2,reader := .pending waker}

-- What `split` returns: one SignalWriter, number 0, and the SignalReader.
def initial : State T := ⟨{Signal.new with alreadySplit := true},1,fun _ => .idle,.idle⟩

theorem initial_split : (Signal.new : Signal T).split = some (initial : State T).toSignal := rfl

abbrev Run (s : State T) := Transition.Run Step (initial : State T) s

-- The value that a step of try_read, wait or wait_fresh returns.
def Event.returned : Event T → Option T
  | .read (.set value) => some value
  | .took (.set value) => some value
  | _ => none

-- What a take finds in the store.
def Event.found : Event T → Option (Store T)
  | .evicted found => some found
  | .read found => some found
  | .took found => some found
  | _ => none

-- What an event leaves in the store.
def Event.leaves (store : Store T) : Event T → Store T
  | .stored _ value => value
  | .evicted _ => .unset
  | .read _ => .unset
  | .took _ => .unset
  | _ => store

def Event.polls : Event T → Bool
  | .firstPolled _ _ => true
  | .polled _ => true
  | _ => false

def Event.wakes : Event T → Option Waker
  | .woke _ woken => woken
  | .registered woken => woken
  | _ => none

-- Every write and clear counts from 1 on in the order of their store steps. `returned` are
-- the numbers of those whose values have been returned. For the wait future that was polled
-- last: whether it is one of wait_fresh, and the stores made before its first poll.
structure History (T : Type) where
  stores : List (Store T)
  returned : List Nat
  fresh : Bool
  before : Nat
  deriving DecidableEq, Repr

def History.take (self : History T) : Store T → History T
  | .set _ => {self with returned := self.returned++[self.stores.length]}
  | .unset => self

def History.observe (self : History T) : Event T → History T
  | .stored _ value => {self with stores := self.stores++[value]}
  | .firstPolled fresh _ => {self with fresh := fresh,before := self.stores.length}
  | .read found => self.take found
  | .took found => self.take found
  | _ => self

def history (evs : List (Event T)) : History T := evs.foldl History.observe ⟨[],[],false,0⟩

variable {evs : List (Event T)} {s t : State T} {e : Event T}

theorem history_snoc : history (evs++[e]) = (history evs).observe e := by
  unfold history
  rw [List.foldl_append]
  rfl

-- A value is returned by the step that takes it, from the last write or clear, and only once.
def Latest (evs : List (Event T)) (_ : State T) (e : Event T) (_ : State T) : Prop :=
  ∀ value, e.returned = some value →
    (history evs).stores.getLast? = some (.set value) ∧ (history evs).stores.length ∉ (history evs).returned

-- What was stored last, unless it has been taken since.
def kept (evs : List (Event T)) : Store T := evs.foldl Event.leaves .unset

def FindsKept (evs : List (Event T)) (_ : State T) (e : Event T) (_ : State T) : Prop :=
  ∀ found, e.found = some found → found = kept evs

-- What a wait_fresh returns was stored after its first poll.
def FreshOnly (evs : List (Event T)) (_ : State T) (e : Event T) (_ : State T) : Prop :=
  ∀ value, e = .took (.set value) → (history evs).fresh = true → (history evs).before < (history evs).stores.length

-- The waker has been woken since the poll that it was passed to began.
def woken (evs : List (Event T)) (waker : Waker) : Prop := ∃ e ∈ since Event.polls evs, e.wakes = some waker

def storing (s : State T) : Prop := ∃ i, s.writer i = .clearSeen ∨ s.writer i = .wake

def WakeupKept (evs : List (Event T)) (s : State T) : Prop :=
  ∀ value waker, s.store = .set value → s.reader = .pending waker → woken evs waker ∨ storing s

-- The live wait future has made its first poll as far as the first `register`.
def ReaderPoint.begun : ReaderPoint → Bool
  | .register _ => true
  | .take _ => true
  | .pending _ => true
  | _ => false

-- A value in the store is that of the last store, not yet returned, and newer than the first
-- poll of a wait_fresh that has evicted what it found.
structure Stored (evs : List (Event T)) (s : State T) : Prop where
  latest : ∀ value, s.store = .set value →
    (history evs).stores.getLast? = some (.set value) ∧ (history evs).stores.length ∉ (history evs).returned
  numbered : ∀ write ∈ (history evs).returned, write ≤ (history evs).stores.length
  once : (history evs).returned.Nodup
  earlier : (history evs).before ≤ (history evs).stores.length
  fresh : ∀ value, s.store = .set value → s.reader.begun = true → (history evs).fresh = true →
    (history evs).before < (history evs).stores.length

theorem initial_stored : Stored [] (initial : State T) :=
  ⟨by simp [initial,Signal.new],by simp [history],List.nodup_nil,Nat.le_refl _,by simp [initial,Signal.new]⟩

-- A step that neither stores nor takes nor polls for the first time.
theorem Stored.keep (stored : Stored evs s) (silent : ∀ h : History T, h.observe e = h) (store : t.store = s.store)
    (begun : t.reader.begun = true → s.reader.begun = true) : Stored (evs++[e]) t := by
  have same : history (evs++[e]) = history evs := history_snoc.trans (silent _)
  constructor <;> rw [same]
  · rw [store]
    exact stored.latest
  · exact stored.numbered
  · exact stored.once
  · exact stored.earlier
  · rw [store]
    exact fun value filled past => stored.fresh value filled (begun past)

-- A step that takes what is stored, and returns it if it is a value.
theorem Stored.taken {taken : History T} (stored : Stored evs s) (store : t.store = .unset)
    (next : history (evs++[e]) = taken)
    (outcome : taken = history evs ∨ ∃ value, s.store = .set value ∧ taken = (history evs).take (.set value)) :
    Stored (evs++[e]) t := by
  have empty : ∀ value, t.store ≠ .set value := by
    intro value
    simp [store]
  rcases outcome with same | ⟨value,filled,returned⟩
  · constructor <;> rw [next,same]
    · exact fun value filled => absurd filled (empty value)
    · exact stored.numbered
    · exact stored.once
    · exact stored.earlier
    · exact fun value filled => absurd filled (empty value)
  · constructor <;> rw [next,returned]
    · exact fun value filled => absurd filled (empty value)
    · intro write member
      rcases List.mem_append.mp member with before | last
      · exact stored.numbered write before
      · exact Nat.le_of_eq (List.mem_singleton.mp last)
    · refine List.nodup_append.mpr ⟨stored.once,by simp,?_⟩
      intro write before latest last same
      rw [same,List.mem_singleton.mp last] at before
      exact (stored.latest value filled).2 before
    · exact stored.earlier
    · exact fun value filled => absurd filled (empty value)

theorem step_stored (stored : Stored evs s) (taken : Step s e t) : Stored (evs++[e]) t := by
  cases taken with
  | stored alive here =>
    rename_i i value
    have next : history (evs++[.stored i value]) = {history evs with stores := (history evs).stores++[value]} :=
      history_snoc
    have bound : (history evs).stores.length < ((history evs).stores++[value]).length := by simp
    constructor <;> rw [next]
    · intro found filled
      cases filled
      refine ⟨List.getLast?_concat,fun member => ?_⟩
      exact Nat.not_lt_of_le (stored.numbered _ member) bound
    · exact fun write member => Nat.le_trans (stored.numbered write member) (Nat.le_of_lt bound)
    · exact stored.once
    · exact Nat.le_trans stored.earlier (Nat.le_of_lt bound)
    · exact fun _ _ _ _ => Nat.lt_of_le_of_lt stored.earlier bound
  | firstPolled here =>
    rename_i fresh waker
    have next : history (evs++[.firstPolled fresh waker]) =
        {history evs with fresh := fresh,before := (history evs).stores.length} := history_snoc
    refine ⟨?_,?_,?_,by simp [next],?_⟩
    · rw [next]
      exact stored.latest
    · rw [next]
      exact stored.numbered
    · rw [next]
      exact stored.once
    · rw [next]
      intro value filled past evicts
      cases evicts
      cases past
  | evicted here => exact stored.taken rfl history_snoc (Or.inl rfl)
  | read here =>
    refine stored.taken rfl history_snoc ?_
    cases found : s.store with
    | unset => exact Or.inl (by simp [Signal.take,found,History.observe,History.take])
    | set value => exact Or.inr ⟨value,rfl,by simp [Signal.take,found,History.observe]⟩
  | ready here found => exact stored.taken rfl history_snoc (Or.inr ⟨_,found,rfl⟩)
  | notReady here found => exact stored.taken rfl history_snoc (Or.inl rfl)
  | polled here => exact stored.keep (fun _ => rfl) rfl (fun _ => by rw [here]; rfl)
  | registered here => exact stored.keep (fun _ => rfl) rfl (fun _ => by rw [here]; rfl)
  | _ => exact stored.keep (fun _ => rfl) rfl (by first | exact id | nofun)

theorem step_latest (stored : Stored evs s) (taken : Step s e t) : Latest evs s e t := by
  intro value returned
  cases taken with
  | read here =>
    refine stored.latest value ?_
    cases found : s.store with
    | unset => simp [Signal.take,found,Event.returned] at returned
    | set other => simpa [Signal.take,found,Event.returned] using returned
  | ready here found =>
    cases returned
    exact stored.latest value found
  | _ => cases returned

theorem step_freshOnly (stored : Stored evs s) (taken : Step s e t) : FreshOnly evs s e t := by
  intro value took fresh
  subst took
  cases taken with
  | ready here found => exact stored.fresh value found (by rw [here]; rfl) fresh

-- Past `register`, the waker of the poll is registered unless it has been woken; what is stored
-- after the take is announced by the wake of its writer.
structure Waking (evs : List (Event T)) (s : State T) : Prop where
  registered : ∀ waker, s.reader = .take waker ∨ s.reader = .pending waker →
    s.waker.waker = some waker ∨ woken evs waker
  kept : WakeupKept evs s

theorem woken_snoc {waker : Waker} (quiet : e.polls = false) (before : woken evs waker) : woken (evs++[e]) waker := by
  obtain ⟨o,member,wakes⟩ := before
  refine ⟨o,?_,wakes⟩
  rw [since_snoc,quiet]
  exact List.mem_append_left _ member

theorem woken_now {waker : Waker} (quiet : e.polls = false) (wakes : e.wakes = some waker) : woken (evs++[e]) waker := by
  refine ⟨e,?_,wakes⟩
  rw [since_snoc,quiet]
  exact List.mem_append_right _ (List.mem_singleton_self e)

theorem initial_waking : Waking [] (initial : State T) :=
  ⟨by simp [initial],by simp [WakeupKept,initial]⟩

-- A step of a reader that stands before its `take`.
theorem Waking.away (reader : ∀ waker, t.reader ≠ .take waker ∧ t.reader ≠ .pending waker) : Waking (evs++[e]) t := by
  refine ⟨fun waker here => ?_,fun value waker filled here => absurd here (reader waker).2⟩
  rcases here with here | here
  · exact absurd here (reader waker).1
  · exact absurd here (reader waker).2

theorem Waking.registered_snoc (waking : Waking evs s) (quiet : e.polls = false) (reader : t.reader = s.reader)
    (same : t.waker = s.waker) (waker : Waker) (here : t.reader = .take waker ∨ t.reader = .pending waker) :
    t.waker.waker = some waker ∨ woken (evs++[e]) waker := by
  rw [reader] at here
  rw [same]
  exact (waking.registered waker here).imp_right (woken_snoc quiet)

theorem step_waking (waking : Waking evs s) (taken : Step s e t) : Waking (evs++[e]) t := by
  cases taken with
  | cloned alive here =>
    refine ⟨waking.registered_snoc rfl rfl rfl,fun value waker filled here => ?_⟩
    exact (waking.kept value waker filled here).imp_left (woken_snoc rfl)
  | stored alive here =>
    rename_i i value
    exact ⟨waking.registered_snoc rfl rfl rfl,fun _ _ _ _ => Or.inr ⟨i,Or.inl (update_self i _ _)⟩⟩
  | cleared here =>
    rename_i i
    exact ⟨waking.registered_snoc rfl rfl rfl,fun _ _ _ _ => Or.inr ⟨i,Or.inr (update_self i _ _)⟩⟩
  | woke here =>
    rename_i i
    have awake : ∀ waker, s.reader = .take waker ∨ s.reader = .pending waker → woken (evs++[.woke i s.wake.2]) waker := by
      intro waker past
      rcases waking.registered waker past with registered | before
      · exact woken_now rfl registered
      · exact woken_snoc rfl before
    exact ⟨fun waker past => Or.inr (awake waker past),fun _ waker _ pending => Or.inl (awake waker (Or.inr pending))⟩
  | registered here =>
    rename_i waker
    refine ⟨fun other past => Or.inl ?_,fun value other filled pending => by cases pending⟩
    have same : waker = other := by simpa using past
    rw [← same]
    exact WakerRegistration.register_waker _ _
  | notReady here found =>
    rename_i waker
    refine ⟨fun other past => ?_,fun value other filled pending => by cases filled⟩
    have same : waker = other := by simpa using past
    rw [← same]
    exact (waking.registered waker (Or.inl here)).imp_right (woken_snoc rfl)
  | firstPolled here =>
    rename_i fresh waker
    exact .away fun other => by cases fresh <;> simp
  | _ => exact .away fun other => by simp

theorem step_kept (same : s.store = kept evs) (taken : Step s e t) : t.store = kept (evs++[e]) := by
  have next : kept (evs++[e]) = e.leaves s.store := by
    unfold kept
    rw [List.foldl_append,same]
    rfl
  rw [next]
  cases taken <;> rfl

theorem step_found (same : s.store = kept evs) (taken : Step s e t) : FindsKept evs s e t := by
  intro found holds
  rw [← same]
  cases taken with
  | evicted here => exact (Option.some.inj holds).symm
  | read here => exact (Option.some.inj holds).symm
  | ready here value => exact (Option.some.inj holds).symm.trans value.symm
  | notReady here none_ => exact (Option.some.inj holds).symm.trans none_.symm
  | _ => cases holds

-- A take finds the last write or clear, or nothing when a take came after it.
theorem found_kept {s : State T} (run : Run s) : run.Every FindsKept :=
  run.every (fun evs s => s.store = kept evs) rfl step_kept step_found

-- Every value that is returned is the latest and is returned once, wait_fresh returns no value from before
-- it was polled, and no wake-up is lost, whatever the order of the steps of writers and reader.
theorem latest_once_awake {s : State T} (run : Run s) :
    run.Every Latest ∧ run.Through (fun evs _ => (history evs).returned.Nodup) ∧
    run.Every FreshOnly ∧
    run.Through WakeupKept := by
  refine ⟨?_,?_,?_,?_⟩
  · exact run.every Stored initial_stored step_stored step_latest
  · exact run.through_of Stored initial_stored (fun stored taken _ => step_stored stored taken)
      (fun stored => stored.once) run.every_true
  · exact run.every Stored initial_stored step_stored step_freshOnly
  · exact run.through_of Waking initial_waking (fun waking taken _ => step_waking waking taken)
      (fun waking => waking.kept) run.every_true

-- A wait_fresh evicts 5, is Pending, and is woken by the write of 6, which it returns.
def evictsStale :=
  ((((((((((((((Transition.Run.start : Run (T:=Nat) _).snoc
    (.stored 0 (.set 5)) (.stored (by decide) rfl)).snoc
    (.cleared 0) (.cleared rfl)).snoc
    (.woke 0 none) (.woke rfl)).snoc
    (.waitCalled true) (.waitCalled rfl)).snoc
    (.firstPolled true ⟨1,0⟩) (.firstPolled rfl)).snoc
    (.evicted (.set 5)) (.evicted rfl)).snoc
    (.registered none) (.registered rfl)).snoc
    (.took .unset) (.notReady rfl rfl)).snoc
    (.stored 0 (.set 6)) (.stored (by decide) rfl)).snoc
    (.cleared 0) (.cleared rfl)).snoc
    (.woke 0 (some ⟨1,0⟩)) (.woke rfl)).snoc
    (.polled ⟨1,0⟩) (.polled rfl)).snoc
    (.registered none) (.registered rfl)).snoc
    (.took (.set 6)) (.ready rfl rfl)

example : (history evictsStale.events).returned = [2] := rfl

end Rtic.Sync.SignalReader
