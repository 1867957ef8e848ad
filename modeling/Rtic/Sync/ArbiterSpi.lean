import Mathlib.Data.List.Basic
import Rtic.Library.Cancellation
namespace Rtic.Sync.ArbiterSpi
open Cancellation

inductive Operation (Word : Type) where
  | read (buf : List Word)
  | write (buf : List Word)
  | transfer (read write : List Word)
  | transferInPlace (buf : List Word)
  | delayNs (ns : Nat)
  deriving DecidableEq, Repr

-- The methods of SpiBus.
inductive BusCall (Word : Type) where
  | read (buf : List Word)
  | write (buf : List Word)
  | transfer (read write : List Word)
  | transferInPlace (buf : List Word)
  | flush
  deriving DecidableEq, Repr

inductive DeviceError (BE CE : Type) where
  | spi (e : BE)
  | cs (e : CE)
  deriving DecidableEq, Repr

-- What a transaction awaits.
inductive Awaiting (Word : Type) where
  | access
  | bus (call : BusCall Word)
  | delayNs (ns : Nat)
  deriving DecidableEq, Repr

-- `released` is the drop of the ExclusiveAccess, and `dropped` that of the future, while it is suspended.
inductive Event (Word BE CE : Type) where
  | accessed
  | setLow (res : Except CE Unit)
  | bus (call : BusCall Word) (res : Except BE Unit)
  | delayed (ns : Nat)
  | setHigh (res : Except CE Unit)
  | released
  | dropped (at_ : Awaiting Word)

-- The arbiter, the bus, the chip select and the delay, each as it acts on all that there is.
-- What is awaited answers none where the future is dropped before it is ready.
structure Parts (Word BE CE S : Type) where
  access : S → Option Unit × S
  release : S → S
  setLow : S → Except CE Unit × S
  setHigh : S → Except CE Unit × S
  delayNs : Nat → S → Option Unit × S

abbrev AsyncSpiBus (Word BE S : Type) := BusCall Word → S → Option (Except BE Unit) × S
abbrev BlockingSpiBus (Word BE S : Type) := BusCall Word → S → Except BE Unit × S

section
variable {Word BE CE S : Type}

abbrev Task (Word BE CE S A : Type) := Future (Event Word BE CE) S A

def awaitBus (spi : AsyncSpiBus Word BE S) (c : BusCall Word) : Task Word BE CE S (Except BE Unit) :=
  await (spi c) (.bus c) (.dropped (.bus c))

def callBus (spi : BlockingSpiBus Word BE S) (c : BusCall Word) : Task Word BE CE S (Except BE Unit) :=
  call (spi c) (.bus c)

section
variable (parts : Parts Word BE CE S) (bus : BusCall Word → Task Word BE CE S (Except BE Unit))

def runOperation : Operation Word → Task Word BE CE S (Except BE Unit)
  | .read buf => bus (.read buf)
  | .write buf => bus (.write buf)
  | .transfer read write => bus (.transfer read write)
  | .transferInPlace buf => bus (.transferInPlace buf)
  | .delayNs ns => do
    match ← bus .flush with
    | .error e => return .error e
    | .ok () =>
      await (parts.delayNs ns) (fun () => .delayed ns) (.dropped (.delayNs ns))
      return .ok ()

-- The block 'ops.
def runOperations : List (Operation Word) → Task Word BE CE S (Except BE Unit)
  | [] => return .ok ()
  | op::operations => do
    match ← runOperation parts bus op with
    | .error e => return .error e
    | .ok () => runOperations operations

-- All that comes after the bus is lent.
def select (operations : List (Operation Word)) : Task Word BE CE S (Except (DeviceError BE CE) Unit) := do
  match ← call parts.setLow .setLow with
  | .error e => return .error (.cs e)
  | .ok () =>
    let opRes ← runOperations parts bus operations
    let flushRes ← bus .flush
    let csRes ← call parts.setHigh .setHigh
    return do
      opRes.mapError .spi
      flushRes.mapError .spi
      csRes.mapError .cs

def transaction (operations : List (Operation Word)) : Task Word BE CE S (Except (DeviceError BE CE) Unit) := do
  await parts.access (fun () => .accessed) (.dropped .access)
  guarded parts.release .released (select parts bus operations)
end

-- The two devices differ in whether they await the bus.
structure ArbiterDevice (Word BE CE S : Type) extends Parts Word BE CE S where
  spi : AsyncSpiBus Word BE S

structure BlockingArbiterDevice (Word BE CE S : Type) extends Parts Word BE CE S where
  spi : BlockingSpiBus Word BE S

def ArbiterDevice.transaction (self : ArbiterDevice Word BE CE S) (operations : List (Operation Word)) :
    Task Word BE CE S (Except (DeviceError BE CE) Unit) :=
  ArbiterSpi.transaction self.toParts (awaitBus self.spi) operations

def BlockingArbiterDevice.transaction (self : BlockingArbiterDevice Word BE CE S) (operations : List (Operation Word)) :
    Task Word BE CE S (Except (DeviceError BE CE) Unit) :=
  ArbiterSpi.transaction self.toParts (callBus self.spi) operations

-- Whether set_low has succeeded and set_high was not called since.
def lowers (lowered : Bool) : Event Word BE CE → Bool
  | .setLow (.ok ()) => true
  | .setHigh _ => false
  | _ => lowered
def lowered (events : List (Event Word BE CE)) : Bool := events.foldl lowers false

def ReleasesChip (events : List (Event Word BE CE)) : Prop :=
  ∀ before after, events = before++.released::after → lowered before = false

def DroppedSelected (events : List (Event Word BE CE)) : Prop :=
  ∃ before at_ after, events = before++.dropped at_::after ∧ lowered before = true

-- The operations up to the first that fails, with what each one answered, and the first error.
inductive Executed : List (Operation Word) → List (Operation Word × Except BE Unit) → Except BE Unit → Prop where
  | none : Executed [] [] (.ok ())
  | failed : Executed (op::operations) [(op,.error e)] (.error e)
  | succeeded (rest : Executed operations done res) : Executed (op::operations) ((op,.ok ())::done) res

-- A delay comes after a flush, whose error is its own.
def Operation.events : Operation Word → Except BE Unit → List (Event Word BE CE)
  | .read buf,res => [.bus (.read buf) res]
  | .write buf,res => [.bus (.write buf) res]
  | .transfer r w,res => [.bus (.transfer r w) res]
  | .transferInPlace buf,res => [.bus (.transferInPlace buf) res]
  | .delayNs _,.error e => [.bus .flush (.error e)]
  | .delayNs ns,.ok () => [.bus .flush (.ok ()),.delayed ns]

def reported : Except BE Unit → Except BE Unit → Except CE Unit → Except (DeviceError BE CE) Unit
  | .error e,_,_ => .error (.spi e)
  | .ok (),.error e,_ => .error (.spi e)
  | .ok (),.ok (),.error e => .error (.cs e)
  | .ok (),.ok (),.ok () => .ok ()

def Completes (operations : List (Operation Word)) (events : List (Event Word BE CE))
    (result : Except (DeviceError BE CE) Unit) : Prop :=
  (∃ e, events = [.accessed,.setLow (.error e),.released] ∧ result = .error (.cs e)) ∨
  ∃ executed opRes flushRes csRes, Executed operations executed opRes ∧
    events = [.accessed,.setLow (.ok ())]++executed.flatMap (fun done => done.1.events done.2)++
      [.bus .flush flushRes,.setHigh csRes,.released] ∧
    result = reported opRes flushRes csRes

-- Events that leave the line as it is and that are not the end of anything.
inductive Working : Event Word BE CE → Prop where
  | bus : Working (.bus c res)
  | delayed : Working (.delayed ns)

inductive Dropped : Event Word BE CE → Prop where
  | dropped : Dropped (.dropped at_)

-- What both devices have of the bus.
structure Answers (bus : BusCall Word → Task Word BE CE S (Except BE Unit)) : Prop where
  works : ∀ c s, Works Working Dropped (bus c s)
  finished : ∀ c s res, (bus c s).value = some res → (bus c s).events = [.bus c res]

theorem awaitBus_answers (spi : AsyncSpiBus Word BE S) :
    Answers (awaitBus spi : BusCall Word → Task Word BE CE S (Except BE Unit)) := by
  refine ⟨fun c s => Works.await (fun _ => .bus) .dropped,fun c s res value => ?_⟩
  unfold awaitBus at value ⊢
  rcases answer : spi c s with ⟨_ | res,after⟩
  · rw [await_dropped answer] at value
    cases value
  · rw [await_ready answer] at value ⊢
    cases value
    rfl

theorem callBus_answers (spi : BlockingSpiBus Word BE S) :
    Answers (callBus spi : BusCall Word → Task Word BE CE S (Except BE Unit)) := by
  refine ⟨fun c s => Works.call fun _ => .bus,fun c s res value => ?_⟩
  cases value
  rfl

section
variable {parts : Parts Word BE CE S} {bus : BusCall Word → Task Word BE CE S (Except BE Unit)} {s : S}
  {operations : List (Operation Word)}

theorem runOperation_works (answers : Answers bus) (op : Operation Word) :
    Works Working Dropped (runOperation parts bus op s) := by
  cases op with
  | delayNs ns =>
    refine (answers.works .flush s).bind fun res s => ?_
    cases res with
    | error e => exact Works.pure _
    | ok => exact (Works.await (fun _ => .delayed) .dropped).bind fun _ _ => Works.pure _
  | _ => exact answers.works _ s

theorem runOperation_finished (answers : Answers bus) {op : Operation Word} {res : Except BE Unit}
    (value : (runOperation parts bus op s).value = some res) : (runOperation parts bus op s).events = op.events res := by
  cases op with
  | delayNs ns =>
    obtain ⟨flushed,first,rest,events⟩ := bind_value value
    have flush := answers.finished _ _ _ first
    unfold runOperation
    rw [events,flush]
    cases flushed with
    | error e =>
      cases rest
      rfl
    | ok =>
      obtain ⟨_,waited,rest,events⟩ := bind_value rest
      cases rest
      rw [events]
      rcases answer : parts.delayNs ns (bus .flush s).state with ⟨_ | _,after⟩
      · rw [await_dropped answer] at waited
        cases waited
      · rw [await_ready answer]
        rfl
  | _ => exact answers.finished _ s res value

theorem runOperations_works (answers : Answers bus) : Works Working Dropped (runOperations parts bus operations s) := by
  induction operations generalizing s with
  | nil => exact Works.pure _
  | cons op operations ih =>
    refine (runOperation_works answers op).bind fun res s => ?_
    cases res with
    | error e => exact Works.pure _
    | ok => exact ih

theorem runOperations_finished (answers : Answers bus) {res : Except BE Unit}
    (value : (runOperations parts bus operations s).value = some res) : ∃ executed, Executed operations executed res ∧
      (runOperations parts bus operations s).events = executed.flatMap (fun done => done.1.events done.2) := by
  induction operations generalizing s with
  | nil =>
    cases value
    exact ⟨[],.none,rfl⟩
  | cons op operations ih =>
    obtain ⟨first,done,rest,events⟩ := bind_value value
    have here := runOperation_finished answers done
    unfold runOperations
    rw [events,here]
    cases first with
    | error e =>
      cases rest
      exact ⟨[(op,.error e)],.failed,by simp⟩
    | ok =>
      obtain ⟨executed,all,same⟩ := ih rest
      exact ⟨(op,.ok ())::executed,.succeeded all,congrArg _ same⟩

-- The ways that a transaction ends: before the bus is lent, as the pin fails, dropped at work, and complete.
inductive Ends (operations : List (Operation Word)) :
    List (Event Word BE CE) → Option (Except (DeviceError BE CE) Unit) → Prop where
  | waiting : Ends operations [.dropped .access] none
  | refused : Ends operations [.accessed,.setLow (.error e),.released] (some (.error (.cs e)))
  | dropped (all : ∀ e ∈ events, Working e) :
      Ends operations ([.accessed,.setLow (.ok ())]++events++[.dropped at_,.released]) none
  | complete (all : ∀ e ∈ events, Working e) (executed : Executed operations done opRes)
      (same : events = done.flatMap fun done => done.1.events done.2) :
      Ends operations ([.accessed,.setLow (.ok ())]++events++[.bus .flush flushRes,.setHigh csRes,.released])
        (some (reported opRes flushRes csRes))

theorem reported_eq (opRes flushRes : Except BE Unit) (csRes : Except CE Unit) :
    (do
      opRes.mapError .spi
      flushRes.mapError .spi
      csRes.mapError .cs) = reported opRes flushRes csRes := by
  cases opRes <;> cases flushRes <;> cases csRes <;> rfl

-- What a transaction does while it has the bus.
theorem select_ends (answers : Answers bus) :
    Ends operations (.accessed::(select parts bus operations s).events++[.released]) (select parts bus operations s).value := by
  unfold select
  rcases pin : parts.setLow s with ⟨e | _,low⟩
  · rw [bind_finished (a:=.error e) (by simp [call,pin])]
    simp only [call,pin]
    exact .refused
  · rw [bind_finished (a:=.ok ()) (by simp [call,pin])]
    simp only [call,pin]
    have works : Works Working Dropped (runOperations parts bus operations low) := runOperations_works answers
    cases works with
    | dropped events e value same all last =>
      rw [bind_dropped value,same]
      cases last
      simpa using Ends.dropped all
    | finished opRes value all =>
      rw [bind_finished value]
      obtain ⟨done,executed,same⟩ := runOperations_finished answers value
      generalize (runOperations parts bus operations low).events = events at all same ⊢
      generalize (runOperations parts bus operations low).state = worked
      cases answers.works .flush worked with
      | dropped flushing e value' same' all' last =>
        rw [bind_dropped value',same']
        cases last
        have both : ∀ e ∈ events++flushing, Working e := fun e member => (List.mem_append.mp member).elim (all e) (all' e)
        simpa using Ends.dropped both
      | finished flushRes value' _ =>
        rw [bind_finished value',answers.finished _ _ _ value']
        rcases pin' : parts.setHigh (bus .flush worked).state with ⟨csRes,high⟩
        rw [bind_finished (a:=csRes) (by simp [call,pin'])]
        simp only [call,pin',pure_ran,reported_eq]
        have complete : Ends operations _ (some (reported opRes flushRes csRes)) := .complete all executed same
        simpa using complete

theorem transaction_ends (answers : Answers bus) :
    Ends operations (transaction parts bus operations s).events (transaction parts bus operations s).value := by
  unfold transaction
  rcases lent : parts.access s with ⟨_ | _,after⟩
  · rw [bind_dropped (by rw [await_dropped lent]),await_dropped lent]
    exact .waiting
  · rw [bind_finished (by rw [await_ready lent]),await_ready lent]
    exact select_ends answers

theorem lowered_working {before events : List (Event Word BE CE)} (all : ∀ e ∈ events, Working e) :
    lowered (before++events) = lowered before := by
  unfold lowered
  rw [List.foldl_append]
  induction events generalizing before with
  | nil => rfl
  | cons e events ih =>
    have here : ∀ b, lowers b e = b := by
      intro b
      cases all e List.mem_cons_self <;> rfl
    rw [List.foldl_cons,here]
    exact ih fun e member => all e (List.mem_cons_of_mem _ member)

-- The bus is given back once, at the end.
theorem releasesChip_iff (before : List (Event Word BE CE)) (fresh : .released ∉ before) :
    ReleasesChip (before++[.released]) ↔ lowered before = false := by
  refine ⟨fun releases => releases before [] rfl,fun off before' after same => ?_⟩
  obtain ⟨rfl,_⟩ := (List.append_cons_inj_of_notMem fresh List.not_mem_nil).mp same
  exact off

theorem not_droppedSelected {events : List (Event Word BE CE)} (kept : ∀ at_, .dropped at_ ∉ events) :
    ¬ DroppedSelected events := by
  rintro ⟨before,at_,after,rfl,_⟩
  exact kept at_ (List.mem_append_right _ List.mem_cons_self)

theorem Ends.releases_iff {events : List (Event Word BE CE)} {value : Option (Except (DeviceError BE CE) Unit)}
    (ends : Ends operations events value) : ReleasesChip events ↔ ¬ DroppedSelected events := by
  cases ends with
  | waiting =>
    refine iff_of_true (fun before after same => ?_) ?_
    · cases before with
      | nil => cases same
      | cons _ before => exact absurd (congrArg List.length same) (by simp)
    · rintro ⟨before,at_,after,same,on⟩
      cases before with
      | nil => cases on
      | cons _ before => exact absurd (congrArg List.length same) (by simp)
  | @refused e =>
    refine iff_of_true ((releasesChip_iff [.accessed,.setLow (.error e)] (by simp)).mpr rfl)
      (not_droppedSelected (by simp))
  | @dropped events at_ all =>
    have working : .released ∉ events := fun member => nomatch all _ member
    have on : lowered ([.accessed,.setLow (.ok ())]++events) = true := lowered_working all
    have still : lowered ([.accessed,.setLow (.ok ())]++events++[.dropped at_]) = true := by
      rw [lowered,List.foldl_append]
      exact on
    refine iff_of_false (fun releases => ?_) fun spared => spared ⟨_,at_,[.released],rfl,on⟩
    have off := releases ([.accessed,.setLow (.ok ())]++events++[.dropped at_]) [] (by simp)
    exact Bool.noConfusion (off.symm.trans still)
  | @complete events done opRes flushRes csRes all executed same =>
    have working : .released ∉ events := fun member => nomatch all _ member
    have kept : ∀ at_, .dropped at_ ∉ events := fun at_ member => nomatch all _ member
    refine iff_of_true ?_ (not_droppedSelected fun at_ => ?_)
    · have off : lowered ([.accessed,.setLow (.ok ())]++events++[.bus .flush flushRes,.setHigh csRes]) = false := by
        rw [lowered,List.foldl_append]
        rfl
      have releases := (releasesChip_iff _ (by simpa using working)).mpr off
      simpa using releases
    · simpa using kept at_

theorem Ends.completes {events : List (Event Word BE CE)} {result : Except (DeviceError BE CE) Unit}
    (ends : Ends operations events (some result)) : Completes operations events result := by
  cases ends with
  | refused => exact .inl ⟨_,rfl,rfl⟩
  | complete all executed same =>
    subst same
    exact .inr ⟨_,_,_,_,executed,rfl,rfl⟩
end

-- Chip select is high again before the bus is given back if and only if the future is not dropped
-- between set_low and set_high, and what completes did all that it should.
theorem chip_released_iff (operations : List (Operation Word)) (s : S) :
    (∀ device : ArbiterDevice Word BE CE S,
      (ReleasesChip (device.transaction operations s).events ↔ ¬ DroppedSelected (device.transaction operations s).events) ∧
      ∀ result, (device.transaction operations s).value = some result →
        Completes operations (device.transaction operations s).events result) ∧
    (∀ device : BlockingArbiterDevice Word BE CE S,
      (ReleasesChip (device.transaction operations s).events ↔ ¬ DroppedSelected (device.transaction operations s).events) ∧
      ∀ result, (device.transaction operations s).value = some result →
        Completes operations (device.transaction operations s).events result) := by
  refine ⟨fun device => ?_,fun device => ?_⟩
  · have ends : Ends operations (device.transaction operations s).events (device.transaction operations s).value :=
      transaction_ends (awaitBus_answers device.spi)
    exact ⟨ends.releases_iff,fun result value => Ends.completes (value ▸ ends)⟩
  · have ends : Ends operations (device.transaction operations s).events (device.transaction operations s).value :=
      transaction_ends (callBus_answers device.spi)
    exact ⟨ends.releases_iff,fun result value => Ends.completes (value ▸ ends)⟩
end

-- All succeeds, but what the bus or the delay awaits is pending until the future is dropped.
def suspending : Parts Nat Unit Unit Unit :=
  ⟨fun s => (some (),s),id,fun s => (.ok (),s),fun s => (.ok (),s),fun _ s => (none,s)⟩

def suspended : ArbiterDevice Nat Unit Unit Unit := ⟨suspending,fun _ s => (none,s)⟩
def blockingSuspended : BlockingArbiterDevice Nat Unit Unit Unit := ⟨suspending,fun _ s => (.ok (),s)⟩

theorem suspended_selected : ¬ ReleasesChip (suspended.transaction [.read [0]] ()).events ∧
    ¬ ReleasesChip (blockingSuspended.transaction [.write [1],.delayNs 100] ()).events := by
  refine ⟨fun releases => ?_,fun releases => ?_⟩
  · have off := releases [.accessed,.setLow (.ok ()),.dropped (.bus (.read [0]))] [] rfl
    cases off
  · have off := releases [.accessed,.setLow (.ok ()),.bus (.write [1]) (.ok ()),.bus .flush (.ok ()),
      .dropped (.delayNs 100)] [] rfl
    cases off

end Rtic.Sync.ArbiterSpi
