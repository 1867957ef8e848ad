import Rtic.Library.Cancellation
import Rtic.Sync.BusSharing
namespace Rtic.Sync.ArbiterI2c
open Cancellation Turns BusSharing

inductive Operation (Word : Type) where
  | read (buf : List Word)
  | write (buf : List Word)
  deriving DecidableEq, Repr

-- The methods of I2c: those of the bus, and those of the devices that share it.
inductive I2cCall (Address Word : Type) where
  | read (address : Address) (read : List Word)
  | write (address : Address) (write : List Word)
  | writeRead (address : Address) (write read : List Word)
  | transaction (address : Address) (operations : List (Operation Word))
  deriving DecidableEq, Repr

-- `released` is the drop of the ExclusiveAccess. The future is dropped as it waits for the access (`none`) or for the bus.
inductive Event (Address Word BE : Type) where
  | accessed
  | bus (call : I2cCall Address Word) (res : Except BE Unit)
  | released
  | dropped (at_ : Option (I2cCall Address Word))
  deriving DecidableEq

abbrev Task (Address Word BE S A : Type) := Future (Event Address Word BE) S A

abbrev AsyncI2c (Address Word BE S : Type) := I2cCall Address Word → S → Option (Except BE Unit) × S
abbrev BlockingI2c (Address Word BE S : Type) := I2cCall Address Word → S → Except BE Unit × S

-- The arbiter acts on all that there is.
structure Bus (S : Type) where
  access : S → Option Unit × S
  release : S → S

structure ArbiterDevice (Address Word BE S : Type) extends Bus S where
  bus : AsyncI2c Address Word BE S

structure BlockingArbiterDevice (Address Word BE S : Type) extends Bus S where
  bus : BlockingI2c Address Word BE S

section
variable {Address Word BE S : Type}

def awaitBus (bus : AsyncI2c Address Word BE S) (c : I2cCall Address Word) : Task Address Word BE S (Except BE Unit) :=
  await (bus c) (.bus c) (.dropped (some c))

def callBus (bus : BlockingI2c Address Word BE S) (c : I2cCall Address Word) : Task Address Word BE S (Except BE Unit) :=
  call (bus c) (.bus c)

-- The body of each method: the bus is lent, and does the same.
def lend (arbiter : Bus S) (x : Task Address Word BE S (Except BE Unit)) : Task Address Word BE S (Except BE Unit) := do
  await arbiter.access (fun () => .accessed) (.dropped none)
  guarded arbiter.release .released x

namespace ArbiterDevice
variable (self : ArbiterDevice Address Word BE S)

def read (address : Address) (read : List Word) : Task Address Word BE S (Except BE Unit) :=
  lend self.toBus (awaitBus self.bus (.read address read))

def write (address : Address) (write : List Word) : Task Address Word BE S (Except BE Unit) :=
  lend self.toBus (awaitBus self.bus (.write address write))

def writeRead (address : Address) (write read : List Word) : Task Address Word BE S (Except BE Unit) :=
  lend self.toBus (awaitBus self.bus (.writeRead address write read))

def transaction (address : Address) (operations : List (Operation Word)) : Task Address Word BE S (Except BE Unit) :=
  lend self.toBus (awaitBus self.bus (.transaction address operations))

def method : I2cCall Address Word → Task Address Word BE S (Except BE Unit)
  | .read address read => self.read address read
  | .write address write => self.write address write
  | .writeRead address write read => self.writeRead address write read
  | .transaction address operations => self.transaction address operations

end ArbiterDevice

namespace BlockingArbiterDevice
variable (self : BlockingArbiterDevice Address Word BE S)

def read (address : Address) (read : List Word) : Task Address Word BE S (Except BE Unit) :=
  lend self.toBus (callBus self.bus (.read address read))

def write (address : Address) (write : List Word) : Task Address Word BE S (Except BE Unit) :=
  lend self.toBus (callBus self.bus (.write address write))

def writeRead (address : Address) (write read : List Word) : Task Address Word BE S (Except BE Unit) :=
  lend self.toBus (callBus self.bus (.writeRead address write read))

def transaction (address : Address) (operations : List (Operation Word)) : Task Address Word BE S (Except BE Unit) :=
  lend self.toBus (callBus self.bus (.transaction address operations))

def method : I2cCall Address Word → Task Address Word BE S (Except BE Unit)
  | .read address read => self.read address read
  | .write address write => self.write address write
  | .writeRead address write read => self.writeRead address write read
  | .transaction address operations => self.transaction address operations

end BlockingArbiterDevice

-- The ways that a call ends: dropped as it waits for the access or for the bus, and with the answer of the bus.
inductive Passes (c : I2cCall Address Word) : List (Event Address Word BE) → Option (Except BE Unit) → Prop where
  | waiting : Passes c [.dropped none] none
  | dropped : Passes c [.accessed,.dropped (some c),.released] none
  | answered : Passes c [.accessed,.bus c res,.released] (some res)

section
variable {c : I2cCall Address Word} {events : List (Event Address Word BE)} {s : S}

theorem lend_passes {arbiter : Bus S} {x : Task Address Word BE S (Except BE Unit)}
    (bus : ∀ s, ((x s).events = [.dropped (some c)] ∧ (x s).value = none) ∨
      ∃ res, (x s).events = [.bus c res] ∧ (x s).value = some res) :
    Passes c (lend arbiter x s).events (lend arbiter x s).value := by
  unfold lend
  rcases lent : arbiter.access s with ⟨_ | _,after⟩
  · rw [bind_dropped (by rw [await_dropped lent]),await_dropped lent]
    exact .waiting
  · rw [bind_finished (by rw [await_ready lent]),await_ready lent]
    change Passes c ([.accessed]++((x after).events++[.released])) (x after).value
    rcases bus after with ⟨events,value⟩ | ⟨res,events,value⟩
    · rw [events,value]
      exact .dropped
    · rw [events,value]
      exact .answered

theorem ArbiterDevice.method_passes (self : ArbiterDevice Address Word BE S) :
    Passes c (self.method c s).events (self.method c s).value := by
  have answer : ∀ c s, ((awaitBus self.bus c s).events = [.dropped (some c)] ∧ (awaitBus self.bus c s).value = none) ∨
      ∃ res, (awaitBus self.bus c s).events = [.bus c res] ∧ (awaitBus self.bus c s).value = some res := by
    intro c s
    unfold awaitBus
    rcases bus : self.bus c s with ⟨_ | res,after⟩
    · rw [await_dropped bus]
      exact .inl ⟨rfl,rfl⟩
    · rw [await_ready bus]
      exact .inr ⟨res,rfl,rfl⟩
  cases c <;> exact lend_passes (answer _)

theorem BlockingArbiterDevice.method_passes (self : BlockingArbiterDevice Address Word BE S) :
    Passes c (self.method c s).events (self.method c s).value := by
  cases c <;> exact lend_passes fun s => .inr ⟨_,rfl,rfl⟩

-- A call of the bus that has been answered, or that is pending as the future is dropped.
inductive OnBus (c : I2cCall Address Word) : Event Address Word BE → Prop where
  | answered : OnBus c (.bus c res)
  | dropped : OnBus c (.dropped (some c))

-- The bus is called first, and once.
theorem Passes.at_bus {op : I2cCall Address Word} {value : Option (Except BE Unit)} {shown : Event Address Word BE}
    {done : List (Event Address Word BE)} (passes : Passes op events value) (onBus : OnBus c shown)
    (start : done++[shown] <+: events) : done = [.accessed] ∧ op = c := by
  have second : ∀ own : Event Address Word BE, events = [.accessed,own,.released] → done = [.accessed] ∧ shown = own := by
    rintro own rfl
    rcases done with _ | ⟨first,_ | ⟨second,rest⟩⟩
    · cases onBus <;> simp at start
    · simp only [List.cons_append,List.nil_append,List.cons_prefix_cons] at start
      exact ⟨by rw [start.1],start.2.1⟩
    · simp only [List.cons_append,List.cons_prefix_cons] at start
      have late := start.2.2.subset (List.mem_append_right _ (List.mem_singleton_self _))
      cases onBus <;> simp at late
  cases passes with
  | waiting =>
    have inside := start.subset (List.mem_append_right _ (List.mem_singleton_self _))
    cases onBus <;> simp at inside
  | dropped =>
    obtain ⟨first,rfl⟩ := second _ rfl
    cases onBus
    exact ⟨first,rfl⟩
  | answered =>
    obtain ⟨first,rfl⟩ := second _ rfl
    cases onBus
    exact ⟨first,rfl⟩

-- What a call of either device does, whatever the bus answers, and whenever it is dropped.
def Calls (c : I2cCall Address Word) (events : List (Event Address Word BE)) : Prop :=
  (∃ (S : Type) (device : ArbiterDevice Address Word BE S) (s : S), events = (device.method c s).events) ∨
  (∃ (S : Type) (device : BlockingArbiterDevice Address Word BE S) (s : S), events = (device.method c s).events)

theorem Calls.passes (calls : Calls c events) : ∃ value, Passes c events value := by
  rcases calls with ⟨S,device,s,rfl⟩ | ⟨S,device,s,rfl⟩
  · exact ⟨_,device.method_passes⟩
  · exact ⟨_,device.method_passes⟩

end

def i2c (Address Word BE : Type) : Device (I2cCall Address Word) (Event Address Word BE) where
  does := Calls
  accessed := .accessed
  released := .released
  left := .dropped none
  lent {c events} calls := by
    obtain ⟨value,passes⟩ := Calls.passes calls
    cases passes with
    | waiting => exact .inl rfl
    | dropped => exact .inr ⟨[.dropped (some c)],rfl,by simp⟩
    | @answered res => exact .inr ⟨[.bus c res],rfl,by simp⟩

-- Each turn at the bus is one call of it, at most.
def OneCall (events : List (Event Address Word BE)) : Prop :=
  ∃ c, events = [.accessed,.dropped (some c),.released] ∨ ∃ res, events = [.accessed,.bus c res,.released]

abbrev BusEvent (Address Word BE : Type) := BusSharing.Event (I2cCall Address Word) (Event Address Word BE)
abbrev BusState (Address Word BE : Type) := State (I2cCall Address Word) (Event Address Word BE)

def Shared (evs : List (BusEvent Address Word BE)) (s : BusState Address Word BE) : Prop :=
  ∃ finished current, Serial OneCall (trace evs) finished current ∧ Has s current ∧ s.others+current.toList.length ≤ 1

-- The bus is called with what the device was, as soon as the device has it, and nobody else has it then.
def PassedOn (_ : List (BusEvent Address Word BE)) (s : BusState Address Word BE) (e : BusEvent Address Word BE)
    (_ : BusState Address Word BE) : Prop :=
  ∀ i d c shown, OnBus c shown → e = .did i d shown → s.others = 0 ∧ Has s (some ⟨d,[.accessed]⟩) ∧
    s.call i = some ⟨d,c,[.accessed]⟩

section
variable {evs : List (BusEvent Address Word BE)} {s t : BusState Address Word BE} {e : BusEvent Address Word BE}

theorem whole_oneCall {events : List (Event Address Word BE)} (whole : Whole (i2c Address Word BE) events) :
    OneCall events := by
  obtain ⟨c,calls,lent⟩ := whole
  obtain ⟨value,passes⟩ := Calls.passes calls
  cases passes with
  | waiting => exact absurd rfl lent
  | dropped => exact ⟨c,.inl rfl⟩
  | @answered res => exact ⟨c,.inr ⟨res,rfl⟩⟩

theorem Sound.shared (sound : Sound (i2c Address Word BE) evs s) : Shared evs s := by
  obtain ⟨finished,current,serial,has,alone⟩ := sound.takesTurns
  exact ⟨finished,current,serial.imp whole_oneCall,has,alone⟩

theorem step_passedOn (sound : Sound (i2c Address Word BE) evs s) (taken : Step (i2c Address Word BE) s e t) :
    PassedOn evs s e t := by
  obtain ⟨finished,current,serial,has,alone⟩ := sound.takesTurns
  rintro i d c shown onBus rfl
  cases taken with
  | accessed here waiting allowed taken => cases onBus
  | released here lent allowed taken => cases onBus
  | worked here lent allowed other =>
    rename_i call
    obtain ⟨rfl,_⟩ := has.mine here lent
    obtain ⟨device,op,done⟩ := call
    obtain ⟨events,does,start⟩ := allowed
    obtain ⟨value,passes⟩ := Calls.passes does
    obtain ⟨rfl,rfl⟩ := passes.at_bus onBus start
    exact ⟨by simpa using alone,has,here⟩

theorem i2c_bus_shared (run : BusSharing.Run (i2c Address Word BE) s) : run.Through Shared ∧ run.Every PassedOn :=
  ⟨run.through_of (Sound (i2c Address Word BE)) initial_sound (fun sound taken _ => step_sound sound taken) Sound.shared
      run.every_true,
    run.every (Sound (i2c Address Word BE)) initial_sound step_sound step_passedOn⟩

end
end

end Rtic.Sync.ArbiterI2c
