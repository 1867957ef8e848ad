import Rtic.Sync.ArbiterSpi
import Rtic.Sync.BusSharing
namespace Rtic.Sync.SpiSharing
open Turns ArbiterSpi BusSharing

section
variable {Word BE CE : Type}

-- What a transaction of either device does, whatever the pin, the bus and the delay answer, and whenever it is dropped.
def Transacts (operations : List (Operation Word)) (events : List (ArbiterSpi.Event Word BE CE)) : Prop :=
  (∃ (S : Type) (device : ArbiterDevice Word BE CE S) (s : S), events = (device.transaction operations s).events) ∨
  (∃ (S : Type) (device : BlockingArbiterDevice Word BE CE S) (s : S), events = (device.transaction operations s).events)

theorem Transacts.ends {operations : List (Operation Word)} {events : List (ArbiterSpi.Event Word BE CE)}
    (transacts : Transacts operations events) : ∃ value, Ends operations events value := by
  rcases transacts with ⟨S,device,s,rfl⟩ | ⟨S,device,s,rfl⟩
  · exact ⟨_,transaction_ends (awaitBus_answers device.spi)⟩
  · exact ⟨_,transaction_ends (callBus_answers device.spi)⟩

theorem ends_lent {operations : List (Operation Word)} {events : List (ArbiterSpi.Event Word BE CE)}
    {value : Option (Except (DeviceError BE CE) Unit)} (ends : Ends operations events value) :
    events = [.dropped .access] ∨ ∃ body, events = .accessed::body++[.released] ∧ ∀ e ∈ body, e ≠ .released := by
  cases ends with
  | waiting => exact .inl rfl
  | @refused e => exact .inr ⟨[.setLow (.error e)],rfl,by simp⟩
  | @dropped events at_ all =>
    refine .inr ⟨.setLow (.ok ())::events++[.dropped at_],by simp,fun e member same => ?_⟩
    subst same
    simp only [List.cons_append,List.mem_cons,List.mem_append,List.not_mem_nil,or_false,reduceCtorEq,false_or] at member
    cases all _ member
  | @complete events done opRes flushRes csRes all executed same =>
    refine .inr ⟨.setLow (.ok ())::events++[.bus .flush flushRes,.setHigh csRes],by simp,fun e member same => ?_⟩
    subst same
    simp only [List.cons_append,List.mem_cons,List.mem_append,List.not_mem_nil,or_false,reduceCtorEq,false_or] at member
    cases all _ member

def spi (Word BE CE : Type) : Device (List (Operation Word)) (ArbiterSpi.Event Word BE CE) where
  does := Transacts
  accessed := .accessed
  released := .released
  left := .dropped .access
  lent transacts := by
    obtain ⟨value,ends⟩ := Transacts.ends transacts
    exact ends_lent ends

-- The chip select pin. A call that fails leaves it as it was.
def line (selected : Bool) : ArbiterSpi.Event Word BE CE → Bool
  | .setLow (.ok ()) => true
  | .setHigh (.ok ()) => false
  | _ => selected
def selected (events : List (ArbiterSpi.Event Word BE CE)) : Bool := events.foldl line false

-- Nothing happened, for the pin failed.
def Refused (events : List (ArbiterSpi.Event Word BE CE)) : Prop := ∃ e, events = [.accessed,.setLow (.error e),.released]

-- A transaction was dropped at work, or its set_high failed.
def KeepsSelected (events : List (ArbiterSpi.Event Word BE CE)) : Prop :=
  DroppedSelected events ∨ ∃ e, .setHigh (.error e) ∈ events

-- The chip of `d` is selected still: a transaction has kept it so, and no later one has set the pin.
def LeftSelected (d : Nat) (finished : List (Turn Nat (ArbiterSpi.Event Word BE CE))) : Prop :=
  ∃ earlier turn later, turnsOf d finished = earlier++turn::later ∧ KeepsSelected turn.events ∧
    ∀ other ∈ later, Refused other.events

abbrev BusEvent (Word BE CE : Type) := BusSharing.Event (List (Operation Word)) (ArbiterSpi.Event Word BE CE)
abbrev BusState (Word BE CE : Type) := State (List (Operation Word)) (ArbiterSpi.Event Word BE CE)

-- The transactions have the bus one after the other, each as a whole. Of the chips that are not its holder's
-- those are selected that a transaction has left so.
def Shared (evs : List (BusEvent Word BE CE)) (s : BusState Word BE CE) : Prop :=
  ∃ finished current, Serial (Whole (spi Word BE CE)) (trace evs) finished current ∧ Has s current ∧
    s.others+current.toList.length ≤ 1 ∧
    ∀ d, (∀ turn, current = some turn → turn.owner ≠ d) →
      (selected (eventsOf d (trace evs)) = true ↔ LeftSelected d finished)

-- A call of the bus has been answered, or is pending as the transaction is dropped.
inductive OnBus : ArbiterSpi.Event Word BE CE → Prop where
  | answered : OnBus (.bus c res)
  | dropped : OnBus (.dropped (.bus c))

-- What goes over the bus is for the chip that is selected, and only for that.
def Addressed (evs : List (BusEvent Word BE CE)) (s : BusState Word BE CE) (e : BusEvent Word BE CE)
    (_ : BusState Word BE CE) : Prop :=
  ∀ i d shown, OnBus shown → e = .did i d shown → s.others = 0 ∧
    ∃ finished done, Serial (Whole (spi Word BE CE)) (trace evs) finished (some ⟨d,done⟩) ∧
      ∀ chip, selected (eventsOf chip (trace evs)) = true ↔ chip = d ∨ LeftSelected chip finished

section
variable {operations : List (Operation Word)} {events : List (ArbiterSpi.Event Word BE CE)}
  {value : Option (Except (DeviceError BE CE) Unit)} {evs : List (BusEvent Word BE CE)} {s t : BusState Word BE CE}
  {e : BusEvent Word BE CE}

theorem line_working {e : ArbiterSpi.Event Word BE CE} (working : Working e) (b : Bool) : line b e = b := by
  cases working <;> rfl

theorem still_line (all : ∀ e ∈ events, ∀ b, line b e = b) (b : Bool) : events.foldl line b = b := by
  induction events with
  | nil => rfl
  | cons e events ih =>
    rw [List.foldl_cons,all e List.mem_cons_self]
    exact ih fun e member => all e (List.mem_cons_of_mem _ member)

-- What a whole transaction makes of its chip.
theorem ends_line (ends : Ends operations events value) (lent : events ≠ [.dropped .access]) (b : Bool) :
    events.foldl line b = true ↔ KeepsSelected events ∨ b = true ∧ Refused events := by
  cases ends with
  | waiting => exact absurd rfl lent
  | @refused e =>
    have kept : ¬KeepsSelected ([.accessed,.setLow (.error e),.released] : List (ArbiterSpi.Event Word BE CE)) := by
      rintro (dropped | ⟨_,failed⟩)
      · exact not_droppedSelected (by simp) dropped
      · simp at failed
    exact ⟨fun on => .inr ⟨on,e,rfl⟩,fun held => held.elim (fun keeps => absurd keeps kept) And.left⟩
  | @dropped events at_ all =>
    have on : lowered ([.accessed,.setLow (.ok ())]++events) = true := lowered_working all
    refine iff_of_true ?_ (.inl (.inl ⟨_,at_,[.released],rfl,on⟩))
    rw [List.append_assoc,List.foldl_append,List.foldl_append,still_line fun e member => line_working (all e member)]
    rfl
  | @complete events done opRes flushRes csRes all executed same =>
    rw [List.foldl_append,List.foldl_append,still_line fun e member => line_working (all e member)]
    cases csRes with
    | error e => exact iff_of_true rfl (.inl (.inr ⟨e,by simp⟩))
    | ok =>
      refine iff_of_false Bool.false_ne_true ?_
      rintro ((dropped | ⟨e,failed⟩) | ⟨_,e,refused⟩)
      · refine not_droppedSelected (fun at_ member => ?_) dropped
        simp only [List.cons_append,List.mem_cons,List.mem_append,List.not_mem_nil,or_false,reduceCtorEq,false_or] at member
        cases all _ member
      · simp only [List.cons_append,List.mem_cons,List.mem_append,List.not_mem_nil,or_false,reduceCtorEq,false_or,
          Event.setHigh.injEq] at failed
        cases all _ failed
      · cases refused

-- Where an event stands that is neither at the head nor behind the work.
theorem still_before {head mid post done : List (ArbiterSpi.Event Word BE CE)} {e : ArbiterSpi.Event Word BE CE}
    (all : ∀ e ∈ mid, ∀ b, line b e = b) (first : e ∉ head) (last : e ∉ post) (start : done++[e] <+: head++(mid++post)) :
    ∃ before, done = head++before ∧ ∀ e ∈ before, ∀ b, line b e = b := by
  obtain ⟨after,same⟩ := start
  rw [List.append_assoc] at same
  rcases List.append_eq_append_iff.mp same with ⟨x,rfl,rest⟩ | ⟨x,rfl,rest⟩
  · cases x with
    | nil => exact ⟨[],by simp,by simp⟩
    | cons other x =>
      obtain ⟨rfl,_⟩ := List.cons.inj rest
      exact absurd (List.mem_append_right _ List.mem_cons_self) first
  · refine ⟨x,rfl,?_⟩
    rcases List.append_eq_append_iff.mp rest with ⟨y,rfl,behind⟩ | ⟨y,rfl,_⟩
    · rw [behind] at last
      exact absurd (by simp) last
    · exact fun e member => all e (List.mem_append_left _ member)

-- Its chip is selected whenever it calls the bus.
theorem ends_addressed {shown : ArbiterSpi.Event Word BE CE} {done : List (ArbiterSpi.Event Word BE CE)}
    (ends : Ends operations events value) (onBus : OnBus shown) (start : done++[shown] <+: events) (b : Bool) :
    done.foldl line b = true := by
  have works : ∀ mid post : List (ArbiterSpi.Event Word BE CE), (∀ e ∈ mid, ∀ b, line b e = b) → shown ∉ post →
      done++[shown] <+: [.accessed,.setLow (.ok ())]++(mid++post) → done.foldl line b = true := by
    intro mid post all last start
    have first : shown ∉ ([.accessed,.setLow (.ok ())] : List (ArbiterSpi.Event Word BE CE)) := by
      cases onBus <;> simp
    obtain ⟨before,rfl,still⟩ := still_before all first last start
    rw [List.foldl_append,still_line still]
    rfl
  have inside : shown ∈ events := start.subset (List.mem_append_right _ (List.mem_singleton_self _))
  cases ends with
  | waiting => cases onBus <;> simp at inside
  | refused => cases onBus <;> simp at inside
  | @dropped events at_ all =>
    refine works (events++[.dropped at_]) [.released] (fun e member => ?_) (by cases onBus <;> simp) (by simpa using start)
    rcases List.mem_append.mp member with before | last
    · exact line_working (all e before)
    · rw [List.mem_singleton.mp last]
      exact fun _ => rfl
  | @complete events ran opRes flushRes csRes all executed same =>
    refine works (events++[.bus .flush flushRes]) [.setHigh csRes,.released] (fun e member => ?_)
      (by cases onBus <;> simp) (by simpa using start)
    rcases List.mem_append.mp member with before | flush
    · exact line_working (all e before)
    · rw [List.mem_singleton.mp flush]
      exact fun _ => rfl

-- What a device has done of which all turns are over.
theorem turns_line {finished : List (Turn Nat (ArbiterSpi.Event Word BE CE))} {d : Nat}
    (whole : ∀ turn ∈ finished, Whole (spi Word BE CE) turn.events) :
    selected ((turnsOf d finished).flatMap Turn.events) = true ↔ LeftSelected d finished := by
  refine flag_turns fun turn member flag => ?_
  obtain ⟨operations,does,lent⟩ := whole turn (List.mem_of_mem_filter member)
  obtain ⟨value,ends⟩ := Transacts.ends does
  exact ends_line ends lent flag

theorem Sound.shared (sound : Sound (spi Word BE CE) evs s) : Shared evs s := by
  obtain ⟨finished,current,serial,has,alone⟩ := sound.takesTurns
  refine ⟨finished,current,serial,has,alone,fun d out => ?_⟩
  rw [serial.apart out]
  exact turns_line serial.whole

theorem step_addressed (sound : Sound (spi Word BE CE) evs s) (taken : Step (spi Word BE CE) s e t) : Addressed evs s e t := by
  obtain ⟨finished,current,serial,has,alone⟩ := sound.takesTurns
  rintro i d shown onBus rfl
  cases taken with
  | accessed here waiting allowed taken => cases onBus
  | released here lent allowed taken => cases onBus
  | worked here lent allowed other =>
    rename_i call
    obtain ⟨rfl,_⟩ := has.mine here lent
    obtain ⟨events,does,start⟩ := allowed
    obtain ⟨value,ends⟩ := Transacts.ends does
    refine ⟨by simpa using alone,finished,_,serial,fun chip => ?_⟩
    by_cases same : chip = call.device
    · subst same
      refine iff_of_true ?_ (.inl rfl)
      rw [serial.own,selected,List.foldl_append]
      exact ends_addressed ends onBus start _
    · have out : ∀ turn, some (⟨call.device,call.done⟩ : Turn Nat _) = some turn → turn.owner ≠ chip := by
        rintro turn ⟨⟩
        exact Ne.symm same
      rw [serial.apart out,turns_line serial.whole,or_iff_right same]

theorem spi_bus_shared (run : BusSharing.Run (spi Word BE CE) s) : run.Through Shared ∧ run.Every Addressed :=
  ⟨run.through_of (Sound (spi Word BE CE)) initial_sound (fun sound taken _ => step_sound sound taken) Sound.shared run.every_true,
    run.every (Sound (spi Word BE CE)) initial_sound step_sound step_addressed⟩

end
end

end Rtic.Sync.SpiSharing
