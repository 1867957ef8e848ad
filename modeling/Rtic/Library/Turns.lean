import Mathlib.Data.List.Basic
import Mathlib.Data.List.Induction
namespace Turns
variable {Owner E : Type}

-- What one owner did from when it was let in.
structure Turn (Owner E : Type) where
  owner : Owner
  events : List E

def Turn.entries (turn : Turn Owner E) : List (Owner × E) := turn.events.map (turn.owner,·)

-- A trace that is turns which are over, one after the other, and then the one that is under way.
structure Serial (whole : List E → Prop) (trace : List (Owner × E)) (finished : List (Turn Owner E))
    (current : Option (Turn Owner E)) : Prop where
  trace : trace = (finished++current.toList).flatMap Turn.entries
  whole : ∀ turn ∈ finished, whole turn.events

section
variable {whole : List E → Prop} {trace : List (Owner × E)} {finished : List (Turn Owner E)}
  {current : Option (Turn Owner E)} {o : Owner} {done : List E} {e : E}

theorem serial_nil : Serial whole ([] : List (Owner × E)) [] none := ⟨rfl,nofun⟩

theorem Serial.imp {whole' : List E → Prop} (serial : Serial whole trace finished current)
    (entails : ∀ {events}, whole events → whole' events) : Serial whole' trace finished current :=
  ⟨serial.trace,fun turn member => entails (serial.whole turn member)⟩

theorem Serial.enters (serial : Serial whole trace finished none) :
    Serial whole (trace++[(o,e)]) finished (some ⟨o,[e]⟩) := by
  refine ⟨?_,serial.whole⟩
  rw [serial.trace]
  simp [Turn.entries]

theorem Serial.does (serial : Serial whole trace finished (some ⟨o,done⟩)) :
    Serial whole (trace++[(o,e)]) finished (some ⟨o,done++[e]⟩) := by
  refine ⟨?_,serial.whole⟩
  rw [serial.trace]
  simp [Turn.entries]

theorem Serial.ends (serial : Serial whole trace finished (some ⟨o,done⟩)) (all : whole (done++[e])) :
    Serial whole (trace++[(o,e)]) (finished++[⟨o,done++[e]⟩]) none := by
  refine ⟨?_,fun turn member => ?_⟩
  · rw [serial.trace]
    simp [Turn.entries]
  · rcases List.mem_append.mp member with before | last
    · exact serial.whole turn before
    · rw [List.mem_singleton.mp last]
      exact all
end

section
variable [DecidableEq Owner] {whole : List E → Prop} {trace : List (Owner × E)} {finished : List (Turn Owner E)}
  {current : Option (Turn Owner E)} {o : Owner} {done : List E}

def eventsOf (o : Owner) (trace : List (Owner × E)) : List E :=
  trace.filterMap fun entry => if entry.1 = o then some entry.2 else none

def turnsOf (o : Owner) (turns : List (Turn Owner E)) : List (Turn Owner E) := turns.filter fun turn => turn.owner = o

theorem eventsOf_entries (turn : Turn Owner E) :
    eventsOf o turn.entries = if turn.owner = o then turn.events else [] := by
  unfold eventsOf Turn.entries
  rw [List.filterMap_map]
  split
  · rename_i same
    simp [same]
  · rename_i other
    simp [other]

theorem eventsOf_turns (turns : List (Turn Owner E)) :
    eventsOf o (turns.flatMap Turn.entries) = (turnsOf o turns).flatMap Turn.events := by
  induction turns with
  | nil => rfl
  | cons turn turns ih =>
    rw [List.flatMap_cons,eventsOf,List.filterMap_append]
    change eventsOf o turn.entries++eventsOf o (turns.flatMap Turn.entries) = _
    rw [ih,eventsOf_entries,turnsOf,turnsOf,List.filter_cons]
    split <;> simp_all

-- What the others did says nothing of an owner, and its own turn comes last.
theorem Serial.apart (serial : Serial whole trace finished current) (out : ∀ turn, current = some turn → turn.owner ≠ o) :
    eventsOf o trace = (turnsOf o finished).flatMap Turn.events := by
  rw [serial.trace,eventsOf_turns]
  cases current with
  | none => simp
  | some turn => simp [turnsOf,out turn rfl]

theorem Serial.own (serial : Serial whole trace finished (some ⟨o,done⟩)) :
    eventsOf o trace = (turnsOf o finished).flatMap Turn.events++done := by
  rw [serial.trace,eventsOf_turns]
  simp [turnsOf]
end

-- A flag that each turn sets, keeps or clears is set after all of them if and only if one sets it and those after keep it.
theorem flag_turns {line : Bool → E → Bool} {sets keeps : List E → Prop} {turns : List (Turn Owner E)}
    (effect : ∀ turn ∈ turns, ∀ flag, turn.events.foldl line flag = true ↔ sets turn.events ∨ flag = true ∧ keeps turn.events) :
    (turns.flatMap Turn.events).foldl line false = true ↔ ∃ earlier turn later, turns = earlier++turn::later ∧
      sets turn.events ∧ ∀ other ∈ later, keeps other.events := by
  induction turns using List.reverseRecOn with
  | nil => simp
  | append_singleton turns last ih =>
    have ih := ih fun turn member => effect turn (List.mem_append_left _ member)
    rw [List.flatMap_append,List.foldl_append,List.flatMap_singleton,effect last (by simp),ih]
    refine ⟨?_,?_⟩
    · rintro (here | ⟨⟨earlier,turn,later,rfl,set_,kept⟩,keeps_⟩)
      · exact ⟨turns,last,[],rfl,here,nofun⟩
      · refine ⟨earlier,turn,later++[last],by simp,set_,fun other member => ?_⟩
        rcases List.mem_append.mp member with before | same
        · exact kept other before
        · rw [List.mem_singleton.mp same]
          exact keeps_
    · rintro ⟨earlier,turn,later,split,set_,kept⟩
      rcases List.eq_nil_or_concat' later with rfl | ⟨later,other,rfl⟩
      · obtain ⟨rfl,same⟩ := List.append_inj' split rfl
        cases same
        exact .inl set_
      · have split : turns++[last] = (earlier++turn::later)++[other] := by simpa using split
        obtain ⟨rfl,same⟩ := List.append_inj' split rfl
        cases same
        exact .inr ⟨⟨earlier,turn,later,rfl,set_,fun other member => kept other (by simp [member])⟩,kept last (by simp)⟩

end Turns
