import Mathlib.Data.List.Basic
namespace FifoLock
variable {P : Type}

-- A lock that is handed over in the order of a line: who holds it, whether it
-- was lost with a holder that went away, and who waits.
structure Lock (P : Type) where
  holder : Option P
  lost : Bool
  line : List P

def Lock.locked (lock : Lock P) : Bool := lock.holder.isSome || lock.lost

def Lock.open_ : Lock P := ⟨none,false,[]⟩

inductive Step [DecidableEq P] : Lock P → Lock P → Prop where
  | enter {p : P} : Step ⟨none,false,[]⟩ ⟨some p,false,[]⟩
  | join {lock : Lock P} {p : P} (busy : lock.locked = true) : Step lock {lock with line := lock.line++[p]}
  | leave {lock : Lock P} {p : P} : Step lock {lock with line := lock.line.erase p}
  | handOver {p q : P} {rest : List P} : Step ⟨some p,false,q::rest⟩ ⟨some q,false,rest⟩
  -- the holder goes on under another name
  | rename {p q : P} {line : List P} : Step ⟨some p,false,line⟩ ⟨some q,false,line⟩
  | release {p : P} : Step ⟨some p,false,[]⟩ ⟨none,false,[]⟩
  | abandon {p : P} {line : List P} : Step ⟨some p,false,line⟩ ⟨none,true,line⟩

-- A lock that is lost stays so: nobody holds it, and it is never open again.
structure Sound (lock : Lock P) : Prop where
  busy : lock.line ≠ [] → lock.locked = true
  lost : lock.lost = true → lock.holder = none

variable {lock next : Lock P}

theorem open_sound : Sound (Lock.open_ : Lock P) := ⟨fun waits => absurd rfl waits,nofun⟩

theorem Step.sound [DecidableEq P] (step : Step lock next) (sound : Sound lock) : Sound next := by
  obtain ⟨busy,lost⟩ := sound
  cases step with
  | enter => exact ⟨fun _ => rfl,nofun⟩
  | join locked => exact ⟨fun _ => locked,lost⟩
  | leave => exact ⟨fun waits => busy fun none_ => waits (by simp [none_]),lost⟩
  | handOver => exact ⟨fun _ => rfl,nofun⟩
  | rename => exact ⟨fun _ => rfl,nofun⟩
  | release => exact ⟨fun waits => absurd rfl waits,nofun⟩
  | abandon => exact ⟨fun _ => rfl,fun _ => rfl⟩

theorem Step.lost [DecidableEq P] (step : Step lock next) (lost : lock.lost = true) : next.lost = true := by
  cases step <;> first | exact lost | cases lost

theorem Sound.free (sound : Sound lock) (free : lock.locked = false) : lock = Lock.open_ := by
  rcases lock with ⟨_|p,_|_,line⟩
  · cases line with
    | nil => rfl
    | cons first rest => exact absurd (sound.busy (List.cons_ne_nil _ _)) (by simp [Lock.locked])
  all_goals simp [Lock.locked] at free

end FifoLock
