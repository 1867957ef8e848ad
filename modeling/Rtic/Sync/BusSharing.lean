import Rtic.Library.Turns
import Rtic.Sync.ArbiterOrder
namespace Rtic.Sync.BusSharing
open Function Transition Turns

-- A device on a bus that an arbiter guards: all that one of its calls can have done when it is over.
-- It was dropped while it waited for the access, or had the access from the first to the last.
structure Device (Op E : Type) where
  does : Op → List E → Prop
  accessed : E
  released : E
  left : E
  lent : ∀ {op events}, does op events → events = [left] ∨
    ∃ body, events = accessed::body++[released] ∧ ∀ e ∈ body, e ≠ released

-- A call of a device, and what it has done so far.
structure Call (Op E : Type) where
  device : Nat
  op : Op
  done : List E

variable {Op E : Type}

-- The future of `access` is part of that of the call, so that the call goes by its address.
-- `others` counts the values of type ExclusiveAccess that no call of a device holds.
structure State (Op E : Type) extends Arbiter.State where
  call : Nat → Option (Call Op E)
  others : Nat

inductive Event (Op E : Type) where
  | arbiter (e : Arbiter.Event)
  | called (i d : Nat) (op : Op)
  | left (i d : Nat)
  | did (i d : Nat) (e : E)

-- What those do who use the arbiter themselves: it is not their future that belongs to a call.
def Direct (s : State Op E) : Arbiter.Event → Prop
  | .created i => s.call i = none
  | .obtained i => s.call i = none
  | .forgotten i => s.call i = none
  | .unlinked i false => s.call i = none
  | .released _ => 0 < s.others
  | _ => True

def lends : Arbiter.Event → Nat
  | .obtained _ => 1
  | .tryAccessed success => success.toNat
  | _ => 0

def returns : Arbiter.Event → Nat
  | .released _ => 1
  | _ => 0

-- What comes next in a call is what can come there.
def Call.Allows (device : Device Op E) (c : Call Op E) (e : E) : Prop :=
  ∃ events, device.does c.op events ∧ c.done++[e] <+: events

def Call.and (c : Call Op E) (e : E) : Call Op E := {c with done := c.done++[e]}

inductive Step (device : Device Op E) : State Op E → Event Op E → State Op E → Prop where
  -- also the polls of the future of a call, and what it leaves as it is dropped
  | arbiter (direct : Direct s e) (taken : Arbiter.Step s.toState e next) :
      Step device s (.arbiter e) {s with toState := next,others := s.others+lends e-returns e}
  -- a call borrows its device: `&mut self`
  | called (free : s.call i = none) (single : ∀ j c, s.call j = some c → c.device ≠ d)
      (taken : Arbiter.Step s.toState (.created i) next) :
      Step device s (.called i d op) {s with toState := next,call := update s.call i (some ⟨d,op,[]⟩)}
  | left (here : s.call i = some c) (waiting : c.done = []) (allowed : c.Allows device device.left)
      (taken : Arbiter.Step s.toState (.unlinked i false) next) :
      Step device s (.left i c.device) {s with toState := next,call := update s.call i none}
  | accessed (here : s.call i = some c) (waiting : c.done = []) (allowed : c.Allows device device.accessed)
      (taken : Arbiter.Step s.toState (.obtained i) next) :
      Step device s (.did i c.device device.accessed)
        {s with toState := next,call := update s.call i (some (c.and device.accessed))}
  | worked (here : s.call i = some c) (lent : c.done ≠ []) (allowed : c.Allows device e) (other : e ≠ device.released) :
      Step device s (.did i c.device e) {s with call := update s.call i (some (c.and e))}
  | released (here : s.call i = some c) (lent : c.done ≠ []) (allowed : c.Allows device device.released)
      (taken : Arbiter.Step s.toState (.released handed) next) :
      Step device s (.did i c.device device.released) {s with toState := next,call := update s.call i none}

def initial : State Op E := ⟨Arbiter.initial,fun _ => none,0⟩

abbrev Run (device : Device Op E) (s : State Op E) := Transition.Run (Step device) initial s

-- All that the calls did while they had the bus, each by its device.
def Event.shown : Event Op E → Option (Nat × E)
  | .did _ d e => some (d,e)
  | _ => none
def trace (evs : List (Event Op E)) : List (Nat × E) := evs.filterMap Event.shown

-- Those calls that are over and had the bus.
def Whole (device : Device Op E) (events : List E) : Prop := ∃ op, device.does op events ∧ events ≠ [device.left]

-- The call that has the bus, and what it has done with it.
def Has (s : State Op E) : Option (Turn Nat E) → Prop
  | none => ∀ i c, s.call i = some c → c.done = []
  | some turn => ∃ i c, s.call i = some c ∧ c.done ≠ [] ∧ turn = ⟨c.device,c.done⟩ ∧
      ∀ j c', s.call j = some c' → c'.done ≠ [] → j = i

-- The calls have the bus one after the other, and who else has it has it alone.
def TakesTurns (device : Device Op E) (evs : List (Event Op E)) (s : State Op E) : Prop :=
  ∃ finished current, Serial (Whole device) (trace evs) finished current ∧ Has s current ∧
    s.others+current.toList.length ≤ 1

def Sound (device : Device Op E) (evs : List (Event Op E)) (s : State Op E) : Prop :=
  Arbiter.Locked [] s.toState ∧ ∃ finished current, Serial (Whole device) (trace evs) finished current ∧ Has s current ∧
    s.tokens = s.others+current.toList.length

section
variable {device : Device Op E} {s t : State Op E} {evs : List (Event Op E)} {e : Event Op E} {i : Nat} {c : Call Op E}
  {current : Option (Turn Nat E)} {turn : Turn Nat E}

theorem trace_hidden (hidden : e.shown = none) : trace (evs++[e]) = trace evs := by simp [trace,hidden]

theorem trace_did {d : Nat} {e : E} : trace (evs++[(.did i d e : Event Op E)]) = trace evs++[(d,e)] := by
  simp [trace,Event.shown]

theorem step_tokens {s t : Arbiter.State} {e : Arbiter.Event} (taken : Arbiter.Step s e t) :
    t.tokens = s.tokens+lends e-returns e := by
  cases taken <;> rfl

-- What a call did while it had the bus is whole when the access is returned.
theorem Call.Allows.whole (allowed : c.Allows device device.released) (lent : c.done ≠ []) :
    Whole device (c.done++[device.released]) := by
  obtain ⟨events,does,start⟩ := allowed
  have long : c.done++[device.released] ≠ [device.left] := fun same => by
    have count := congrArg List.length same
    have filled := List.length_pos_iff.mpr lent
    simp only [List.length_append,List.length_singleton] at count
    omega
  refine ⟨c.op,?_,long⟩
  rcases device.lent does with rfl | ⟨body,rfl,working⟩
  · -- there is no room for two events
    have short := start.length_le
    have filled := List.length_pos_iff.mpr lent
    simp only [List.length_append,List.length_singleton] at short
    omega
  · obtain ⟨first,rest,split⟩ := List.exists_cons_of_ne_nil lent
    obtain ⟨after,whole⟩ := start
    rw [split] at whole ⊢
    simp only [List.cons_append,List.cons.injEq,List.append_assoc,List.nil_append] at whole
    obtain ⟨rfl,whole⟩ := whole
    -- the access is returned once
    obtain ⟨rfl,_⟩ := (List.append_cons_inj_of_notMem (fun member => working _ member rfl) List.not_mem_nil).mp whole.symm
    exact does

-- A call that has not got the bus may come, go and wait.
theorem Has.aside (has : Has s current) (calls : ∀ j, j ≠ i → t.call j = s.call j)
    (before : ∀ c, s.call i = some c → c.done = []) (after : ∀ c, t.call i = some c → c.done = []) : Has t current := by
  have idle : ∀ j c, t.call j = some c → c.done ≠ [] → j ≠ i := fun j c here lent same => lent (after c (same ▸ here))
  cases current with
  | none =>
    intro j c here
    by_contra lent
    have other := idle j c here lent
    exact lent (has j c (by rw [← calls j other]; exact here))
  | some turn =>
    obtain ⟨k,c,here,lent,same,only⟩ := has
    have other : k ≠ i := fun same => lent (before c (same ▸ here))
    refine ⟨k,c,by rw [calls k other]; exact here,lent,same,fun j c' there lent' => ?_⟩
    exact only j c' (by rw [← calls j (idle j c' there lent')]; exact there) lent'

-- The one call that has the bus.
theorem Has.mine (has : Has s current) (here : s.call i = some c) (lent : c.done ≠ []) :
    current = some ⟨c.device,c.done⟩ ∧ ∀ j c', s.call j = some c' → c'.done ≠ [] → j = i := by
  cases current with
  | none => exact absurd (has i c here) lent
  | some turn =>
    obtain ⟨k,c',there,_,same,only⟩ := has
    obtain rfl := only i c here lent
    cases here.symm.trans there
    exact ⟨congrArg some same,only⟩

theorem Has.does (next : Call Op E) (only : ∀ j c', s.call j = some c' → c'.done ≠ [] → j = i)
    (calls : ∀ j, j ≠ i → t.call j = s.call j) (here : t.call i = some next) (lent : next.done ≠ []) :
    Has t (some ⟨next.device,next.done⟩) := by
  refine ⟨i,next,here,lent,rfl,fun j c' there lent' => ?_⟩
  by_contra other
  exact other (only j c' (by rw [← calls j other]; exact there) lent')

theorem Has.ends (only : ∀ j c', s.call j = some c' → c'.done ≠ [] → j = i)
    (calls : ∀ j, j ≠ i → t.call j = s.call j) (gone : t.call i = none) : Has t none := by
  intro j c there
  by_cases same : j = i
  · rw [same,gone] at there
    cases there
  · by_contra lent
    exact same (only j c (by rw [← calls j same]; exact there) lent)

theorem initial_sound : Sound device [] initial :=
  ⟨Arbiter.initial_locked,[],none,serial_nil,nofun,rfl⟩

theorem step_sound (sound : Sound device evs s) (taken : Step device s e t) : Sound device (evs++[e]) t := by
  obtain ⟨locked,finished,current,serial,has,tokens⟩ := sound
  cases taken with
  | arbiter direct taken =>
    rename_i e next
    refine ⟨Arbiter.step_locked locked taken,finished,current,?_,?_,?_⟩
    · rw [trace_hidden rfl]
      exact serial
    · cases current <;> exact has
    · have moved := step_tokens taken
      have enough : returns e ≤ s.others+lends e := by
        cases e with
        | released => exact Nat.le_add_right_of_le direct
        | _ => exact Nat.zero_le _
      change next.tokens = s.others+lends e-returns e+_
      omega
  | called free single taken =>
    rename_i d i next op
    refine ⟨Arbiter.step_locked locked taken,finished,current,?_,?_,?_⟩
    · rw [trace_hidden rfl]
      exact serial
    · refine has.aside (i:=i) (fun j other => update_of_ne other _ _) (fun c here => ?_) fun c here => ?_
      · rw [free] at here
        cases here
      · change update s.call i _ i = _ at here
        rw [update_self] at here
        cases here
        rfl
    · exact (step_tokens taken).trans tokens
  | left here waiting allowed taken =>
    rename_i c i next
    refine ⟨Arbiter.step_locked locked taken,finished,current,?_,?_,?_⟩
    · rw [trace_hidden rfl]
      exact serial
    · refine has.aside (i:=i) (fun j other => update_of_ne other _ _) (fun c' there => ?_) fun c' there => ?_
      · cases here.symm.trans there
        exact waiting
      · change update s.call i _ i = _ at there
        rw [update_self] at there
        cases there
    · exact (step_tokens taken).trans tokens
  | accessed here waiting allowed taken =>
    rename_i c i next
    have after := Arbiter.step_locked locked taken
    have moved : next.tokens = s.tokens+1 := step_tokens taken
    have bound : next.tokens ≤ 1 := after.atMostOne.1
    have nobody : current = none := by
      cases current with
      | none => rfl
      | some turn =>
        simp only [Option.toList_some,List.length_singleton] at tokens
        omega
    subst nobody
    refine ⟨after,finished,some ⟨c.device,[device.accessed]⟩,?_,?_,?_⟩
    · rw [trace_did]
      exact serial.enters
    · have single : (c.and device.accessed).done = [device.accessed] := by simp [Call.and,waiting]
      have idle : ∀ j c', s.call j = some c' → c'.done ≠ [] → j = i := fun j c' there lent => absurd (has j c' there) lent
      rw [← single]
      exact Has.does (c.and device.accessed) idle (fun j other => update_of_ne other _ _) (update_self _ _ _)
        (by simp [Call.and])
    · exact moved.trans (congrArg (·+1) tokens)
  | worked here lent allowed other =>
    rename_i c e i
    obtain ⟨rfl,only⟩ := has.mine here lent
    refine ⟨locked,finished,some ⟨c.device,c.done++[e]⟩,?_,?_,tokens⟩
    · rw [trace_did]
      exact serial.does
    · exact Has.does (c.and e) only (fun j other => update_of_ne other _ _) (update_self _ _ _) (by simp [Call.and])
  | released here lent allowed taken =>
    rename_i c i next handed
    obtain ⟨rfl,only⟩ := has.mine here lent
    refine ⟨Arbiter.step_locked locked taken,finished++[⟨c.device,c.done++[device.released]⟩],none,?_,?_,?_⟩
    · rw [trace_did]
      exact serial.ends (allowed.whole lent)
    · exact Has.ends only (fun j other => update_of_ne other _ _) (update_self _ _ _)
    · have moved : next.tokens = s.tokens-1 := step_tokens taken
      change next.tokens = s.others+0
      simp only [Option.toList_some,List.length_singleton] at tokens
      omega

theorem Sound.takesTurns (sound : Sound device evs s) : TakesTurns device evs s := by
  obtain ⟨locked,finished,current,serial,has,tokens⟩ := sound
  exact ⟨finished,current,serial,has,tokens ▸ locked.atMostOne.1⟩

end
end Rtic.Sync.BusSharing
