import Rtic.Time.DelayFuture
namespace Rtic.Monotonics.Esp32Systimer
open Rtic.Common Rtic.Time Rtic.Time.DelayFuture TimerQueueTicks

-- The SYSTIMER and all else that there is, which neither the backend nor a waker uses to touch the
-- global interrupt-enable bit.
structure Systimer (R : Type) where
  now : R → BitVec 64 × R
  setCompare : BitVec 64 → R → R
  clearCompareFlag : R → R
  wake : Waker → R → R

-- mstatus.MIE, and the rest.
structure Cpu (R : Type) where
  mie : Bool
  rest : R
  deriving DecidableEq, Repr

section
variable {R : Type} (timer : Systimer R)

-- riscv::interrupt::disable and enable
def disable (s : Cpu R) : Cpu R := {s with mie := false}
def enable (s : Cpu R) : Cpu R := {s with mie := true}

-- critical_section::acquire disables the interrupts, and release enables them where they were enabled before.
-- on_interrupt, enable_timer and disable_timer are the defaults, which do nothing.
def backend : Backend 64 (Cpu R) where
  now s := ((timer.now s.rest).1,{s with rest := (timer.now s.rest).2})
  setCompare instant s := {s with rest := timer.setCompare instant s.rest}
  clearCompareFlag s := {s with rest := timer.clearCompareFlag s.rest}
  onInterrupt s := s
  enableTimer s := s
  disableTimer s := s
  acquire s := (s.mie,disable s)
  release restore s := if restore then enable s else s
  wake waker s := {s with rest := timer.wake waker s.rest}

-- interrupt31 is the handler, which runs on_monotonic_interrupt.
def pendInterrupt (fuel : Nat) (queue : Queue 64) (s : Cpu R) : Option (Queue 64 × Cpu R) := do
  let s := disable s
  let (queue,s) ← onMonotonicInterrupt (backend timer) fuel queue s
  return (queue,enable s)

inductive Chip where
  | esp32c3
  | esp32c6
  deriving DecidableEq, Repr

def esp32c3PendInterrupt (fuel : Nat) (queue : Queue 64) (s : Cpu R) : Option (Queue 64 × Cpu R) :=
  pendInterrupt timer fuel queue s
def esp32c6PendInterrupt (fuel : Nat) (queue : Queue 64) (s : Cpu R) : Option (Queue 64 × Cpu R) :=
  pendInterrupt timer fuel queue s

def Chip.pendInterrupt : Chip → Nat → Queue 64 → Cpu R → Option (Queue 64 × Cpu R)
  | .esp32c3 => esp32c3PendInterrupt timer
  | .esp32c6 => esp32c6PendInterrupt timer

-- The poll makes a link, and there is no head that its instant does not precede.
def becomesHead (now : BitVec 64) (self : Delay 64) (queue : Queue 64) : Bool :=
  !isAtLeast now self.instant && !self.linked &&
    match queue.head.bind queue.value with
    | none => true
    | some head => TimerQueueTicks.compare self.instant head.releaseAt == .lt
end

section
variable {R : Type} {timer : Systimer R} {fuel i : Nat} {l : List Nat} {queue next : Queue 64} {s t : Cpu R} {waker : Waker}

theorem release_mie {restore : Bool} (disabled : s.mie = false) : ((backend timer).release restore s).mie = restore := by
  cases restore with
  | true => rfl
  | false => exact disabled

theorem insert_mie {headUpdated : Bool} (result : insert (backend timer) fuel i queue s = some (headUpdated,next,t)) :
    t.mie = s.mie := by
  unfold DelayFuture.insert at result
  obtain ⟨⟨headUpdated,queue⟩,_,result⟩ := Option.bind_eq_some_iff.mp result
  cases result
  exact release_mie rfl

-- Whatever it was before, the bit is set after pend_interrupt.
theorem pendInterrupt_mie (result : pendInterrupt timer fuel queue s = some (next,t)) : t.mie = true := by
  unfold pendInterrupt at result
  obtain ⟨⟨queue,between⟩,_,result⟩ := Option.bind_eq_some_iff.mp result
  cases result
  rfl

-- insert says that there is a new head exactly where the instant precedes that of the old one.
theorem insert_becomesHead {instant : BitVec 64} {headUpdated : Bool} (holds : queue.Holds l) (out : i ∉ l)
    (result : (queue.place i ⟨waker,instant,false⟩).insert WaitingWaker.lt fuel i = some (headUpdated,next)) :
    headUpdated = (match queue.head.bind queue.value with
      | none => true
      | some head => TimerQueueTicks.compare instant head.releaseAt == .lt) := by
  have here : (queue.place i ⟨waker,instant,false⟩).link i = some ⟨⟨waker,instant,false⟩,none⟩ := Function.update_self ..
  unfold LinkedList.insert at result
  simp only [here,Option.bind_eq_bind,Option.bind_some] at result
  cases l with
  | nil =>
    have none_ : queue.head = none := holds
    rw [show (queue.place i ⟨waker,instant,false⟩).head = none from none_] at result
    cases result
    rw [none_]
    rfl
  | cons j rest =>
    obtain ⟨head,linked⟩ := LinkedList.Holds.linked holds List.mem_cons_self
    have other : j ≠ i := fun same => out (same ▸ List.mem_cons_self)
    have start : queue.head = some j := holds.1
    have there : (queue.place i ⟨waker,instant,false⟩).link j = some head := (Function.update_of_ne other _ _).trans linked
    rw [show (queue.place i ⟨waker,instant,false⟩).head = some j from start] at result
    simp only [there,Option.bind_some] at result
    rw [start]
    simp only [Option.bind_some,LinkedList.value,linked,Option.map_some]
    split at result
    · rename_i first
      obtain ⟨_,_,result⟩ := Option.bind_eq_some_iff.mp result
      cases result
      exact first.symm
    · rename_i later
      obtain ⟨_,_,result⟩ := Option.bind_eq_some_iff.mp result
      cases result
      exact (eq_false_of_ne_true later).symm

theorem poll_mie {self self' : Delay 64} {outcome : Poll Unit} {handlerFuel : Nat} (holds : queue.Holds l)
    (out : self.linked = false → i ∉ l)
    (result : self.poll (backend timer) (pendInterrupt timer handlerFuel) fuel i waker queue s = some (outcome,self',next,t)) :
    t.mie = (s.mie || becomesHead (timer.now s.rest).1 self queue) := by
  unfold Delay.poll at result
  dsimp only at result
  unfold becomesHead
  split at result
  · rename_i due
    cases result
    rw [show isAtLeast (timer.now s.rest).1 self.instant = true from due]
    simp
    rfl
  · rename_i early
    have early : isAtLeast (timer.now s.rest).1 self.instant = false := eq_false_of_ne_true early
    split at result
    · rename_i linked
      cases result
      rw [linked]
      simp
      rfl
    · rename_i unlinked
      have unlinked := eq_false_of_ne_true unlinked
      obtain ⟨⟨headUpdated,queue',between⟩,inserted,result⟩ := Option.bind_eq_some_iff.mp result
      have kept := insert_mie inserted
      obtain ⟨⟨_,_⟩,pointers,same⟩ := Option.bind_eq_some_iff.mp inserted
      cases same
      rw [← insert_becomesHead holds (out unlinked) pointers,early,unlinked]
      cases headUpdated with
      | false =>
        cases result
        exact kept.trans (Bool.or_false _).symm
      | true =>
        obtain ⟨_,pended,result⟩ := Option.bind_eq_some_iff.mp result
        cases result
        exact (pendInterrupt_mie pended).trans (Bool.or_true _).symm

-- A clock that has reached the instant has still reached it when it is read the next time.
def StillReached (timer : Systimer R) (instant : BitVec 64) : Prop :=
  ∀ rest, isAtLeast (timer.now rest).1 instant = true → isAtLeast (timer.now (timer.now rest).2).1 instant = true

def Steady (timer : Systimer R) (queue : Queue 64) (l : List Nat) : Prop :=
  ∀ j ∈ l, ∀ v, queue.value j = some v → StillReached timer v.releaseAt

theorem Steady.of_instants {r : List Nat} (steady : Steady timer queue l) (inside : r ⊆ l)
    (same : ∀ j ∈ r, (next.value j).map WaitingWaker.releaseAt = (queue.value j).map WaitingWaker.releaseAt) :
    Steady timer next r := by
  intro j member v value
  have instant := same j member
  rw [value,Option.map_some] at instant
  obtain ⟨old,there,at_⟩ := Option.map_eq_some_iff.mp instant.symm
  rw [← at_]
  exact steady j (inside member) old there

-- The pop looks at the head by the clock as it is, and the loop goes on with the rest where that is due.
theorem popIf_head (timer : Systimer R) {rest : List Nat} (holds : queue.Holds (i::rest)) : ∃ v next,
    queue.value i = some v ∧ (∀ j, (next.value j).map WaitingWaker.releaseAt = (queue.value j).map WaitingWaker.releaseAt) ∧
      next.Holds (if isAtLeast (timer.now s.rest).1 v.releaseAt then rest else i::rest) ∧
      popIf (backend timer) queue s =
        some (some (i,{v with wasPopped := isAtLeast (timer.now s.rest).1 v.releaseAt},isAtLeast (timer.now s.rest).1 v.releaseAt),
          next,⟨s.mie,(timer.now s.rest).2⟩) := by
  obtain ⟨⟨popped,next⟩,popped_⟩ := LinkedList.popIf_returns (f:=shouldPop (timer.now s.rest).1) holds
  rcases LinkedList.popIf_cases holds popped_ with ⟨none_,_⟩ | ⟨j,others,link,same,linked,rfl,moved,after⟩
  · cases none_
  · cases same
    refine ⟨link.val,next,?_,fun k => ?_,after,?_⟩
    · simp [LinkedList.value,linked]
    · rw [moved]
      by_cases here : k = i
      · subst here
        simp [LinkedList.value,linked,shouldPop]
      · simp [LinkedList.value,here]
    · have start : queue.head = some i := holds.1
      unfold popIf
      rw [start]
      change Option.bind (queue.popIf (shouldPop (timer.now s.rest).1)) _ = _
      rw [popped_]
      obtain ⟨mie,_⟩ := s
      cases mie <;> rfl

theorem popIf_empty (timer : Systimer R) (holds : queue.Holds []) :
    ∃ s', popIf (backend timer) queue s = some (none,queue,s') := by
  have start : queue.head = none := holds
  unfold popIf
  rw [start]
  change ∃ s', Option.bind (queue.popIf (shouldPop 0)) _ = some (none,queue,s')
  unfold LinkedList.popIf
  rw [start]
  exact ⟨_,rfl⟩

-- Each link takes at most two passes: one that finds it early, and one that pops it where the clock got there meanwhile.
theorem drain_returns (timer : Systimer R) (holds : queue.Holds l) (steady : Steady timer queue l)
    (enough : 2*l.length < fuel) :
    ∃ result, drain (backend timer) fuel queue s = some result := by
  induction l generalizing fuel queue s with
  | nil =>
    obtain ⟨fuel,rfl⟩ := Nat.exists_eq_add_of_lt enough
    obtain ⟨_,empty⟩ := popIf_empty timer (s:=s) holds
    unfold drain
    rw [empty]
    exact ⟨_,rfl⟩
  | cons i rest ih =>
    -- Where the clock has reached the head, that one is popped and there is less to do.
    have due : ∀ (queue : Queue 64) (s : Cpu R) (v : DelayFuture.WaitingWaker 64) (n : Nat), queue.Holds (i::rest) →
        Steady timer queue rest → queue.value i = some v → isAtLeast (timer.now s.rest).1 v.releaseAt = true →
        2*rest.length < n → ∃ result, drain (backend timer) (n+1) queue s = some result := by
      intro queue s v n holds steady here due enough
      obtain ⟨v',next,there,same,after,popped⟩ := popIf_head timer (s:=s) holds
      cases here.symm.trans there
      rw [if_pos due] at after
      unfold drain
      rw [popped]
      simp only [due,Option.bind_eq_bind,Option.bind_some]
      exact ih after (steady.of_instants (List.Subset.refl _) fun j _ => same j) enough
    obtain ⟨n,rfl⟩ : ∃ n, fuel = n+2 := ⟨fuel-2,by simp only [List.length_cons] at enough; omega⟩
    have left : 2*rest.length < n := by simp only [List.length_cons] at enough; omega
    have others : Steady timer queue rest := steady.of_instants (List.subset_cons_self _ _) fun _ _ => rfl
    obtain ⟨v,next,here,same,after,popped⟩ := popIf_head timer (s:=s) holds
    by_cases now : isAtLeast (timer.now s.rest).1 v.releaseAt = true
    · exact due queue s v (n+1) holds others here now (Nat.lt_succ_of_lt left)
    · have early := eq_false_of_ne_true now
      rw [if_neg now] at after
      unfold drain
      rw [popped]
      simp only [early,Option.bind_eq_bind,Option.bind_some]
      split
      · rename_i reached
        have again := steady i List.mem_cons_self v here _ reached
        obtain ⟨v',there,same'⟩ := Option.map_eq_some_iff.mp ((same i).trans (congrArg _ here))
        exact due next _ v' n after (others.of_instants (List.Subset.refl _) fun j _ => same j) there (same' ▸ again) left
      · exact ⟨_,rfl⟩

theorem pendInterrupt_returns (timer : Systimer R) (holds : queue.Holds l) (steady : Steady timer queue l)
    (enough : 2*l.length < fuel) :
    ∃ result, pendInterrupt timer fuel queue s = some result := by
  obtain ⟨⟨next,between⟩,drained⟩ := drain_returns timer
    (s:=(backend timer).onInterrupt ((backend timer).clearCompareFlag (disable s))) holds steady enough
  refine ⟨(next,enable between),?_⟩
  unfold pendInterrupt onMonotonicInterrupt
  simp only [drained,Option.bind_eq_bind,Option.bind_some,Option.pure_def]

theorem poll_returns (timer : Systimer R) (waker : Waker) {self : Delay 64} {handlerFuel : Nat} (holds : queue.Holds l)
    (out : self.linked = false → i ∉ l) (steady : Steady timer queue l) (reached : StillReached timer self.instant)
    (enough : l.length ≤ fuel) (drains : 2*(l.length+1) < handlerFuel) :
    ∃ result, self.poll (backend timer) (pendInterrupt timer handlerFuel) fuel i waker queue s = some result := by
  unfold Delay.poll
  dsimp only
  split
  · exact ⟨_,rfl⟩
  · split
    · exact ⟨_,rfl⟩
    · rename_i unlinked
      have out := out (eq_false_of_ne_true unlinked)
      have here : (queue.place i ⟨waker,self.instant,false⟩).link i = some ⟨⟨waker,self.instant,false⟩,none⟩ :=
        Function.update_self ..
      have placed : (queue.place i ⟨waker,self.instant,false⟩).Holds l :=
        holds.outside out (fun j other => Function.update_of_ne other _ _) rfl
      have returned : ∃ result, (queue.place i ⟨waker,self.instant,false⟩).insert WaitingWaker.lt fuel i = some result :=
        LinkedList.insert_returns placed here out enough
      obtain ⟨⟨headUpdated,next⟩,inserted⟩ := returned
      simp only [DelayFuture.insert,inserted,Option.bind_eq_bind,Option.bind_some,Option.pure_def]
      cases headUpdated with
      | false => exact ⟨_,rfl⟩
      | true =>
        have all := LinkedList.insert_holds placed here out inserted
        have known : Steady timer next
            (l.orderedInsert (fun j k => (queue.place i ⟨waker,self.instant,false⟩).precedes WaitingWaker.lt j k = true) i) := by
          intro j member v value
          rw [all.value] at value
          rcases List.mem_cons.mp ((List.perm_orderedInsert _ i l).mem_iff.mp member) with rfl | old
          · rw [LinkedList.value,here] at value
            cases value
            exact reached
          · have other : j ≠ i := fun same => out (same ▸ old)
            exact steady j old v (by simpa [LinkedList.value,LinkedList.place,other] using value)
        obtain ⟨⟨_,_⟩,pended⟩ := pendInterrupt_returns timer
          (s:=(backend timer).release ((backend timer).acquire ((backend timer).now s).2).1
            ((backend timer).acquire ((backend timer).now s).2).2) all.holds known
          (by rw [List.orderedInsert_length]; exact drains)
        simp only [if_true,pended,Option.bind_some]
        exact ⟨_,rfl⟩

theorem Chip.pendInterrupt_eq {chip : Chip} : chip.pendInterrupt timer = Esp32Systimer.pendInterrupt timer := by
  cases chip <;> rfl

theorem timeout_mie {A : Type} {self self' : Timeout 64} {inner : Poll A} {outcome : Poll (Except TimeoutError A)}
    {handlerFuel : Nat} (holds : queue.Holds l) (out : self.delay.linked = false → i ∉ l)
    (result : self.poll (backend timer) (pendInterrupt timer handlerFuel) fuel i waker inner queue s =
      some (outcome,self',next,t)) :
    t.mie = match inner with
      | .ready _ => s.mie
      | .pending => s.mie || becomesHead (timer.now s.rest).1 self.delay queue := by
  cases inner with
  | ready v =>
    cases result
    rfl
  | pending =>
    obtain ⟨⟨polled,delay,queue',after⟩,first,result⟩ := Option.bind_eq_some_iff.mp result
    have bit := poll_mie holds out first
    cases polled with
    | ready =>
      cases result
      exact bit
    | pending =>
      cases result
      exact bit
end

-- The bit is as it was if and only if it was set, or no new head was made. Where the future of a Timeout is ready,
-- the Delay is not polled; what that future itself does comes before `s`.
theorem poll_restores_iff {R A : Type} (timer : Systimer R) (chip : Chip) (self : Delay 64) (queue : Queue 64) (l : List Nat)
    (holds : queue.Holds l) (i : Nat) (out : self.linked = false → i ∉ l) (waker : Waker) (s : Cpu R) (fuel handlerFuel : Nat) :
    (∀ outcome self' next t,
      self.poll (backend timer) (chip.pendInterrupt timer handlerFuel) fuel i waker queue s = some (outcome,self',next,t) →
      (t.mie = s.mie ↔ s.mie = true ∨ becomesHead (timer.now s.rest).1 self queue = false)) ∧
    (∀ (inner : Poll A) outcome self' next t,
      Timeout.poll (backend timer) (chip.pendInterrupt timer handlerFuel) fuel i waker inner ⟨self⟩ queue s =
        some (outcome,self',next,t) →
      (t.mie = s.mie ↔ s.mie = true ∨ (∃ v, inner = .ready v) ∨ becomesHead (timer.now s.rest).1 self queue = false)) ∧
    (Steady timer queue l → StillReached timer self.instant → l.length ≤ fuel → 2*(l.length+1) < handlerFuel →
      (∃ result, self.poll (backend timer) (chip.pendInterrupt timer handlerFuel) fuel i waker queue s = some result) ∧
      ∀ inner : Poll A, ∃ result,
        Timeout.poll (backend timer) (chip.pendInterrupt timer handlerFuel) fuel i waker inner ⟨self⟩ queue s = some result) := by
  rw [Chip.pendInterrupt_eq]
  have bits : ∀ before made : Bool, (before || made) = before ↔ before = true ∨ made = false := by decide
  refine ⟨fun outcome self' next t result => ?_,fun inner outcome self' next t result => ?_,
    fun steady reached enough drains => ⟨?_,fun inner => ?_⟩⟩
  · rw [poll_mie holds out result]
    exact bits ..
  · rw [timeout_mie holds out result]
    cases inner with
    | ready v => simp
    | pending =>
      dsimp only
      rw [bits]
      simp
  · exact poll_returns timer waker holds out steady reached enough drains
  · cases inner with
    | ready v => exact ⟨_,rfl⟩
    | pending =>
      obtain ⟨⟨polled,_⟩,first⟩ := poll_returns timer waker (s:=s) holds out steady reached enough drains
      unfold Timeout.poll
      simp only [first,Option.bind_eq_bind,Option.bind_some]
      cases polled <;> exact ⟨_,rfl⟩

-- A clock that shows what it holds.
def clock : Systimer (BitVec 64) := ⟨fun now => (now,now),fun _ now => now,id,fun _ now => now⟩

-- Inside a critical section a first Delay is polled, and after that the interrupts are enabled.
theorem insideCriticalSection_enables :
    ((⟨16,false,0⟩ : Delay 64).poll (backend clock) (Chip.esp32c3.pendInterrupt clock 3) 0 7 ⟨1,0⟩ LinkedList.new ⟨false,0⟩).map
      (fun result => result.2.2.2) = some ⟨true,0⟩ ∧
    ((⟨16,false,0⟩ : Delay 64).poll (backend clock) (Chip.esp32c6.pendInterrupt clock 3) 0 7 ⟨1,0⟩ LinkedList.new ⟨false,0⟩).map
      (fun result => result.2.2.2) = some ⟨true,0⟩ ∧
    (Timeout.poll (backend clock) (Chip.esp32c3.pendInterrupt clock 3) 0 7 ⟨1,0⟩ (.pending : Poll Unit) (timeoutAt 16)
      LinkedList.new ⟨false,0⟩).map (fun result => result.2.2.2) = some ⟨true,0⟩ := by decide

-- The same behind a head that is due first.
theorem poll_restores_behind : ∃ outcome self' next t,
    (⟨16,false,0⟩ : Delay 64).poll (backend clock) (Chip.esp32c3.pendInterrupt clock 5) 1 7 ⟨1,0⟩
      {LinkedList.new.place 3 ⟨⟨2,0⟩,9,false⟩ with head := some 3} ⟨false,0⟩ = some (outcome,self',next,t) ∧ t.mie = false := by
  have restores := poll_restores_iff (A:=Unit) clock .esp32c3 ⟨16,false,0⟩
    {LinkedList.new.place 3 ⟨⟨2,0⟩,9,false⟩ with head := some 3} [3] ⟨rfl,none,rfl,rfl⟩ 7 (by decide) ⟨1,0⟩ ⟨false,0⟩ 1 5
  have later : becomesHead (clock.now 0).1 ⟨16,false,0⟩ {LinkedList.new.place 3 ⟨⟨2,0⟩,9,false⟩ with head := some 3} =
      false := by decide
  exact ⟨_,_,_,_,rfl,(restores.1 _ _ _ _ rfl).mpr (.inr later)⟩

end Rtic.Monotonics.Esp32Systimer
