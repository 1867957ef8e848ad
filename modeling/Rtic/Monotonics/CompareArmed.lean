import Rtic.Monotonics.CompareTimer
namespace Rtic.Monotonics.CompareTimer
open Function Rtic.Common Rtic.Time Transition TimerQueueTicks CompareValue
open TimerQueue (HandlerPoint Covered Before Sorted Relinked HandledNear inserting handled)

-- The backends, each with how many ticks set_compare may take from reading `now` until it writes, where that matters,
-- and how many ticks late its interrupt may be.
inductive Supported : {B : Nat} → Backend B → Option Nat → Nat → Prop where
  | stm32 (le : B ≤ 64) : Supported (stm32 B) none 0
  | rp2040 : Supported rp2040 (some ticks) ticks
  | rp235x : Supported rp235x (some ticks) ticks
  -- "We rely on the fact that this entire section runs within one RTC clock tick."
  | nrfRtc : Supported nrfRtc (some 1) 2
  | nrfTimer : Supported nrfTimer none 0
  | imxrt : Supported imxrt none 0

-- The times lie within a prompt set_compare.
def promptly (slack : Option Nat) (now time : Int) : Prop := ∀ ticks, slack = some ticks → time ≤ now+ticks

section
variable {B : Nat} (timer : Backend B)

def Prompt (slack : Option Nat) (_ : List Event) (s : State B) : Event → State B → Prop
  | .queue .compareSet,_ => ∀ now, s.now = some now → promptly slack now s.core.time
  | _,_ => True

-- The timer requests an interrupt at that time.
def interrupts (s : State B) (met : Int) : Prop := s.matchesAt timer met = true ∨ overflowsAt timer met = true

-- With the handler returned and nothing under way, the next interrupt comes at most so late for the first link.
def ArmedBy (late : Nat) (_ : List Event) (s : State B) : Prop :=
  s.core.handler = .idle → requested s = false → ¬inserting s.core →
    s.core.queue.head = none ∨ ∃ i value, s.core.queue.head = some i ∧ s.core.queue.value i = some value ∧
      s.core.enabled = true ∧ ∃ met, s.core.time < met ∧ met ≤ value.releaseAt+late ∧ interrupts timer s met

-- Then no link in the queue is overdue either.
def NoneOverdue (late : Nat) (_ : List Event) (s : State B) : Prop :=
  s.core.handler = .idle → requested s = false → ¬inserting s.core →
    ∀ i value, s.core.queue.reachable i → s.core.queue.value i = some value → s.core.time < value.releaseAt+late

-- The interrupt is on its way, or will be.
def Awaits (late : Nat) (s : State B) (instant : Int) : Prop :=
  s.overflow = true ∨ s.core.matched = true ∨
    ∃ met, s.core.time < met ∧ met ≤ instant+late ∧ interrupts timer s met

def rolled (now time : Int) : Prop := timer.rolls = true ∧ ∃ m, now < m ∧ m ≤ time ∧ counter B m = 0

-- What the handler relies on, from where it has last looked at the head.
def Watched (late : Nat) (s : State B) (l : List Nat) : Prop :=
  match s.core.handler with
  | .idle => Covered s.core l ∨
    (s.core.enabled = true ∧ ∃ instant, Before s.core.delay l instant ∧ Awaits timer late s instant)
  | .enableTimer instant => Covered s.core l ∨ Before s.core.delay l instant
  | .setCompare instant => s.core.enabled = true ∧ (Covered s.core l ∨ Before s.core.delay l instant) ∧
    ∀ now, s.now = some now → now ≤ s.core.time ∧ Near 64 now instant ∧ (rolled timer now s.core.time → s.overflow = true)
  | .check instant => s.core.enabled = true ∧
    (Covered s.core l ∨ (Before s.core.delay l instant ∧ (instant ≤ s.core.time ∨ Awaits timer late s instant)))
  | .disableTimer => Covered s.core l
  | _ => True

-- Only set_compare has read `now`.
def Reading (s : State B) : Prop := s.now ≠ none → ∃ instant, s.core.handler = .setCompare instant

-- What set_compare writes is met in time, unless the counter has rolled over meanwhile.
def Meets (slack : Option Nat) (late : Nat) : Prop :=
  ∀ instant now time, now ≤ time → time < instant → Near 64 now instant → promptly slack now time →
    rolled timer now time ∨ ∃ met, time < met ∧ met ≤ instant+late ∧
      ((counter B met = timer.compareValue (wrap 64 instant) (wrap 64 now) ∧ time+timer.lead ≤ met) ∨
        overflowsAt timer met = true)
end

section
variable {B : Nat} {timer : Backend B} {late : Nat} {instant now time : Int}

theorem round_pos (B : Nat) : (0 : Int) < 2^B := Int.pow_pos (by decide)

theorem counter_zero_iff {m : Int} : counter B m = 0 ↔ (2^B : Int) ∣ m := by
  have cast : ((2^B : Nat) : Int) = (2 : Int)^B := by push_cast; rfl
  have range := Int.emod_nonneg m (Int.ne_of_gt (round_pos B))
  unfold counter wrap
  rw [← BitVec.toNat_inj,BitVec.toNat_ofInt,cast,Int.dvd_iff_emod_eq_zero]
  simp only [BitVec.ofNat_eq_ofNat,BitVec.toNat_ofNat,Nat.zero_mod]
  omega

theorem rolls_next (B : Nat) (time : Int) : ∃ m, time < m ∧ m ≤ time+2^B ∧ counter B m = 0 := by
  have split := Int.mul_ediv_add_emod time (2^B)
  have lower := Int.emod_nonneg time (Int.ne_of_gt (round_pos B))
  have upper := Int.emod_lt_of_pos time (round_pos B)
  refine ⟨2^B*(time/2^B)+2^B,by omega,by omega,counter_zero_iff.mpr ?_⟩
  exact Int.dvd_add (Int.dvd_mul_right _ _) (Int.dvd_refl _)

theorem trunc_wrap (le : B ≤ 64) (time : Int) : truncFromU64 B (wrap 64 time) = counter B time := by
  have divides : ((2^B : Nat) : Int) ∣ (2^64 : Nat) := Int.natCast_dvd_natCast.mpr (Nat.pow_dvd_pow 2 le)
  have outer : 0 ≤ time%(2^64 : Nat) := Int.emod_nonneg time (by decide)
  have inner : 0 ≤ time%(2^B : Nat) := Int.emod_nonneg time (by exact_mod_cast Nat.ne_of_gt (Nat.two_pow_pos B))
  have same : (((time%(2^64 : Nat)).toNat%2^B : Nat) : Int) = ((time%(2^B : Nat)).toNat : Int) := by
    rw [Int.natCast_emod,Int.toNat_of_nonneg outer,Int.toNat_of_nonneg inner,Int.emod_emod_of_dvd _ divides]
  unfold truncFromU64 counter wrap
  rw [← BitVec.toNat_inj,BitVec.toNat_setWidth,BitVec.toNat_ofInt,BitVec.toNat_ofInt]
  exact_mod_cast same

theorem ahead_wrap (near : Near 64 now instant) (ahead : now ≤ instant) :
    (wrap 64 instant-wrap 64 now).toNat = (instant-now).toNat := by
  have same : Near 64 instant now := by
    unfold Near at *
    rwa [abs_sub_comm]
  have signed := near_toInt same
  have below := (wrap 64 instant-wrap 64 now).isLt
  rw [BitVec.toInt_eq_toNat_cond] at signed
  split at signed <;> omega

-- A value that is the low bits of the time at which it has to match.
theorem Meets.exactly {met : Int} (later : time < met) (early : met ≤ instant+late)
    (value : timer.compareValue (wrap 64 instant) (wrap 64 now) = counter B met) (lead : time+timer.lead ≤ met) :
    rolled timer now time ∨ ∃ met, time < met ∧ met ≤ instant+late ∧
      ((counter B met = timer.compareValue (wrap 64 instant) (wrap 64 now) ∧ time+timer.lead ≤ met) ∨
        overflowsAt timer met = true) :=
  Or.inr ⟨met,later,early,Or.inl ⟨value.symm,lead⟩⟩

-- An instant that is a round away: the counter rolls over before, and interrupts then.
theorem Meets.rolling (rolls : timer.rolls = true) (far : now+2^B ≤ instant) :
    rolled timer now time ∨ ∃ met, time < met ∧ met ≤ instant+late ∧
      ((counter B met = timer.compareValue (wrap 64 instant) (wrap 64 now) ∧ time+timer.lead ≤ met) ∨
        overflowsAt timer met = true) := by
  obtain ⟨m,after,round,zero⟩ := rolls_next B now
  by_cases passed : m ≤ time
  · exact Or.inl ⟨rolls,m,after,passed,zero⟩
  · exact Or.inr ⟨m,Int.not_le.mp passed,by omega,Or.inr (by simp [overflowsAt,rolls,zero])⟩

theorem meets_stm32 (le : B ≤ 64) : Meets (stm32 B) none 0 := by
  intro instant now time since before near _
  have ahead := ahead_wrap near (Int.le_of_lt (Int.lt_of_le_of_lt since before))
  by_cases round : (instant-now).toNat < 2^B
  · refine Meets.exactly before (by simp) ?_ before
    simp only [stm32,computeCompareValue,fits,ahead,decide_eq_true round,if_pos,trunc_wrap le]
  · have cast : ((2^B : Nat) : Int) = (2 : Int)^B := by push_cast; rfl
    exact Meets.rolling rfl (by omega)

theorem meets_low (lead : timer.lead = 1) (value : ∀ instant now, timer.compareValue instant now = truncFromU64 B instant)
    (le : B ≤ 64) : Meets timer none 0 := by
  intro instant now time _ before _ _
  refine Meets.exactly before (by simp) ?_ (by rw [lead]; exact before)
  rw [value,trunc_wrap le]

-- Zero for an instant a round away: met once the counter has rolled over, after the write.
theorem meets_alarm {ticks : Nat} {timer : Backend 32} (lead : timer.lead = 1)
    (value : ∀ instant now, timer.compareValue instant now = alarmValue 0xffffffff instant now) :
    Meets timer (some ticks) ticks := by
  intro instant now time since before near prompt
  have ahead := ahead_wrap near (Int.le_of_lt (Int.lt_of_le_of_lt since before))
  have limit : wrap 64 instant-wrap 64 now ≤ 0xffffffff ↔ (instant-now).toNat < 2^32 := by
    rw [BitVec.le_def,ahead]
    exact Nat.le_iff_lt_add_one
  by_cases round : (instant-now).toNat < 2^32
  · refine Meets.exactly before (by omega) ?_ (by rw [lead]; exact before)
    rw [value,alarmValue,if_pos (limit.mpr round),← trunc_wrap (by decide),← BitVec.toNat_inj,BitVec.toNat_setWidth,
      masked (B:=32) 0xffffffff rfl]
    exact Nat.mod_eq_of_lt (BitVec.isLt _)
  · obtain ⟨m,after,roll,zero⟩ := rolls_next 32 time
    have soon := prompt ticks rfl
    refine Meets.exactly after (by omega) ?_ (by rw [lead]; exact after)
    rw [value,alarmValue,if_neg (mt limit.mp round),zero]
    rfl

-- An instant that is less than three ticks away is met at the third.
theorem meets_rtc : Meets nrfRtc (some 1) 2 := by
  intro instant now time since before near prompt
  have soon := prompt 1 rfl
  have ahead := ahead_wrap near (Int.le_of_lt (Int.lt_of_le_of_lt since before))
  have limit : wrap 64 instant-wrap 64 now ≤ 0xffffff ↔ (instant-now).toNat < 2^24 := by
    rw [BitVec.le_def,ahead]
    exact Nat.le_iff_lt_add_one
  have short : wrap 64 instant-wrap 64 now < 3 ↔ (instant-now).toNat < 3 := by
    rw [BitVec.lt_def,ahead]
    exact Iff.rfl
  have low : ∀ x : BitVec 64, truncFromU64 24 (((x &&& 0xffffff).setWidth 32).setWidth 64) = truncFromU64 24 x := by
    intro x
    rw [← BitVec.toNat_inj]
    unfold truncFromU64
    rw [BitVec.toNat_setWidth,BitVec.toNat_setWidth,BitVec.toNat_setWidth,masked (B:=24) 0xffffff rfl]
    have small : (truncFromU64 24 x).toNat < 2^24 := BitVec.isLt _
    rw [Nat.mod_eq_of_lt (Nat.lt_trans small (by decide)),Nat.mod_eq_of_lt (Nat.lt_trans small (by decide)),
      Nat.mod_eq_of_lt small]
    rfl
  by_cases round : (instant-now).toNat < 2^24
  · by_cases close : (instant-now).toNat < 3
    · refine Meets.exactly (show time < now+3 by push_cast at soon; omega) (by omega) ?_ (by push_cast [nrfRtc] at *; omega)
      simp only [nrfRtc,rtcSetCompare,if_pos (limit.mpr round),if_pos (short.mpr close),low]
      rw [← trunc_wrap (by decide),show wrap 64 now+3 = wrap 64 (now+3) from (BitVec.ofInt_add (n:=64) now 3).symm]
    · refine Meets.exactly before (by omega) ?_ (by push_cast [nrfRtc] at *; omega)
      simp only [nrfRtc,rtcSetCompare,if_pos (limit.mpr round),if_neg (mt short.mp close),low]
      rw [← trunc_wrap (by decide)]
  · exact Meets.rolling rfl (by omega)

theorem Supported.meets {slack : Option Nat} (supported : Supported timer slack late) : Meets timer slack late := by
  cases supported with
  | stm32 le => exact meets_stm32 le
  | rp2040 => exact meets_alarm rfl fun _ _ => rfl
  | rp235x => exact meets_alarm rfl fun _ _ => rfl
  | nrfRtc => exact meets_rtc
  | nrfTimer => exact meets_low rfl (fun _ _ => rfl) (by decide)
  | imxrt => exact meets_low rfl (fun _ _ => rfl) (by decide)
end

section
variable {s t : TimerQueue.State 64} {gated : Bool} {event : TimerQueue.Event} {l l' : List Nat} {i : Nat}
  {d : TimerQueue.Delay}

theorem covered_move (covered : Covered s l) (pended : s.pended = true → t.pended = true)
    (delay : t.delay = update s.delay i d) (here : s.point i ≠ .marker true ∧ s.point i ≠ .pend) : Covered t l := by
  rcases covered with empty | pended_ | inserting_
  · exact Or.inl empty
  · exact Or.inr (Or.inl (pended pended_))
  · exact Or.inr (Or.inr (TimerQueue.inserting_move inserting_ delay here))

-- A step that is none of the handler's: it leaves the timer as it is, what was covered is covered,
-- and nothing earlier comes to the head unless it is covered.
structure Aside (s t : TimerQueue.State 64) (l l' : List Nat) : Prop where
  handler : t.handler = s.handler
  enabled : t.enabled = s.enabled
  matched : t.matched = s.matched
  time : t.time = s.time
  covered : Covered s l → Covered t l'
  before : ∀ instant, Before s.delay l instant → Covered t l' ∨ Before t.delay l' instant

-- A step of the Delay at `i` that leaves the list as it is.
theorem Aside.stay (handler : t.handler = s.handler)
    (backend : t.enabled = s.enabled ∧ t.matched = s.matched ∧ t.time = s.time ∧ t.pended = s.pended)
    (delay : t.delay = update s.delay i d) (here : s.point i ≠ .marker true ∧ s.point i ≠ .pend)
    (instants : ∀ j ∈ l, (t.delay j).instant = (s.delay j).instant) : Aside s t l l := by
  obtain ⟨enabled,matched,time,pended⟩ := backend
  refine ⟨handler,enabled,matched,time,fun covered => ?_,fun instant before => Or.inr (before.congr instants)⟩
  exact covered_move covered (fun pended_ => pended.trans pended_) delay here

theorem step_aside (sound : TimerQueue.Sound s.queue s.delay l) (sorted : Sorted s.delay l)
    (taken : TimerQueue.Step gated s event t) (relinked : Relinked s l l' event) (others : event.byHandler = false)
    (plain : (∀ ticks, event ≠ .advanced ticks) ∧ event ≠ .interrupted) : Aside s t l l' := by
  have instants := TimerQueue.step_instant sound taken
  cases taken with
  | advanced => exact absurd rfl (plain.1 _)
  | interrupted idle requested_ => exact absurd rfl plain.2
  | spurious =>
    cases relinked
    exact ⟨rfl,rfl,rfl,rfl,fun _ => Or.inr (Or.inl rfl),fun _ before => Or.inr before⟩
  | ready here due =>
    cases relinked
    exact ⟨rfl,rfl,rfl,rfl,fun covered => covered,fun _ before => Or.inr before⟩
  | stillPending here early linked =>
    cases relinked
    exact ⟨rfl,rfl,rfl,rfl,fun covered => covered,fun _ before => Or.inr before⟩
  | created here =>
    cases relinked
    exact Aside.stay rfl ⟨rfl,rfl,rfl,rfl⟩ rfl (TimerQueue.idle_not_inserting here (by simp)) instants
  | linkMade here early unlinked =>
    cases relinked
    exact Aside.stay rfl ⟨rfl,rfl,rfl,rfl⟩ rfl (TimerQueue.idle_not_inserting here (by simp)) instants
  | returned here done =>
    cases relinked
    exact Aside.stay rfl ⟨rfl,rfl,rfl,rfl⟩ rfl (TimerQueue.idle_not_inserting here (by simp)) instants
  | dropping here linked unpopped =>
    cases relinked
    exact Aside.stay rfl ⟨rfl,rfl,rfl,rfl⟩ rfl (TimerQueue.idle_not_inserting here (by simp)) instants
  | marked here =>
    rename_i i headUpdated
    cases relinked
    cases headUpdated with
    | true =>
      have covered : inserting (s.mark i .pend) := ⟨i,Or.inr (by simp [TimerQueue.State.point,TimerQueue.State.mark])⟩
      refine ⟨rfl,rfl,rfl,rfl,?_,fun _ before => Or.inr (before.congr instants)⟩
      rintro (empty | pended | _)
      · exact Or.inl empty
      · exact Or.inr (Or.inl pended)
      · exact Or.inr (Or.inr covered)
    | false => exact Aside.stay rfl ⟨rfl,rfl,rfl,rfl⟩ rfl (TimerQueue.idle_not_inserting here (by simp)) instants
  | pendInterrupt here =>
    cases relinked
    exact ⟨rfl,rfl,rfl,rfl,fun _ => Or.inr (Or.inl rfl),fun _ before => Or.inr (before.congr instants)⟩
  | inserted here result =>
    obtain ⟨_,rfl⟩ := relinked
    -- As if the handler had just looked at the head.
    refine ⟨rfl,rfl,rfl,rfl,fun covered => ?_,fun instant before => ?_⟩
    · exact TimerQueue.Watched.inserted (s:={s with handler := .disableTimer}) covered sound here result
    · exact TimerQueue.Watched.inserted (s:={s with handler := .enableTimer instant}) (Or.inr before) sound here result
  | deleted here result =>
    cases relinked
    refine ⟨rfl,rfl,rfl,rfl,?_,fun instant before => Or.inr ?_⟩
    · rintro (rfl | pended | inserting_)
      · exact Or.inl rfl
      · exact Or.inr (Or.inl pended)
      · exact Or.inr (Or.inr (TimerQueue.inserting_move inserting_ rfl (TimerQueue.idle_not_inserting here (by simp))))
    · exact (before.erase sorted).congr fun j member => instants j (List.mem_of_mem_erase member)
  | _ => cases others
end

section
variable {B : Nat} {timer : Backend B} {slack : Option Nat} {late : Nat} {s t : State B} {evs : List Event} {e : Event}
  {l l' : List Nat} {instant : Int}

-- How a step changes the list.
def Links (s : State B) (l l' : List Nat) : Event → Prop
  | .compareRead => l' = l
  | .queue event => Relinked s.core l l' event

theorem step_links (sound : TimerQueue.Sound s.core.queue s.core.delay l) (taken : Step timer s e t) :
    ∃ l', TimerQueue.Sound t.core.queue t.core.delay l' ∧ Links s l l' e := by
  cases taken with
  | advanced => exact ⟨l,sound,rfl⟩
  | interrupted idle requested_ => exact ⟨l,sound,rfl⟩
  | compareRead at_ unread => exact ⟨l,sound,rfl⟩
  | hooked taken => exact TimerQueue.step_sound sound taken
  | compareSet at_ read taken => exact TimerQueue.step_sound sound taken
  | other plain taken => exact TimerQueue.step_sound sound taken

theorem step_order (sound : TimerQueue.Sound s.core.queue s.core.delay l) (sorted : Sorted s.core.delay l)
    (near : HandledNear [] s.core) (taken : Step timer s e t) (links : Links s l l' e) : Sorted t.core.delay l' := by
  cases taken with
  | advanced =>
    cases links
    exact sorted
  | interrupted idle requested_ =>
    cases links
    exact sorted
  | compareRead at_ unread =>
    cases links
    exact sorted
  | hooked taken => exact TimerQueue.step_sorted sound sorted near taken links
  | compareSet at_ read taken => exact TimerQueue.step_sorted sound sorted near taken links
  | other plain taken => exact TimerQueue.step_sorted sound sorted near taken links

theorem step_reading (reading : Reading s) (taken : Step timer s e t) : Reading t := by
  cases taken with
  | advanced => exact reading
  | interrupted idle requested_ =>
    intro held
    obtain ⟨_,at_⟩ := reading held
    rw [idle] at at_
    cases at_
  | compareRead at_ unread => exact fun _ => ⟨_,at_⟩
  | hooked taken =>
    intro held
    obtain ⟨_,at_⟩ := reading held
    cases taken with
    | hooked here =>
      rw [here] at at_
      cases at_
  | compareSet at_ read taken => exact fun held => absurd rfl held
  | other plain taken =>
    intro held
    obtain ⟨instant,at_⟩ := reading held
    refine ⟨instant,?_⟩
    cases taken
    case compareSet => exact absurd rfl plain.2.2.2
    all_goals first | exact at_ | (rename_i here _; rw [here] at at_; cases at_) | (rename_i here; rw [here] at at_; cases at_)

theorem within_of {happens : Int → Bool} {time met : Int} {ticks : Nat} (happens_ : happens met = true) (later : time < met)
    (passed : met ≤ time+ticks) : within happens time ticks = true := by
  refine decide_eq_true ⟨(met-time-1).toNat,by omega,?_⟩
  rw [show time+((met-time-1).toNat : Int)+1 = met by omega]
  exact happens_

-- While time passes, what is awaited is still to come or has set its flag.
theorem Awaits.advance (awaits : Awaits timer late s instant) (ticks : Nat) :
    Awaits timer late
      {s with
        core := {s.core with
          time := s.core.time+ticks
          matched := s.core.matched || within (s.matchesAt timer) s.core.time ticks}
        overflow := s.overflow || within (overflowsAt timer) s.core.time ticks} instant := by
  rcases awaits with overflow | matched | ⟨met,later,early,interrupts_⟩
  · exact Or.inl (by simp [overflow])
  · exact Or.inr (Or.inl (by simp [matched]))
  · by_cases passed : met ≤ s.core.time+ticks
    · rcases interrupts_ with matches_ | rolls
      · exact Or.inr (Or.inl (by simp [within_of matches_ later passed]))
      · exact Or.inl (by simp [within_of rolls later passed])
    · exact Or.inr (Or.inr ⟨met,Int.not_le.mp passed,early,interrupts_⟩)

theorem Watched.advance (watched : Watched timer late s l) (ticks : Nat) :
    Watched timer late
      {s with
        core := {s.core with
          time := s.core.time+ticks
          matched := s.core.matched || within (s.matchesAt timer) s.core.time ticks}
        overflow := s.overflow || within (overflowsAt timer) s.core.time ticks} l := by
  unfold Watched at *
  dsimp only
  cases at_ : s.core.handler <;> rw [at_] at watched
  case idle =>
    rcases watched with covered | ⟨live,instant,before,awaits⟩
    · exact Or.inl covered
    · exact Or.inr ⟨live,instant,before,awaits.advance ticks⟩
  case setCompare =>
    obtain ⟨live,either,read⟩ := watched
    refine ⟨live,either,fun now held => ?_⟩
    obtain ⟨since,near,overflow⟩ := read now held
    refine ⟨by omega,near,fun ⟨rolls,m,after,passed,zero⟩ => ?_⟩
    by_cases earlier : m ≤ s.core.time
    · simp [overflow ⟨rolls,m,after,earlier,zero⟩]
    · have rolls_ : overflowsAt timer m = true := by simp [overflowsAt,rolls,zero]
      simp [within_of rolls_ (Int.not_le.mp earlier) passed]
  case check =>
    obtain ⟨live,covered | ⟨before,due | awaits⟩⟩ := watched
    · exact ⟨live,Or.inl covered⟩
    · exact ⟨live,Or.inr ⟨before,Or.inl (by omega)⟩⟩
    · exact ⟨live,Or.inr ⟨before,Or.inr (awaits.advance ticks)⟩⟩
  all_goals exact watched

-- What a Delay does leaves the handler what it relies on.
theorem Watched.aside {core : TimerQueue.State 64} (watched : Watched timer late s l) (aside : Aside s.core core l l') :
    Watched timer late {s with core := core} l' := by
  obtain ⟨handler,enabled,matched,time,covered,before⟩ := aside
  have either : ∀ {instant}, Covered s.core l ∨ Before s.core.delay l instant →
      Covered core l' ∨ Before core.delay l' instant := by
    rintro instant (covered_ | before_)
    · exact Or.inl (covered covered_)
    · exact before instant before_
  have awaits : ∀ {instant}, Awaits timer late s instant → Awaits timer late {s with core := core} instant := by
    intro instant awaits
    unfold Awaits at *
    dsimp only
    rwa [matched,time]
  unfold Watched at *
  dsimp only
  rw [handler]
  cases at_ : s.core.handler <;> rw [at_] at watched
  case idle =>
    rcases watched with covered_ | ⟨live,instant,before_,awaits_⟩
    · exact Or.inl (covered covered_)
    · exact (before instant before_).imp id fun before_ => ⟨enabled.trans live,instant,before_,awaits awaits_⟩
  case enableTimer => exact either watched
  case setCompare =>
    rw [time]
    exact ⟨enabled.trans watched.1,either watched.2.1,watched.2.2⟩
  case check =>
    obtain ⟨live,covered_ | ⟨before_,later⟩⟩ := watched
    · exact ⟨enabled.trans live,Or.inl (covered covered_)⟩
    · refine ⟨enabled.trans live,(before _ before_).imp id fun before_ => ⟨before_,?_⟩⟩
      rw [time]
      exact later.imp id awaits
  case disableTimer => exact covered watched
  all_goals trivial

-- set_compare has written what it has computed: an instant that is still to come is awaited.
theorem Watched.written {now : Int} (meets : Meets timer slack late) (watched : Watched timer late s l)
    (at_ : s.core.handler = .setCompare instant) (read : s.now = some now) (prompt : promptly slack now s.core.time) :
    Watched timer late
      {s with
        core := {s.core with handler := .check instant,compare := wrap 64 instant}
        register := timer.compareValue (wrap 64 instant) (wrap 64 now)
        written := s.core.time
        now := none} l := by
  unfold Watched at watched
  rw [at_] at watched
  obtain ⟨live,covered | before,read_⟩ := watched
  · exact ⟨live,Or.inl covered⟩
  · refine ⟨live,Or.inr ⟨before,?_⟩⟩
    obtain ⟨since,near,overflow⟩ := read_ now read
    by_cases due : instant ≤ s.core.time
    · exact Or.inl due
    · refine Or.inr ?_
      rcases meets instant now s.core.time since (Int.not_le.mp due) near prompt with rolled_ | ⟨met,later,early,hits⟩
      · exact Or.inl (overflow rolled_)
      · refine Or.inr (Or.inr ⟨met,later,early,hits.imp (fun same => ?_) id⟩)
        exact decide_eq_true same

theorem step_watched (meets : Meets timer slack late) (sound : TimerQueue.Sound s.core.queue s.core.delay l)
    (sorted : Sorted s.core.delay l) (watched : Watched timer late s l) (reading : Reading s)
    (near : HandledNear [] s.core) (prompt : Prompt slack evs s e t) (taken : Step timer s e t)
    (links : Links s l l' e) : Watched timer late t l' := by
  cases taken with
  | advanced =>
    cases links
    exact watched.advance _
  | interrupted idle requested_ => trivial
  | hooked taken =>
    cases taken
    trivial
  | compareRead at_ unread =>
    rename_i instant
    cases links
    unfold Watched at watched ⊢
    rw [at_] at watched
    dsimp only
    rw [at_]
    refine ⟨watched.1,watched.2.1,fun now held => ?_⟩
    cases held
    have hand : s.core.handler.instant = some instant := by rw [at_]; rfl
    refine ⟨Int.le_refl _,near _ _ (Or.inl rfl) (Or.inr (Or.inr hand)),fun ⟨_,m,after,passed,_⟩ => ?_⟩
    exact absurd after (Int.not_lt.mpr passed)
  | compareSet at_ read taken =>
    cases links
    cases taken with
    | compareSet here =>
      cases at_.symm.trans here
      exact watched.written meets at_ read (prompt _ read)
  | other plain taken =>
    rename_i event core
    by_cases others : event.byHandler = false
    · exact watched.aside (step_aside sound sorted taken links others ⟨plain.1,plain.2.1⟩)
    unfold Watched at watched
    cases taken with
    | flagCleared at_ => trivial
    | hooked at_ => exact absurd rfl plain.2.2.1
    | compareSet at_ => exact absurd rfl plain.2.2.2
    | popped at_ result => trivial
    | notDue at_ result =>
      cases links
      obtain ⟨_,_,rfl,rfl,_⟩ := sound.notDue result
      refine Or.inr fun j head => ?_
      cases head
      exact Int.le_refl _
    | empty at_ result =>
      cases links
      exact Or.inl (sound.emptied result).1
    | woke at_ => trivial
    | timerEnabled at_ =>
      cases links
      rw [at_] at watched
      refine ⟨rfl,watched,fun now held => ?_⟩
      obtain ⟨_,impossible⟩ := reading (by rw [show s.now = some now from held]; nofun)
      rw [at_] at impossible
      cases impossible
    | rechecked at_ =>
      rename_i instant
      cases links
      rw [at_] at watched
      have hand : s.core.handler.instant = some instant := by rw [at_]; rfl
      unfold Watched
      dsimp only
      rw [isAtLeast_wrap (near _ _ (Or.inl rfl) (Or.inr (Or.inr hand)))]
      by_cases due : instant ≤ s.core.time
      · rw [decide_eq_true due]
        trivial
      · rw [decide_eq_false due]
        obtain ⟨live,covered | ⟨before,passed | awaits⟩⟩ := watched
        · exact Or.inl covered
        · exact absurd passed due
        · exact Or.inr ⟨live,instant,before,awaits⟩
    | timerDisabled at_ =>
      cases links
      rw [at_] at watched
      exact Or.inl watched
    | _ => exact absurd rfl others

theorem Watched.armed (sound : TimerQueue.Sound s.core.queue s.core.delay l) (watched : Watched timer late s l) :
    ArmedBy timer late evs s := by
  intro idle unrequested uninserted
  unfold Watched at watched
  rw [idle] at watched
  simp only [requested,Bool.or_eq_false_iff] at unrequested
  obtain ⟨⟨unpended,unmatched⟩,unrolled⟩ := unrequested
  have head := Chain.Linked.head_eq sound.holds
  rcases watched with (empty | pended | inserting_) | ⟨live,instant,before,awaits⟩
  · rw [empty] at head
    exact Or.inl head
  · rw [unpended] at pended
    cases pended
  · exact absurd inserting_ uninserted
  · rcases awaits with overflow | matched | ⟨met,later,early,interrupts_⟩
    · rw [unrolled] at overflow
      cases overflow
    · rw [matched,live] at unmatched
      cases unmatched
    · cases l with
      | nil => exact Or.inl head
      | cons i rest =>
        obtain ⟨waker,val⟩ := sound.value List.mem_cons_self
        have first := before i rfl
        exact Or.inr ⟨i,_,head,val,live,met,later,Int.le_trans early (Int.add_le_add_right first _),interrupts_⟩

theorem ArmedBy.noneOverdue (sound : TimerQueue.Sound s.core.queue s.core.delay l) (sorted : Sorted s.core.delay l)
    (armed : ArmedBy timer late evs s) : NoneOverdue late evs s := by
  intro idle unrequested uninserted i value reached val
  have member := sound.reachable_iff.mp reached
  obtain ⟨_,mine⟩ := sound.value member
  rw [mine] at val
  cases val
  have head := Chain.Linked.head_eq sound.holds
  cases l with
  | nil => cases member
  | cons j rest =>
    rcases armed idle unrequested uninserted with empty | ⟨k,first,at_,theirs,_,met,later,early,_⟩
    · rw [head] at empty
      cases empty
    · cases head.symm.trans at_
      obtain ⟨_,own⟩ := sound.value (List.mem_cons_self (a:=j) (l:=rest))
      rw [own] at theirs
      cases theirs
      have order : (s.core.delay j).instant ≤ (s.core.delay i).instant := by
        rcases List.mem_cons.mp member with rfl | below
        · exact Int.le_refl _
        · exact (List.pairwise_cons.mp sorted).1 i below
      exact Int.lt_of_lt_of_le later (Int.le_trans early (Int.add_le_add_right order _))
end

-- In every run whose instants stay near each other and whose set_compare is prompt: when the handler has returned and
-- nothing is under way, the timer interrupts after now and, up to its latency, not after the first instant.
theorem compare_armed {B : Nat} {timer : Backend B} {slack : Option Nat} {late : Nat} {start : Int} {s : State B}
    (supported : Supported timer slack late) (run : Run timer start s)
    (near : run.Through fun _ s => HandledNear [] s.core) (prompt : run.Every (Prompt slack)) :
    run.Through (ArmedBy timer late) ∧ run.Through (NoneOverdue late) := by
  let inv (_ : List Event) (s : State B) := ∃ l, TimerQueue.Sound s.core.queue s.core.delay l ∧
    Sorted s.core.delay l ∧ Watched timer late s l ∧ Reading s
  have base : inv [] (initial timer start) :=
    ⟨[],@TimerQueue.initial_sound 64 timer.gated start,List.Pairwise.nil,Or.inl (Or.inl rfl),fun held => absurd rfl held⟩
  have preserved : ∀ {evs s e t}, inv evs s → Step timer s e t →
      HandledNear [] s.core ∧ Prompt slack evs s e t → inv (evs++[e]) t := by
    rintro evs s e t ⟨l,sound,sorted,watched,reading⟩ taken ⟨near,prompt⟩
    obtain ⟨l',after,links⟩ := step_links sound taken
    exact ⟨l',after,step_order sound sorted near taken links,
      step_watched supported.meets sound sorted watched reading near prompt taken links,step_reading reading taken⟩
  have admitted := near.before.and prompt
  refine ⟨?_,?_⟩
  · exact run.through_of inv base preserved (fun ⟨_,sound,_,watched,_⟩ => watched.armed sound) admitted
  · refine run.through_of inv base preserved ?_ admitted
    rintro evs s ⟨l,sound,sorted,watched,_⟩
    have armed : ArmedBy timer late evs s := watched.armed sound
    exact armed.noneOverdue sound sorted

-- A Delay until 5 is polled at 0, and the interrupt that its poll pends sets the alarm.
def setsAlarm :=
  (((((((((((((Transition.Run.start : Run rp2040 0 _).snoc
    (.queue (.created 0 5)) (.other ⟨nofun,nofun,nofun,nofun⟩ (.created rfl))).snoc
    (.queue (.linkMade 0 0 ⟨6,0⟩)) (.other ⟨nofun,nofun,nofun,nofun⟩ (.linkMade rfl (by decide) rfl))).snoc
    (.queue (.inserted 0 0 true)) (.other ⟨nofun,nofun,nofun,nofun⟩
      (.inserted rfl (show LinkedList.insert _ _ 1 0 = _ from rfl)))).snoc
    (.queue (.marked 0)) (.other ⟨nofun,nofun,nofun,nofun⟩ (.marked rfl))).snoc
    (.queue (.pendInterrupt 0)) (.other ⟨nofun,nofun,nofun,nofun⟩ (.pendInterrupt rfl))).snoc
    (.queue .interrupted) (.interrupted rfl rfl)).snoc
    (.queue .flagCleared) (.other ⟨nofun,nofun,nofun,nofun⟩ (.flagCleared rfl))).snoc
    (.queue .hooked) (.hooked (.hooked rfl))).snoc
    (.queue (.notDue 5)) (.other ⟨nofun,nofun,nofun,nofun⟩
      (.notDue rfl (show LinkedList.popIf _ _ = some (some (0,⟨⟨6,0⟩,5,false⟩,false),_) from rfl)))).snoc
    (.queue .timerEnabled) (.other ⟨nofun,nofun,nofun,nofun⟩ (.timerEnabled rfl))).snoc
    .compareRead (.compareRead rfl rfl)).snoc
    (.queue .compareSet) (.compareSet rfl rfl (.compareSet rfl))).snoc
    (.queue (.rechecked _)) (.other ⟨nofun,nofun,nofun,nofun⟩ (.rechecked rfl))

theorem setsAlarm_compare_armed : (setsAlarm.Through fun _ s => HandledNear [] s.core) ∧
    setsAlarm.Every (Prompt (some 0)) ∧ setsAlarm.Through (ArmedBy rp2040 0) := by
  -- Now is 0, and the only link is for 5.
  have soon : ∀ {s : TimerQueue.State 64}, s.time = 0 →
      (∀ i value, s.queue.value i = some value → value.releaseAt = 5) →
      (s.handler.instant = none ∨ s.handler.instant = some 5) → HandledNear [] s := by
    intro s time values hand
    have range : ∀ a, handled s a → a = 0 ∨ a = 5 := by
      rintro a (rfl | ⟨i,value,val,_,rfl⟩ | held)
      · exact Or.inl time
      · exact Or.inr (values i value val)
      · rcases hand with none_ | five
        · rw [none_] at held
          cases held
        · rw [five] at held
          cases held
          exact Or.inr rfl
    intro a b first second
    rcases range a first with rfl | rfl <;> rcases range b second with rfl | rfl <;> unfold Near <;> decide
  have only : ∀ {queue : LinkedList TimerQueue.WaitingWaker}, queue.value 0 = some ⟨⟨6,0⟩,5,false⟩ →
      (∀ i, queue.value (i+1) = none) → ∀ i value, queue.value i = some value → value.releaseAt = 5 := by
    intro queue first rest i value val
    cases i with
    | zero =>
      rw [first] at val
      cases val
      rfl
    | succ i =>
      rw [rest i] at val
      cases val
  have near : setsAlarm.Through fun _ s => HandledNear [] s.core := by
    refine ⟨⟨⟨⟨⟨⟨⟨⟨⟨⟨⟨⟨⟨soon rfl nofun (Or.inl rfl),soon rfl nofun (Or.inl rfl)⟩,?_⟩,?_⟩,?_⟩,?_⟩,?_⟩,?_⟩,?_⟩,?_⟩,?_⟩,?_⟩,?_⟩,?_⟩
    all_goals first | exact soon rfl (only rfl fun _ => rfl) (Or.inl rfl) | exact soon rfl (only rfl fun _ => rfl) (Or.inr rfl)
  have prompt : setsAlarm.Every (Prompt (some 0)) := by
    refine ⟨⟨⟨⟨⟨⟨⟨⟨⟨⟨⟨⟨⟨trivial,trivial⟩,trivial⟩,trivial⟩,trivial⟩,trivial⟩,trivial⟩,trivial⟩,trivial⟩,trivial⟩,trivial⟩,trivial⟩,?_⟩,trivial⟩
    rintro now held ticks slack
    cases held
    cases slack
    exact Int.le_refl _
  exact ⟨near,prompt,(compare_armed .rp2040 setsAlarm near prompt).1⟩

end Rtic.Monotonics.CompareTimer
