import Mathlib.Data.Nat.Bitwise
import Mathlib.Order.Bounds.Defs
namespace Rtic.Monotonics.CompareValue

-- TimerWord, for the unsigned type of B bits: whether T::try_from succeeds, and `val as Self`.
def fits (B : Nat) (val : BitVec 64) : Bool := decide (val.toNat < 2^B)
def truncFromU64 (B : Nat) (val : BitVec 64) : BitVec B := val.setWidth B

-- stm32
def computeCompareValue (B : Nat) (instant now : BitVec 64) : BitVec B :=
  let val := if fits B (instant-now) then instant else 0
  truncFromU64 B val

-- What the two set_compare of the RP chips write to alarm0, by the MAX of each.
def alarmValue (MAX instant now : BitVec 64) : BitVec 32 :=
  let val := if instant-now ≤ MAX then instant &&& MAX else 0
  val.setWidth 32

def rp2040SetCompare (instant now : BitVec 64) : BitVec 32 := alarmValue 0xffffffff instant now
def rp235xSetCompare (instant now : BitVec 64) : BitVec 32 := alarmValue 0xffffffff instant now

-- What the set_compare of make_rtc! writes to cc[0], which holds 24 bits.
def rtcSetCompare (instant now : BitVec 64) : BitVec 32 :=
  let MAX : BitVec 64 := 0xffffff
  let diff := instant-now
  if diff ≤ MAX then
    let instant := if diff < 3 then now+3 else instant
    (instant &&& MAX).setWidth 32
  else 0

-- So many ticks after `now` the low bits of the clock are equal to the value for the first time.
def MatchesFirst (B : Nat) (now : BitVec 64) (value ticks : Nat) : Prop :=
  IsLeast {k | 0 < k ∧ (truncFromU64 B (now+BitVec.ofNat 64 k)).toNat = value} ticks

-- A target that is `ticks` away is met exactly at `met`, where that is within a round of the register,
-- and never later than at the target.
def OnTime (B : Nat) (now : BitVec 64) (value ticks met : Nat) : Prop :=
  ∃ first, MatchesFirst B now value first ∧ if ticks < 2^B then first = met else first ≤ ticks

section
variable {B : Nat} {now instant : BitVec 64} {a d M value : Nat}

-- Within a round no other time has the same remainder.
theorem round_first (positive : 0 < d) (within : d ≤ M) : IsLeast {k | 0 < k ∧ (a+k)%M = (a+d)%M} d := by
  refine ⟨⟨positive,rfl⟩,?_⟩
  rintro k ⟨later,same⟩
  by_contra earlier
  have rest : ((a+d)-(a+k))%M = 0 := Nat.sub_mod_eq_zero_of_mod_eq same.symm
  have small : (a+d)-(a+k) < M := by omega
  rw [Nat.mod_eq_of_lt small] at rest
  omega

theorem round_zero (positive : 0 < M) : IsLeast {k | 0 < k ∧ (a+k)%M = 0} (M-a%M) := by
  have below := Nat.mod_lt a positive
  have full : (a+(M-a%M))%M = 0 := by
    have split := Nat.div_add_mod a M
    rw [show a+(M-a%M) = M*(a/M)+M by omega,Nat.mul_add_mod,Nat.mod_self]
  have least := round_first (a:=a) (d:=M-a%M) (M:=M) (by omega) (by omega)
  rwa [full] at least

theorem low_bits (le : B ≤ 64) (k : Nat) : (truncFromU64 B (now+BitVec.ofNat 64 k)).toNat = (now.toNat+k)%2^B := by
  have divides : 2^B ∣ 2^64 := Nat.pow_dvd_pow 2 le
  unfold truncFromU64
  rw [BitVec.toNat_setWidth,BitVec.toNat_add,BitVec.toNat_ofNat,Nat.mod_mod_of_dvd _ divides,Nat.add_mod,
    Nat.mod_mod_of_dvd _ divides,← Nat.add_mod]

-- The value is the low bits of the time at which it has to match.
theorem matches_first (le : B ≤ 64) (positive : 0 < d) (within : d ≤ 2^B)
    (programmed : value = (truncFromU64 B (now+BitVec.ofNat 64 d)).toNat) : MatchesFirst B now value d := by
  subst programmed
  unfold MatchesFirst
  simp only [low_bits le]
  exact round_first positive within

theorem matches_zero (le : B ≤ 64) : ∃ first, MatchesFirst B now 0 first ∧ first ≤ 2^B := by
  refine ⟨2^B-now.toNat%2^B,?_,Nat.sub_le _ _⟩
  unfold MatchesFirst
  simp only [low_bits le]
  exact round_zero (Nat.two_pow_pos B)

-- The range test decides between a value that is met in time and the next round.
theorem on_time {met : Nat} (le : B ≤ 64) (positive : 0 < met) (within : d < 2^B → met ≤ 2^B)
    (near : d < 2^B → value = (truncFromU64 B (now+BitVec.ofNat 64 met)).toNat) (far : 2^B ≤ d → value = 0) :
    OnTime B now value d met := by
  by_cases round : d < 2^B
  · exact ⟨met,matches_first le positive (within round) (near round),by rw [if_pos round]⟩
  · have zero : ∃ first, MatchesFirst B now 0 first ∧ first ≤ 2^B := matches_zero le
    obtain ⟨first,least,early⟩ := zero
    refine ⟨first,by rwa [far (Nat.not_lt.mp round)],?_⟩
    rw [if_neg round]
    omega

theorem instant_eq : now+BitVec.ofNat 64 (instant-now).toNat = instant := by
  rw [BitVec.ofNat_toNat,BitVec.setWidth_eq,BitVec.add_comm,BitVec.sub_add_cancel]

theorem masked (MAX : BitVec 64) (all : MAX.toNat = 2^B-1) (x : BitVec 64) : (x &&& MAX).toNat = (truncFromU64 B x).toNat := by
  unfold truncFromU64
  rw [BitVec.toNat_and,all,Nat.and_two_pow_sub_one_eq_mod,BitVec.toNat_setWidth]

theorem computeCompareValue_on_time (le : B ≤ 64) (ahead : 1 ≤ (instant-now).toNat) :
    OnTime B now (computeCompareValue B instant now).toNat (instant-now).toNat (instant-now).toNat := by
  unfold computeCompareValue fits
  refine on_time le ahead Nat.le_of_lt (fun near => ?_) fun far => ?_
  · rw [decide_eq_true near,if_pos rfl,instant_eq]
  · rw [decide_eq_false (Nat.not_lt.mpr far),if_neg nofun]
    simp [truncFromU64]

theorem alarmValue_on_time (ahead : 1 ≤ (instant-now).toNat) :
    OnTime 32 now (alarmValue 0xffffffff instant now).toNat (instant-now).toNat (instant-now).toNat := by
  have limit : instant-now ≤ 0xffffffff ↔ (instant-now).toNat < 2^32 := by
    rw [BitVec.le_def]
    exact Nat.le_iff_lt_add_one
  unfold alarmValue
  refine on_time (by decide) ahead Nat.le_of_lt (fun near => ?_) fun far => ?_
  · rw [if_pos (limit.mpr near),instant_eq,BitVec.toNat_setWidth,masked (B:=32) 0xffffffff rfl,Nat.mod_eq_of_lt]
    exact BitVec.isLt _
  · rw [if_neg (mt limit.mp (Nat.not_lt.mpr far))]
    rfl

-- An instant that is less than three ticks away is put off to three.
theorem rtcSetCompare_on_time (ahead : 1 ≤ (instant-now).toNat) :
    OnTime 24 now (rtcSetCompare instant now).toNat (instant-now).toNat (max (instant-now).toNat 3) := by
  have limit : instant-now ≤ 0xffffff ↔ (instant-now).toNat < 2^24 := by
    rw [BitVec.le_def]
    exact Nat.le_iff_lt_add_one
  have short : instant-now < 3 ↔ (instant-now).toNat < 3 := BitVec.lt_def
  have moved : (if instant-now < 3 then now+3 else instant) = now+BitVec.ofNat 64 (max (instant-now).toNat 3) := by
    by_cases soon : (instant-now).toNat < 3
    · rw [if_pos (short.mpr soon),max_eq_right (Nat.le_of_lt soon)]
      rfl
    · rw [if_neg (mt short.mp soon),max_eq_left (Nat.not_lt.mp soon),instant_eq]
  unfold rtcSetCompare
  refine on_time (by decide) (by omega) (fun near => by omega) (fun near => ?_) fun far => ?_
  · rw [if_pos (limit.mpr near),moved,BitVec.toNat_setWidth,masked (B:=24) 0xffffff rfl,Nat.mod_eq_of_lt]
    exact (BitVec.isLt _).trans (by decide)
  · rw [if_neg (mt limit.mp (Nat.not_lt.mpr far))]
    rfl
end

theorem compare_on_time (instant now : BitVec 64) (ahead : 1 ≤ (instant-now).toNat) :
    (∀ B, B ≤ 64 → OnTime B now (computeCompareValue B instant now).toNat (instant-now).toNat (instant-now).toNat) ∧
    OnTime 32 now (rp2040SetCompare instant now).toNat (instant-now).toNat (instant-now).toNat ∧
    OnTime 32 now (rp235xSetCompare instant now).toNat (instant-now).toNat (instant-now).toNat ∧
    OnTime 24 now (rtcSetCompare instant now).toNat (instant-now).toNat (max (instant-now).toNat 3) :=
  ⟨fun _ le => computeCompareValue_on_time le ahead,alarmValue_on_time ahead,alarmValue_on_time ahead,
    rtcSetCompare_on_time ahead⟩

-- The instant has wrapped past 2^64, and now has not.
theorem compare_on_time_wrapped : OnTime 16 0xfffffffffffffff0 (computeCompareValue 16 5 0xfffffffffffffff0).toNat 21 21 ∧
    OnTime 24 0xfffffffffffffffe (rtcSetCompare 0 0xfffffffffffffffe).toNat 2 3 :=
  ⟨(compare_on_time 5 0xfffffffffffffff0 (by decide)).1 16 (by decide),
    (compare_on_time 0 0xfffffffffffffffe (by decide)).2.2.2⟩

end Rtic.Monotonics.CompareValue
