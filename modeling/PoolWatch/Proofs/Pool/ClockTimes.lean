import PoolWatch.Pool.Arrange
import PoolWatch.Proofs.Numeric.FloatBounds
/-!
# Clock times

A clock counts the nanoseconds since 1970 in 64 bits.  Its times in seconds, as floats, are zero or
not tiny, and none is later than the year 3059.  So they are multiples of a power of two that the
earliest of them gives, and there are fewer of them than 64 bits can count.
-/

namespace PoolWatch

open Float.Model (UnpackedFloat)
open Float.Model.Format (binary64)
open PoolWatch.Numeric

/-- A time of the thousand years from 1970 on, at its beginning or a nanosecond later. -/
structure IsClockTime (x : Float) : Prop where
  lies : Lies 0 (2 ^ 35) x
  zero_or_le : number x = 0 ∨ (2 : Rat) ^ (-30 : Int) ≤ number x

theorem isClockTime_nanos {n : Nat} (h : n ≤ unsignedMax) :
    IsClockTime (Float.ofNat n / Pool.nanosPerSecond) := by
  have hnanos : number Pool.nanosPerSecond = 1000000000 := by
    have hsame : Pool.nanosPerSecond = Float.ofNat 1000000000 := by decide +kernel
    rw [hsame]
    exact number_ofNat (by decide)
  have hfinite : Pool.nanosPerSecond.isFinite = true := by decide +kernel
  have hne : number Pool.nanosPerSecond ≠ 0 := by rw [hnanos]; norm_num
  have hbound : IsFloat (2 ^ 35) := isFloat_two_zpow (j := 35) (by decide) (by decide)
  obtain rfl | hpos := Nat.eq_zero_or_pos n
  · have hzero : number (Float.ofNat 0) = 0 := rfl
    have hlies : Lies 0 0 (Float.ofNat 0 / Pool.nanosPerSecond) := by
      refine lies_div rfl hfinite hne isFloat_zero isFloat_zero ?_ ?_
      · rw [hzero, zero_div]
      · rw [hzero, zero_div]
    exact ⟨⟨hlies.isFinite, hlies.le, hlies.ge.trans (by norm_num)⟩,
      .inl (le_antisymm hlies.ge hlies.le)⟩
  · have hcount : Lies 1 (2 ^ 64) (Float.ofNat n) := by
      refine lies_ofNat h (isFloat_natCast (n := 1) (by decide))
        (isFloat_two_zpow (j := 64) (by decide) (by decide)) (by exact_mod_cast hpos) ?_
      exact_mod_cast h.trans (by decide : unsignedMax ≤ 2 ^ 64)
    have hlies : Lies (2 ^ (-30 : Int)) (2 ^ 35) (Float.ofNat n / Pool.nanosPerSecond) := by
      refine lies_div hcount.isFinite hfinite hne
        (isFloat_two_zpow (by decide) (by decide)) hbound ?_ ?_
      · rw [hnanos, le_div_iff₀ (by norm_num)]
        exact le_trans (by norm_num) hcount.le
      · rw [hnanos, div_le_iff₀ (by norm_num)]
        exact hcount.ge.trans (by norm_num)
    exact ⟨⟨hlies.isFinite, le_trans (by norm_num) hlies.le, hlies.ge⟩, .inr hlies.le⟩

theorem IsClockTime.exists_canonical {x : Float} (h : IsClockTime x) (hne : number x ≠ 0) :
    ∃ m e, ∃ hm : IsCanonical binary64 m e, x.toModel.unpack = .finite .positive m e hm.pos ∧
      number x = magnitude m e ∧ 2 ^ 52 ≤ m ∧ m < 2 ^ 53 ∧ -82 ≤ e ∧ e ≤ -17 := by
  have hpos : 0 < number x := lt_of_le_of_ne h.lies.le hne.symm
  obtain ⟨m, e, hm, hunpack, -⟩ := exists_positive (isOfFormat_of_isFinite h.lies.isFinite) hpos
  have hnumber : number x = magnitude m e := by rw [number, hunpack]; rfl
  have hlt : m < 2 ^ 53 := hm.lt
  have hlow : -82 ≤ e := by
    have hleast : (2 : Rat) ^ (-30 : Int) ≤ m * 2 ^ e := by
      rw [← magnitude, ← hnumber]
      exact h.zero_or_le.resolve_left hne
    have hbelow : (2 : Rat) ^ (-30 : Int) < 2 ^ (53 + e) :=
      calc (2 : Rat) ^ (-30 : Int) ≤ m * 2 ^ e := hleast
        _ < 2 ^ 53 * 2 ^ e := mul_lt_mul_of_pos_right (by exact_mod_cast hlt) (by positivity)
        _ = 2 ^ (53 + e) := by rw [zpow_add₀ two_ne_zero]; rfl
    have := (zpow_lt_zpow_iff_right₀ one_lt_two).1 hbelow
    omega
  have hleast : binary64.minExponent = -1074 := by decide
  have hfull : 2 ^ 52 ≤ m := hm.full.resolve_right (by omega)
  have hhigh : e ≤ -17 := by
    have habove : (2 : Rat) ^ (52 + e) ≤ 2 ^ (35 : Int) :=
      calc (2 : Rat) ^ (52 + e) = 2 ^ 52 * 2 ^ e := by rw [zpow_add₀ two_ne_zero]; rfl
        _ ≤ m * 2 ^ e := mul_le_mul_of_nonneg_right (by exact_mod_cast hfull) (by positivity)
        _ ≤ 2 ^ (35 : Int) := by
          rw [← magnitude, ← hnumber]
          exact h.lies.ge
    have := (zpow_le_zpow_iff_right₀ one_lt_two).1 habove
    omega
  exact ⟨m, e, hm, hunpack, hnumber, hfull, hlt, hlow, hhigh⟩

/-! ## The last place of a time -/

/-- The number is a whole count of a power of two. -/
def InUnits (e : Int) (x : Float) : Prop := ∃ n : Nat, number x = n * 2 ^ e

/-- All later times are multiples of the last place of a time. -/
theorem IsClockTime.exists_unit {x : Float} (h : IsClockTime x) :
    ∃ (m : Nat) (e : Int), m < 2 ^ 53 ∧ -82 ≤ e ∧ number x = m * 2 ^ e ∧
      ∀ y, IsClockTime y → number x ≤ number y → InUnits e y := by
  -- a canonical number of an exponent that is not less is a multiple of the power of two
  have hmultiple {e t : Int} {n : Nat} {y : Float} (hy : number y = magnitude n t) (hle : e ≤ t) :
      InUnits e y := by
    have hexponent : t - (t - e).toNat = e := by omega
    refine ⟨n * 2 ^ (t - e).toNat, ?_⟩
    rw [hy, ← magnitude_sub n (t - e).toNat t, hexponent, magnitude]
  by_cases hzero : number x = 0
  · refine ⟨0, -82, by decide, le_rfl, by rw [hzero, Nat.cast_zero, zero_mul], fun y hy _ => ?_⟩
    by_cases hzero' : number y = 0
    · exact ⟨0, by rw [hzero', Nat.cast_zero, zero_mul]⟩
    · obtain ⟨n, t, -, -, hnumber, -, -, hlow, -⟩ := hy.exists_canonical hzero'
      exact hmultiple hnumber hlow
  · obtain ⟨m, e, hm, -, hx, hfull, hlt, hlow, -⟩ := h.exists_canonical hzero
    refine ⟨m, e, hlt, hlow, hx, fun y hy hle => ?_⟩
    have hpos : 0 < number x := lt_of_le_of_ne h.lies.le (Ne.symm hzero)
    obtain ⟨n, t, hn, -, hnumber, -, -, -, -⟩ := hy.exists_canonical (hpos.trans_le hle).ne'
    refine hmultiple hnumber ?_
    by_contra hless
    rw [hx, hnumber] at hle
    exact absurd (magnitude_lt_of_full hn.lt hfull (not_le.1 hless)) (not_lt_of_ge hle)

theorem add_le_of_inUnits {e : Int} {x y : Float} (hx : InUnits e x) (hy : InUnits e y)
    (hlt : number x < number y) : number x + 2 ^ e ≤ number y := by
  have hpos : (0 : Rat) < 2 ^ e := zpow_pos two_pos e
  obtain ⟨m, hm⟩ := hx
  obtain ⟨n, hn⟩ := hy
  rw [hm, hn] at hlt ⊢
  have hmn : m + 1 ≤ n := by exact_mod_cast lt_of_mul_lt_mul_right hlt hpos.le
  have hcast : (m : Rat) + 1 ≤ n := by exact_mod_cast hmn
  nlinarith

/-! ## How many there are -/

/-- The place of a clock time among all of them. -/
def clockPlace (x : Float) : Nat :=
  match x.toModel.unpack with
  | .finite _ m e _ => (e + 83).toNat * 2 ^ 53 + m
  | _ => 0

theorem clockPlace_of_zero {x : Float} (h : IsClockTime x) (hzero : number x = 0) :
    clockPlace x = 0 := by
  have hformat := isOfFormat_of_isFinite h.lies.isFinite
  unfold clockPlace
  cases hunpack : x.toModel.unpack with
  | finite s m e hm =>
    have hpos : 0 < magnitude m e := magnitude_pos_iff.2 hm
    rw [number, hunpack] at hzero
    cases s with
    | positive => exact absurd hzero hpos.ne'
    | negative => exact absurd (neg_eq_zero.1 hzero) hpos.ne'
  | _ => rfl

theorem clockPlace_lt {x : Float} (h : IsClockTime x) : clockPlace x < 2 ^ 60 := by
  by_cases hzero : number x = 0
  · rw [clockPlace_of_zero h hzero]
    decide
  · obtain ⟨m, e, hm, hunpack, -, -, hlt, -, hhigh⟩ := h.exists_canonical hzero
    unfold clockPlace
    rw [hunpack]
    dsimp only
    omega

theorem clockPlace_lt_clockPlace {x y : Float} (hx : IsClockTime x) (hy : IsClockTime y)
    (hlt : number x < number y) : clockPlace x < clockPlace y := by
  obtain ⟨n, t, hn, hunpack, hnumber, hfull, hn53, hlow, -⟩ :=
    hy.exists_canonical (hx.lies.le.trans_lt hlt).ne'
  have hplace : clockPlace y = (t + 83).toNat * 2 ^ 53 + n := by
    unfold clockPlace
    rw [hunpack]
  by_cases hzero : number x = 0
  · rw [clockPlace_of_zero hx hzero, hplace]
    omega
  · obtain ⟨m, e, hm, hunpack', hnumber', hfull', hm53, hlow', -⟩ := hx.exists_canonical hzero
    have hplace' : clockPlace x = (e + 83).toNat * 2 ^ 53 + m := by
      unfold clockPlace
      rw [hunpack']
    rw [hplace, hplace']
    rw [hnumber, hnumber'] at hlt
    obtain hless | rfl | hmore := lt_trichotomy e t
    · omega
    · have := (magnitude_lt_magnitude_iff e).1 hlt
      omega
    · exact absurd (magnitude_lt_of_full hn.lt hfull' hmore) (not_lt_of_gt hlt)

end PoolWatch
