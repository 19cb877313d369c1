import PoolWatch.Proofs.Json.Numerals
import PoolWatch.Proofs.Numeric.FloatFinite
/-!
# Amounts are finite

A product that leaves the range of floats is a problem, and a quotient by a power of ten does not
leave it.  So every number that is read is finite.
-/

namespace PoolWatch.Json

open Float.Model (UnpackedFloat totalExponent)
open Float.Model.Format (binary64 targetExponent)
open Float.Model.UnpackedFloat (pack unpack roundWithAccuracy)
open PoolWatch.Numeric

/-! ## Powers of ten -/

theorem atLeastTwo_of_le_magnitude {m : Nat} {e : Int} (h : IsCanonical binary64 m e)
    (htwo : magnitude (2 ^ 52) (-51) ≤ magnitude m e) (hmax : e ≤ maxExponent binary64) :
    atLeastTwo (.finite .positive m e h.pos) = true := by
  have hleast : binary64.minExponent = -1074 := by decide
  have hgreatest : maxExponent binary64 = 971 := by decide
  have hexponent : -51 ≤ e := by
    by_contra hlow
    have hpower : (2 : Rat) ^ e ≤ 2 ^ (-52 : Int) := zpow_le_zpow_right₀ one_le_two (by omega)
    refine absurd htwo (not_le_of_gt ?_)
    calc magnitude m e
        ≤ magnitude m (-52) := mul_le_mul_of_nonneg_left hpower (Nat.cast_nonneg m)
      _ < magnitude (2 ^ 52 * 2 ^ 1) (-51 - 1) := (magnitude_lt_magnitude_iff _).2 h.lt
      _ = magnitude (2 ^ 52) (-51) := magnitude_sub (2 ^ 52) 1 (-51)
  have hfull : 2 ^ 52 ≤ m := h.full.resolve_right (by omega)
  exact decide_eq_true ⟨hfull, h.lt, hexponent, by omega⟩

theorem atLeastTwo_rounded {n : Nat} (hpos : 0 < n) (hmax : n ≤ 307) :
    atLeastTwo (UnpackedFloat.ofScientific binary64 1 n) = true := by
  have hbits : binary64.mantissaBits = 53 := by decide
  have hleast : binary64.minExponent = -1074 := by decide
  have hgreatest : maxExponent binary64 = 971 := by decide
  have hrange : (2 : Int) ^ Float.Model.Format.binary64.exponentBits = 2048 := by decide
  have hpower : 0 < 10 ^ n := Nat.pow_pos (by decide)
  have hlog : (10 ^ n).log2 < 1020 := by
    rw [Nat.log2_lt hpower.ne']
    exact (Nat.pow_le_pow_right (by decide) hmax).trans_lt (by decide +kernel)
  have hshifted : (1 <<< 53 * 10 ^ n).log2 = (10 ^ n).log2 + 53 := by
    rw [Nat.one_shiftLeft, Nat.mul_comm, log2_mul_two_pow hpower.ne']
  unfold UnpackedFloat.ofScientific
  rw [dif_neg one_ne_zero, if_neg (by omega), if_neg (by omega), if_pos (by omega), mul_finite,
    hbits, Int.toNat_natCast]
  have htarget : binary64.targetExponent (totalExponent (1 <<< 53 * 10 ^ n) (-(53 : Nat) + 0)) =
      (10 ^ n).log2 - 52 := by
    unfold targetExponent totalExponent
    rw [hshifted, hbits]
    omega
  have hrange : InRange binary64 (roundWithAccuracy binary64 (.positive * .positive)
      (1 <<< 53 * 10 ^ n) (-(53 : Nat) + 0) .exact) :=
    inRange_roundWithAccuracy (by omega) (by omega)
  have htwo : IsCanonical binary64 (2 ^ 52) (-51) :=
    ⟨by decide, by decide, by decide, .inl le_rfl⟩
  have hlow : magnitude (2 ^ 52) (-51) < magnitude (1 <<< 53 * 10 ^ n + 1) (-(53 : Nat) + 0) := by
    have hexponent : (-51 : Int) - (2 : Nat) = -(53 : Nat) + 0 := by decide
    have hten : 10 ^ 1 ≤ 10 ^ n := Nat.pow_le_pow_right (by decide) hpos
    rw [← magnitude_sub (2 ^ 52) 2 (-51), hexponent, magnitude_lt_magnitude_iff,
      Nat.one_shiftLeft]
    omega
  obtain ⟨m, e, hm, hround, hle⟩ :=
    @le_roundWithAccuracy _ _ _ (.positive * .positive) .exact _ _ htwo (by omega) hlow
  rw [hround] at hrange ⊢
  exact atLeastTwo_of_le_magnitude hm hle hrange

theorem atLeastTwo_powerOfTen {n : Nat} (hpos : 0 < n) (hmax : n ≤ 308) :
    atLeastTwo (powerOfTen n).toModel.unpack = true := by
  obtain hsmall | hlarge := Nat.lt_or_ge n 23
  · -- these powers are looked up
    have hlisted : ∀ k < 23, 0 < k → atLeastTwo (powerOfTen k).toModel.unpack = true := by
      decide +kernel
    exact hlisted n hsmall hpos
  · have hrounded : atLeastTwo (UnpackedFloat.ofScientific binary64 1 n) = true := by
      obtain hless | rfl := Nat.lt_or_eq_of_le hmax
      · exact atLeastTwo_rounded hpos (Nat.le_of_lt_succ hless)
      · decide +kernel
    have hpower : powerOfTen n =
        .ofModel (Float.Model.pack (UnpackedFloat.ofScientific binary64 1 n)) :=
      dif_neg fun hcond => by omega
    rw [hpower]
    change atLeastTwo (unpack binary64 (pack binary64 _)) = true
    rwa [unpack_pack_of_atLeastTwo hrounded]

theorem isFinite_powerOfTen {n : Nat} (hmax : n ≤ 308) : (powerOfTen n).isFinite = true := by
  obtain rfl | hpos := Nat.eq_zero_or_pos n
  · rfl
  · exact isFinite_of_atLeastTwo (atLeastTwo_powerOfTen hpos hmax)

/-! ## Scaling -/

theorem isFinite_scaleDown {x : Float} (hx : x.isFinite = true) (fuel : Nat) (exponent : Int) :
    (scaleDown fuel x exponent).1.isFinite = true := by
  induction fuel generalizing x exponent with
  | zero => exact hx
  | succ fuel ih =>
    unfold scaleDown
    split
    · exact ih (isFinite_div hx (atLeastTwo_powerOfTen (by decide) le_rfl)) _
    · exact hx

theorem isFinite_scale {significand : Nat} {exponent : Int} {x : Float}
    (hsignificand : significand ≤ unsignedMax) (h : scale significand exponent = .ok x) :
    x.isFinite = true := by
  have hdown := isFinite_scaleDown (isFinite_ofNat hsignificand) (exponent.natAbs / 308) exponent
  unfold scale at h
  dsimp only at h
  set p := scaleDown (exponent.natAbs / 308) (Float.ofNat significand) exponent with hp
  split at h
  next hreached =>
    split at h
    next hup =>
      split at h
      next => cases h
      next hinf =>
        cases h
        exact isFinite_mul_of_not_isInf hdown (isFinite_powerOfTen (by omega))
          (Bool.of_not_eq_true hinf)
    next hup =>
      cases h
      exact isFinite_div hdown (atLeastTwo_powerOfTen (by omega) hreached)
  next =>
    split at h
    · cases h
      exact hdown
    · cases h

theorem Exponent.isFinite_scale (e : Exponent) {significand : Nat} {exponent : Int} {x : Float}
    (hsignificand : significand ≤ unsignedMax) (h : e.scale significand exponent = .ok x) :
    x.isFinite = true := by
  unfold Exponent.scale at h
  dsimp only at h
  split at h
  · split at h
    · cases h
    · cases h
      rfl
  · exact Json.isFinite_scale hsignificand h

theorem isFinite_scaleBy (e : Option Exponent) {significand : Nat} {exponent : Int} {x : Float}
    (hsignificand : significand ≤ unsignedMax) (h : scaleBy e significand exponent = .ok x) :
    x.isFinite = true := by
  cases e with
  | none => exact isFinite_scale hsignificand h
  | some e => exact e.isFinite_scale hsignificand h

theorem gather_le {significand : Nat} (h : significand ≤ unsignedMax) (digits : List UInt8) :
    (gather significand digits).1 ≤ unsignedMax := by
  induction digits generalizing significand with
  | nil => exact h
  | cons d digits ih =>
    unfold gather
    dsimp only
    split
    · exact h
    next hmore => exact ih (Nat.le_of_not_lt hmore)

theorem Numeral.significand_le (n : Numeral) : n.significand.1 ≤ unsignedMax := by
  have hwhole := gather_le (Nat.zero_le unsignedMax) n.whole.octets
  unfold Numeral.significand
  dsimp only
  split
  · exact hwhole
  · exact gather_le hwhole _

theorem isFinite_ofInt {n : Int} (h : n.natAbs ≤ unsignedMax) :
    (Float.ofInt n).isFinite = true := by
  cases n with
  | ofNat n => exact isFinite_ofNat h
  | negSucc n => exact isFinite_neg (isFinite_ofNat h)

theorem isFinite_wholeNumber (negative : Bool) {n : Nat} (h : n ≤ unsignedMax) :
    (wholeNumber negative n).toFloat.isFinite = true := by
  unfold wholeNumber
  split
  · split
    · exact isFinite_ofInt (by rw [Int.natAbs_neg]; exact h)
    · exact isFinite_neg (isFinite_ofNat h)
  · exact isFinite_ofInt h

theorem Numeral.isFinite_number {n : Numeral} {x : Number} (h : n.number = .ok x) :
    x.toFloat.isFinite = true := by
  unfold Numeral.number at h
  split at h
  · cases h
    exact isFinite_wholeNumber n.negative n.significand_le
  · obtain ⟨y, hy, rfl⟩ := map_eq_ok_iff.1 h
    have hfinite := isFinite_scaleBy n.exponent n.significand_le hy
    change (if n.negative = true then -y else y).isFinite = true
    split
    · exact isFinite_neg hfinite
    · exact hfinite

theorem SpellsAmount.isFinite {x : Float} {s : List UInt8} (h : SpellsAmount x s) :
    x.isFinite = true := by
  obtain ⟨n, -, hx⟩ := h
  obtain ⟨y, hy, rfl⟩ := map_eq_ok_iff.1 hx
  exact Numeral.isFinite_number hy

end PoolWatch.Json
