import PoolWatch.Proofs.Numeric.FloatSame
/-!
# Quotients of floats

The quotient of two floats is a rounding of the exact one.  A rounding of a number that is a float
is this float, so an operation whose exact result is a float returns it; and a rounding of a number
that is at most, or at least, a whole one is not brought beyond this one.
-/

namespace PoolWatch

open Float.Model (UnpackedFloat)
open Float.Model.Format (binary32 binary64)
open Float.Model.UnpackedFloat
open PoolWatch.Numeric

section

variable {f : Float.Model.Format} {u v : UnpackedFloat}

/-! ## Quotients -/

theorem isRounding_div_finite {s₁ s₂ : Sign} {m₁ m₂ : Nat} {e₁ e₂ : Int} {hm₁ : 0 < m₁}
    {hm₂ : 0 < m₂} :
    IsRounding f (value (.finite s₁ m₁ e₁ hm₁) / value (.finite s₂ m₂ e₂ hm₂))
      (unpack f (pack f (div f (.finite s₁ m₁ e₁ hm₁) (.finite s₂ m₂ e₂ hm₂)))) := by
  have hquotient : value (.finite s₁ m₁ e₁ hm₁) / value (.finite s₂ m₂ e₂ hm₂) =
      signed (s₁ / s₂) (magnitude m₁ e₁ / magnitude m₂ e₂) := by
    cases s₁ <;> cases s₂
    · exact neg_div_neg_eq _ _
    · exact neg_div _ _
    · exact div_neg _
    · rfl
  have hpos : 0 < magnitude m₁ e₁ / magnitude m₂ e₂ :=
    div_pos (magnitude_pos_iff.2 hm₁) (magnitude_pos_iff.2 hm₂)
  rw [hquotient, div_finite]
  exact isRounding_signed hpos (isCut_quotient hm₂) (quotientExponent_le_target hm₁ hm₂) _

theorem isRounding_div (hu : IsOfFormat f u) (hv : IsOfFormat f v) (hne : value v ≠ 0) :
    IsRounding f (value u / value v) (unpack f (pack f (div f u v))) := by
  cases v with
  | infinity t => cases hv
  | notANumber => cases hv
  | zero t => exact absurd rfl hne
  | finite t n k hn =>
    cases u with
    | infinity s => cases hu
    | notANumber => cases hu
    | zero s =>
      show IsRounding f (0 / _) (unpack f (pack f (.zero (s / t))))
      rw [zero_div, unpack_pack_zero]
      exact IsOfFormat.isRounding (u := .zero (s / t)) trivial
    | finite s m e hm => exact isRounding_div_finite

/-! ## Exact results -/

theorem IsRounding.eq_value (h : IsRounding f (value v) u) (hv : IsOfFormat f v) :
    IsOfFormat f u ∧ value u = value v := by
  have hplace : place u = place v := le_antisymm (h.place_le v hv le_rfl) (h.le_place v hv le_rfl)
  obtain rfl | ⟨s, t, rfl, rfl⟩ := alike_of_place_eq h.isNaN hv.isNaN hplace
  · exact ⟨hv, rfl⟩
  · exact ⟨trivial, rfl⟩

theorem exists_value_eq_intCast {n : Int} (hlt : n.natAbs < 2 ^ 53) :
    ∃ v, IsOfFormat binary64 v ∧ value v = n := by
  have hu := isOfFormat_ofNat hlt
  have hvalue := value_ofNat hlt
  obtain hn | hn := Int.natAbs_eq n
  · exact ⟨_, hu, by rw [hvalue, hn, Int.natAbs_natCast, Int.cast_natCast]⟩
  · refine ⟨_, hu.neg, ?_⟩
    rw [value_neg, hvalue, hn, Int.natAbs_neg, Int.natAbs_natCast, Int.cast_neg, Int.cast_natCast]

/-! ## Whole numbers from roundings -/

theorem IsOfFormat.place_lt_infinity (hv : IsOfFormat f v) :
    place v < place (.infinity .positive) := by
  refine lt_of_le_of_ne (place_le_infinity v) fun heq => ?_
  obtain rfl | ⟨s, t, -, ht⟩ := alike_of_place_eq hv.isNaN rfl heq
  · cases hv
  · cases ht

theorem IsOfFormat.infinity_lt_place (hv : IsOfFormat f v) :
    place (.infinity .negative) < place v := by
  have hneg := hv.neg.place_lt_infinity
  rw [place_neg] at hneg
  exact neg_lt_of_neg_lt hneg

theorem eq_of_not_isFinite (hu : ¬u.isFinite = true) (hv : IsOfFormat f v)
    (hle : u.isNaN = false → place u ≤ place v) : u = .notANumber ∨ u = .infinity .negative := by
  cases u with
  | zero s => exact absurd rfl hu
  | finite s m e hm => exact absurd rfl hu
  | notANumber => exact .inl rfl
  | infinity s =>
    cases s with
    | negative => exact .inr rfl
    | positive => exact absurd (hle rfl) (not_le_of_gt hv.place_lt_infinity)

section

variable {w : Rat} {n : Nat}

theorem IsRounding.toUnsigned_up_le (h : IsRounding f w u) (hu : u.isFinite = true → IsOfFormat f u)
    (hv : IsOfFormat f v) (hn : value v = n) (hw : w ≤ n) : (partsOf f u).toUnsigned .up ≤ n := by
  have hle := h.place_le v hv (hn ▸ hw)
  by_cases hfinite : u.isFinite = true
  · have hvalue : value u ≤ n := hn ▸ (place_le_place_iff (hu hfinite) hv).1 hle
    rw [toUnsigned_eq (hu hfinite)]
    exact (min_le_left _ _).trans (Int.toNat_le.2 (Int.ceil_le.2 hvalue))
  · obtain rfl | rfl := eq_of_not_isFinite hfinite hv fun _ => hle
    · exact Nat.zero_le n
    · exact Nat.zero_le n

theorem IsRounding.le_toUnsigned_up (h : IsRounding f w u) (hu : u.isFinite = true → IsOfFormat f u)
    (hv : IsOfFormat f v) (hn : value v = n) (hmax : n ≤ unsignedMax) (hw : n ≤ w) :
    n ≤ (partsOf f u).toUnsigned .up := by
  have hle := h.le_place v hv (hn ▸ hw)
  by_cases hfinite : u.isFinite = true
  · have hvalue : n ≤ value u := hn ▸ (place_le_place_iff hv (hu hfinite)).1 hle
    have hceil : (n : Int) ≤ ⌈value u⌉ := by exact_mod_cast hvalue.trans (Int.le_ceil _)
    rw [toUnsigned_eq (hu hfinite)]
    exact le_min ((Int.le_toNat (n.cast_nonneg.trans hceil)).2 hceil) hmax
  · cases u with
    | zero s => exact absurd rfl hfinite
    | finite s m e hm => exact absurd rfl hfinite
    | notANumber => cases h.isNaN
    | infinity s =>
      cases s with
      | negative => exact absurd hle (not_le_of_gt hv.infinity_lt_place)
      | positive => exact hmax

end

theorem toUnsigned_up_div_le (hbias : 0 < f.exponentBias) (hu : u.isFinite = true → IsOfFormat f u)
    (hv : IsOfFormat f v) (hpos : 0 < value v) (hle : u.isNaN = false → place u ≤ place v)
    {one : UnpackedFloat} (hone : IsOfFormat f one) (hvalue : value one = 1) :
    (partsOf f (unpack f (pack f (div f u v)))).toUnsigned .up ≤ 1 := by
  by_cases hfinite : u.isFinite = true
  · have hpart : value u / value v ≤ (1 : Nat) := by
      rw [Nat.cast_one, div_le_one hpos]
      exact (place_le_place_iff (hu hfinite) hv).1 (hle (hu hfinite).isNaN)
    exact (isRounding_div (hu hfinite) hv hpos.ne').toUnsigned_up_le (isOfFormat_unpack hbias)
      hone (hvalue.trans Nat.cast_one.symm) hpart
  · obtain ⟨k, t, hk, rfl, -⟩ := exists_positive hv hpos
    obtain rfl | rfl := eq_of_not_isFinite hfinite hv hle
    · show (partsOf f (unpack f (pack f .notANumber))).toUnsigned .up ≤ 1
      rw [unpack_pack_notANumber]
      exact Nat.zero_le 1
    · show (partsOf f (unpack f (pack f (.infinity .negative)))).toUnsigned .up ≤ 1
      rw [unpack_pack_infinity]
      exact Nat.zero_le 1

end

/-! ## Quotients by parts of one -/

/-- A whole number divided by any part of one, and brought up to a whole number, is not below
itself. -/
def QuotientKeeps (n : Nat) : Prop :=
  ∀ x : Float, 0 < x → x ≤ 1 → n ≤ (parts (.ofNat n / x)).toUnsigned .up

theorem quotientKeeps_of_lt {n : Nat} (hlt : n < 2 ^ 53) : QuotientKeeps n := by
  intro x hpos hle
  obtain ⟨m, e, hx, hpart⟩ := exists_isPositive_of_part hpos hle
  have hwhole := isOfFormat_ofNat hlt
  have hdivisor : 0 < value x.toModel.unpack := hx.value_eq ▸ magnitude_pos_iff.2 hx.1.pos
  have hround : IsRounding binary64 _ (Float.ofNat n / x).toModel.unpack :=
    isRounding_div hwhole hx.isOfFormat hdivisor.ne'
  rw [value_ofNat hlt] at hround
  rw [parts_eq]
  exact hround.le_toUnsigned_up (isOfFormat_unpack (by decide)) hwhole (value_ofNat hlt)
    (by unfold unsignedMax; omega) (le_div_self (Nat.cast_nonneg n) hdivisor (hx.value_eq ▸ hpart))

/-! ## Single precision -/

theorem parts32_eq (x : Float32) : parts32 x = partsOf binary32 x.toModel.unpack :=
  decode_toNat (f := binary32) x.toModel.toBits.toBitVec

theorem isOfFormat32_of_isFinite {x : Float32} (h : x.isFinite = true) :
    IsOfFormat binary32 x.toModel.unpack :=
  isOfFormat_unpack (by decide) h

/-- The number one. -/
def one32 : UnpackedFloat := .finite .positive (2 ^ 23) (-23) (by decide)

theorem isOfFormat_one32 : IsOfFormat binary32 one32 :=
  ⟨⟨by decide, by decide, by decide, .inl (by decide)⟩, by decide⟩

theorem value_one32 : value one32 = 1 := by
  show magnitude (2 ^ 23) (-23) = 1
  norm_num [magnitude]

theorem toUnsigned_up_div32_le_one {x y : Float32} (hx : ¬y < x) (hy : 0 < y)
    (hfinite : y.isFinite = true) : (parts32 (x / y)).toUnsigned .up ≤ 1 := by
  have hv := isOfFormat32_of_isFinite hfinite
  have hpos : 0 < value y.toModel.unpack :=
    value_lt_of_place_lt (u := .zero .positive) trivial hv (float32_lt_iff.1 hy).2.2
  have hle : x.toModel.unpack.isNaN = false →
      place x.toModel.unpack ≤ place y.toModel.unpack := fun hnumber =>
    le_of_not_gt fun hlt => hx (float32_lt_iff.2 ⟨hv.isNaN, hnumber, hlt⟩)
  rw [parts32_eq]
  exact toUnsigned_up_div_le (f := binary32) (by decide) (isOfFormat_unpack (by decide)) hv hpos
    hle isOfFormat_one32 value_one32

end PoolWatch
