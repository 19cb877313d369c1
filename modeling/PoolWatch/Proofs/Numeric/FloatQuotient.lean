import PoolWatch.Proofs.Numeric.FloatValue
/-!
# Mantissas of quotients

Of a quotient enough places are computed: only those after the last one that is kept are cut off.  A
whole number of at most 53 places is a float, and one times a number is the number.
-/

namespace PoolWatch

open Float.Model (UnpackedFloat totalExponent)
open Float.Model.Format (binary64 mantissaBits minExponent targetExponent)
open Float.Model.UnpackedFloat
open PoolWatch.Numeric

/-! ## The division of mantissas -/

section

variable {f : Float.Model.Format} {m₁ m₂ : Nat} {e₁ e₂ : Int}

def quotientExponent (f : Float.Model.Format) (m₁ : Nat) (e₁ : Int) (m₂ : Nat) (e₂ : Int) : Int :=
  min (e₁ - e₂) (f.targetExponent (totalExponent m₁ e₁ - totalExponent m₂ e₂))

/-- The mantissa of a quotient, with the places after it cut off. -/
def quotientMantissa (f : Float.Model.Format) (m₁ : Nat) (e₁ : Int) (m₂ : Nat) (e₂ : Int) : Nat :=
  m₁ * 2 ^ (e₁ - e₂ - quotientExponent f m₁ e₁ m₂ e₂).toNat / m₂

theorem divCore_eq (f : Float.Model.Format) (m₁ : Nat) (e₁ : Int) (m₂ : Nat) (e₂ : Int) :
    divCore f m₁ e₁ m₂ e₂ =
      (quotientMantissa f m₁ e₁ m₂ e₂, quotientExponent f m₁ e₁ m₂ e₂,
        accuracyOfFraction (m₁ * 2 ^ (e₁ - e₂ - quotientExponent f m₁ e₁ m₂ e₂).toNat % m₂)
          m₂) := by
  unfold divCore
  dsimp only
  rw [Nat.shiftLeft_eq]
  rfl

theorem two_pow_le_div {a k m n : Nat} (hm : 0 < m) (hn : 0 < n)
    (h : a + (n.log2 + 1) ≤ m.log2 + k) : 2 ^ a ≤ m * 2 ^ k / n := by
  rw [Nat.le_div_iff_mul_le hn]
  calc 2 ^ a * n
      ≤ 2 ^ a * 2 ^ (n.log2 + 1) := Nat.mul_le_mul_left _ Nat.lt_log2_self.le
    _ = 2 ^ (a + (n.log2 + 1)) := (Nat.pow_add _ _ _).symm
    _ ≤ 2 ^ (m.log2 + k) := Nat.pow_le_pow_right two_pos h
    _ = 2 ^ m.log2 * 2 ^ k := Nat.pow_add _ _ _
    _ ≤ m * 2 ^ k := Nat.mul_le_mul_right _ (Nat.log2_self_le hm.ne')

theorem quotientExponent_le_target (hm₁ : 0 < m₁) (hm₂ : 0 < m₂) :
    quotientExponent f m₁ e₁ m₂ e₂ ≤ f.targetExponent
      (totalExponent (quotientMantissa f m₁ e₁ m₂ e₂) (quotientExponent f m₁ e₁ m₂ e₂)) := by
  have hle : quotientExponent f m₁ e₁ m₂ e₂ ≤ e₁ - e₂ := Int.min_le_left _ _
  have htarget : quotientExponent f m₁ e₁ m₂ e₂ ≤
    f.targetExponent (totalExponent m₁ e₁ - totalExponent m₂ e₂) := Int.min_le_right _ _
  unfold quotientMantissa
  set t := quotientExponent f m₁ e₁ m₂ e₂
  obtain hleast | hmore := le_or_gt t f.minExponent
  · exact hleast.trans (Int.le_max_right _ _)
  · -- above the least exponent the mantissa of the quotient is full
    have hbits : f.mantissaBits = f.mantissaBitsWithoutImplicit + 1 := Nat.add_comm _ _
    have hlogs : f.mantissaBitsWithoutImplicit + (m₂.log2 + 1) ≤
        m₁.log2 + (e₁ - e₂ - t).toNat := by
      unfold targetExponent totalExponent at htarget
      omega
    have hfull := two_pow_le_div hm₁ hm₂ hlogs
    have hlog := (Nat.le_log2 ((Nat.two_pow_pos _).trans_le hfull).ne').2 hfull
    refine le_trans ?_ (Int.le_max_left _ _)
    unfold totalExponent
    omega

theorem accuracyOfFraction_of_dvd {m n : Nat} (h : n ∣ m) : accuracyOfFraction (m % n) n = .exact :=
  if_pos (Nat.mod_eq_zero_of_dvd h)

theorem isCut_quotient (hm₂ : 0 < m₂) :
    IsCut (quotientMantissa f m₁ e₁ m₂ e₂) (quotientExponent f m₁ e₁ m₂ e₂)
      (accuracyOfFraction (m₁ * 2 ^ (e₁ - e₂ - quotientExponent f m₁ e₁ m₂ e₂).toNat % m₂) m₂)
      (magnitude m₁ e₁ / magnitude m₂ e₂) := by
  have hle : quotientExponent f m₁ e₁ m₂ e₂ ≤ e₁ - e₂ := Int.min_le_left _ _
  have hdivisor : 0 < magnitude m₂ e₂ := magnitude_pos_iff.2 hm₂
  unfold quotientMantissa
  set t := quotientExponent f m₁ e₁ m₂ e₂
  have hexponent : e₁ - (e₁ - e₂ - t).toNat = t + e₂ := by omega
  have hdividend : magnitude m₁ e₁ = magnitude (m₁ * 2 ^ (e₁ - e₂ - t).toNat) (t + e₂) := by
    rw [← hexponent, magnitude_sub]
  rw [hdividend]
  set n := m₁ * 2 ^ (e₁ - e₂ - t).toNat
  refine ⟨?_, ?_, fun hexact => accuracyOfFraction_of_dvd ⟨n / m₂, ?_⟩⟩
  · rw [le_div_iff₀ hdivisor, magnitude_mul]
    exact magnitude_le_magnitude _ (Nat.div_mul_le_self n m₂)
  · rw [div_lt_iff₀ hdivisor, magnitude_mul, magnitude_lt_magnitude_iff]
    exact (Nat.div_lt_iff_lt_mul hm₂).1 (Nat.lt_succ_self _)
  · rw [eq_div_iff hdivisor.ne', magnitude_mul] at hexact
    rw [Nat.mul_comm]
    exact (magnitude_inj _ hexact).symm

theorem div_finite {s₁ s₂ : Sign} {hm₁ : 0 < m₁} {hm₂ : 0 < m₂} :
    div f (.finite s₁ m₁ e₁ hm₁) (.finite s₂ m₂ e₂ hm₂) =
      roundWithAccuracy f (s₁ / s₂) (quotientMantissa f m₁ e₁ m₂ e₂)
        (quotientExponent f m₁ e₁ m₂ e₂)
        (accuracyOfFraction (m₁ * 2 ^ (e₁ - e₂ - quotientExponent f m₁ e₁ m₂ e₂).toNat % m₂)
          m₂) := by
  show (match divCore f m₁ e₁ m₂ e₂ with
    | (m, e, accuracy) => roundWithAccuracy f (s₁ / s₂) m e accuracy) = _
  rw [divCore_eq]

end

/-! ## Numbers that are floats -/

/-- A float that is a positive number, with its mantissa and its exponent. -/
def IsPositive (x : Float) (m : Nat) (e : Int) : Prop :=
  ∃ h : IsCanonical binary64 m e, x.toModel.unpack = .finite .positive m e h.pos

theorem isPositive_of_unpacked {x : Float} {m : Nat} {e : Int} (h : IsCanonical binary64 m e)
    (hmax : e ≤ maxExponent binary64)
    (hx : x = .ofModel (Float.Model.pack (.finite .positive m e h.pos))) : IsPositive x m e := by
  subst hx
  exact ⟨h, unpack_pack_of_isCanonical h.pos h hmax⟩

theorem IsPositive.le_maxExponent {x : Float} {m : Nat} {e : Int} (h : IsPositive x m e) :
    e ≤ maxExponent binary64 := by
  obtain ⟨_, hunpack⟩ := h
  exact (isCanonical_of_unpack (by decide) hunpack).2

theorem IsPositive.isOfFormat {x : Float} {m : Nat} {e : Int} (h : IsPositive x m e) :
    IsOfFormat binary64 x.toModel.unpack := by
  have hmax := h.le_maxExponent
  obtain ⟨hcanonical, hx⟩ := h
  rw [hx]
  exact ⟨hcanonical, hmax⟩

theorem IsPositive.value_eq {x : Float} {m : Nat} {e : Int} (h : IsPositive x m e) :
    value x.toModel.unpack = magnitude m e := by
  obtain ⟨_, hx⟩ := h
  rw [hx]
  rfl

theorem isPositive_one : IsPositive 1 (2 ^ 52) (-52) :=
  ⟨⟨by decide, by decide, by decide, .inl (by decide)⟩, rfl⟩

theorem IsPositive.mul_one {x : Float} {m : Nat} {e : Int} (h : IsPositive x m e) :
    IsPositive (x * 1) m e := by
  have hmax := h.le_maxExponent
  obtain ⟨hcanonical, hx⟩ := h
  apply isPositive_of_unpacked hcanonical hmax
  show Float.ofModel (Float.Model.pack (mul binary64 x.toModel.unpack _)) = _
  rw [hx, isPositive_one.2]
  exact congrArg (Float.ofModel ∘ Float.Model.pack) (roundWithAccuracy_exact hcanonical 52)

theorem IsPositive.one_mul {x : Float} {m : Nat} {e : Int} (h : IsPositive x m e) :
    IsPositive (1 * x) m e := by
  have hmax := h.le_maxExponent
  obtain ⟨hcanonical, hx⟩ := h
  have hround := roundWithAccuracy_exact (s := .positive) hcanonical 52
  rw [Nat.mul_comm, sub_eq_neg_add] at hround
  apply isPositive_of_unpacked hcanonical hmax
  show Float.ofModel (Float.Model.pack (mul binary64 _ x.toModel.unpack)) = _
  rw [hx, isPositive_one.2]
  exact congrArg (Float.ofModel ∘ Float.Model.pack) hround

theorem isCanonical_filled {n : Nat} (hpos : 0 < n) (hlt : n < 2 ^ 53) :
    IsCanonical binary64 (n * 2 ^ (52 - n.log2)) (-(52 - n.log2 : Nat)) := by
  have hlog : n.log2 < 53 := (Nat.log2_lt hpos.ne').2 hlt
  have hfilled : (n * 2 ^ (52 - n.log2)).log2 = 52 := by
    rw [log2_mul_two_pow hpos.ne']
    omega
  have hmantissa : 0 < n * 2 ^ (52 - n.log2) := Nat.mul_pos hpos (Nat.two_pow_pos _)
  obtain ⟨hfull, hshort⟩ := (Nat.log2_eq_iff hmantissa.ne').1 hfilled
  have hleast : binary64.minExponent = -1074 := by decide
  exact ⟨hmantissa, hshort, by omega, .inl hfull⟩

theorem magnitude_filled (n : Nat) :
    magnitude (n * 2 ^ (52 - n.log2)) (-(52 - n.log2 : Nat)) = n := by
  have hfilled := magnitude_sub n (52 - n.log2) 0
  rw [zero_sub] at hfilled
  rw [hfilled, magnitude, zpow_zero, mul_one]

theorem unpacked_ofNat {n : Nat} (hpos : 0 < n) (hlt : n < 2 ^ 53) :
    UnpackedFloat.ofNat binary64 n =
      .finite .positive (n * 2 ^ (52 - n.log2)) (-(52 - n.log2 : Nat))
        (isCanonical_filled hpos hlt).pos := by
  have hlog : n.log2 < 53 := (Nat.log2_lt hpos.ne').2 hlt
  have htarget : binary64.targetExponent (totalExponent n 0) = -(52 - n.log2 : Nat) := by
    have hbits : (binary64.mantissaBits : Int) = 53 := by decide
    have hleast : binary64.minExponent = -1074 := by decide
    unfold targetExponent totalExponent
    omega
  have hsign : compare (n : Int) 0 = .gt := by rwa [Int.compare_eq_gt, Int.natCast_pos]
  have hdecreased : decreaseExponent n 0 (-(52 - n.log2 : Nat)) =
      (n * 2 ^ (52 - n.log2), -((52 - n.log2 : Nat) : Int)) := by
    have hamount : (0 - -((52 - n.log2 : Nat) : Int)).toNat = 52 - n.log2 := by omega
    unfold decreaseExponent
    rw [hamount]
    exact Prod.ext (Nat.shiftLeft_eq _ _) (zero_sub _)
  unfold UnpackedFloat.ofNat UnpackedFloat.ofInt UnpackedFloat.normalize
  rw [hsign]
  dsimp only
  unfold UnpackedFloat.round
  rw [Int.toNat_natCast, htarget]
  dsimp only
  rw [hdecreased]
  have hround := roundWithAccuracy_exact (s := .positive) (isCanonical_filled hpos hlt) 0
  rw [Nat.pow_zero, Nat.mul_one, Nat.cast_zero, sub_zero] at hround
  exact hround

theorem isPositive_ofNat {n : Nat} (hpos : 0 < n) (hlt : n < 2 ^ 53) :
    IsPositive (.ofNat n) (n * 2 ^ (52 - n.log2)) (-(52 - n.log2 : Nat)) := by
  have hcanonical := isCanonical_filled hpos hlt
  have hconverted : n.toUInt64.toFloat =
      .ofModel (Float.Model.pack (.finite .positive (n * 2 ^ (52 - n.log2))
        (-(52 - n.log2 : Nat)) hcanonical.pos)) := by
    have hword : n.toUInt64.toNat = n := UInt64.toNat_ofNat_of_lt (hlt.trans (by decide))
    show Float.ofModel (Float.Model.pack (UnpackedFloat.ofNat binary64 n.toUInt64.toNat)) = _
    rw [hword, unpacked_ofNat hpos hlt]
  have hmax : -((52 - n.log2 : Nat) : Int) ≤ maxExponent binary64 := by
    have hgreatest : maxExponent binary64 = 971 := by decide
    omega
  have hscaled : Float.ofNat n = n.toUInt64.toFloat * 1 := dif_pos ⟨hlt, by decide⟩
  rw [hscaled, hconverted]
  exact (isPositive_of_unpacked hcanonical hmax rfl).mul_one

theorem isOfFormat_ofNat {n : Nat} (hlt : n < 2 ^ 53) :
    IsOfFormat binary64 (Float.ofNat n).toModel.unpack := by
  obtain rfl | hpos := Nat.eq_zero_or_pos n
  · trivial
  · exact (isPositive_ofNat hpos hlt).isOfFormat

theorem value_ofNat {n : Nat} (hlt : n < 2 ^ 53) : value (Float.ofNat n).toModel.unpack = n := by
  obtain rfl | hpos := Nat.eq_zero_or_pos n
  · rfl
  · exact (isPositive_ofNat hpos hlt).value_eq.trans (magnitude_filled n)

/-! ## Parts of one -/

theorem exists_isPositive_of_part {x : Float} (hpos : 0 < x) (hle : x ≤ 1) :
    ∃ m e, IsPositive x m e ∧ magnitude m e ≤ 1 := by
  have hzero : place (.zero .positive) < place x.toModel.unpack := (float_lt_iff.1 hpos).2.2
  have hone : place x.toModel.unpack ≤ place (.finite .positive (2 ^ 52) (-52) (by decide)) :=
    (float_le_iff.1 hle).2.2
  cases hx : x.toModel.unpack with
  | notANumber => exact absurd (hx ▸ hzero) (lt_irrefl _)
  | zero s => exact absurd (hx ▸ hzero) (lt_irrefl _)
  | infinity s =>
    rw [hx] at hzero hone
    cases s with
    | negative => exact absurd hzero (by decide)
    | positive => exact absurd hone (by decide)
  | finite s m e hm =>
    obtain ⟨hcanonical, hmax⟩ := isCanonical_of_unpack (by decide) hx
    rw [hx] at hzero hone
    cases s with
    | negative => exact absurd hzero place_negative_lt.not_gt
    | positive =>
      have hpart : IsOfFormat binary64 (.finite .positive m e hm) := ⟨hcanonical, hmax⟩
      have hunit : IsOfFormat binary64 (.finite .positive (2 ^ 52) (-52) (by decide)) :=
        ⟨isPositive_one.1, isPositive_one.le_maxExponent⟩
      refine ⟨m, e, ⟨hcanonical, hx⟩, ?_⟩
      calc magnitude m e
          ≤ magnitude (2 ^ 52) (-52) := (place_le_place_iff hpart hunit).1 hone
        _ = 1 := by norm_num [magnitude]

theorem one_mul_isPart {x : Float} (hpos : 0 < x) (hle : x ≤ 1) : 0 < 1 * x ∧ 1 * x ≤ 1 := by
  obtain ⟨m, e, hx, -⟩ := exists_isPositive_of_part hpos hle
  have hsame : (1 * x).toModel.unpack = x.toModel.unpack := hx.one_mul.2.trans hx.2.symm
  rw [float_lt_iff] at hpos ⊢
  rw [float_le_iff] at hle ⊢
  rw [hsame]
  have hnumber : (1 * x).isNaN = x.isNaN := congrArg UnpackedFloat.isNaN hsame
  rw [hnumber]
  exact ⟨hpos, hle⟩

end PoolWatch
