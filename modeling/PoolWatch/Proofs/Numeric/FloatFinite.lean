import PoolWatch.Proofs.Numeric.FloatQuotient
/-!
# Finite floats

A rounding raises the exponent of a number by one place at most.  So a whole number of 64 bits is
finite as a float, and so is the quotient of a finite float by one that is at least two.
-/

namespace PoolWatch

open Float.Model (UnpackedFloat totalExponent)
open Float.Model.Format (binary64 mantissaBits minExponent targetExponent)
open Float.Model.UnpackedFloat
open PoolWatch.Numeric

variable {f : Float.Model.Format}

/-! ## Packing -/

/-- The float is zero, or its exponent is one of the format's. -/
def InRange (f : Float.Model.Format) : UnpackedFloat → Prop
  | .zero _ => True
  | .finite _ _ e _ => e ≤ maxExponent f
  | .infinity _ | .notANumber => False

theorem isFinite_iff_inRange {x : Float} :
    x.isFinite = true ↔ InRange binary64 x.toModel.unpack := by
  change x.toModel.unpack.isFinite = true ↔ _
  cases hx : x.toModel.unpack with
  | finite s m e hm =>
    exact iff_of_true rfl (isCanonical_of_unpack (by decide) hx).2
  | zero s => exact iff_of_true rfl trivial
  | infinity s => exact iff_of_false Bool.false_ne_true id
  | notANumber => exact iff_of_false Bool.false_ne_true id

theorem Unpacks.isFinite {s : Sign} {exponent mantissa : Nat} {u : UnpackedFloat}
    (h : Unpacks f s exponent mantissa u) (hlast : exponent ≠ 2 ^ f.exponentBits - 1) :
    u.isFinite = true := by
  cases h with
  | infinity hlast' => exact absurd hlast' hlast
  | notANumber hlast' => exact absurd hlast' hlast
  | _ => rfl

theorem isFinite_unpack_pack {u : UnpackedFloat} (h : InRange f u) :
    (unpack f (pack f u)).isFinite = true := by
  have hrange := two_pow_exponentBits f
  have hfield {s : Sign} {field : BitVec f.exponentBits}
      {mantissa : BitVec f.mantissaBitsWithoutImplicit}
      (hlt : field.toNat < 2 * f.exponentBias + 1) :
      (unpack f (packComponents f s field mantissa)).isFinite = true :=
    (unpacks_packComponents s field mantissa).isFinite (by omega)
  cases u with
  | infinity s => cases h
  | notANumber => cases h
  | zero s => exact hfield (by rw [BitVec.ofNat_eq_ofNat, BitVec.toNat_ofNat, Nat.zero_mod]; omega)
  | finite s m e hm =>
    have hmax : e ≤ f.exponentBias - f.mantissaBitsWithoutImplicit := h
    rw [pack_finite, if_neg (by omega)]
    split
    · apply hfield
      rw [BitVec.toNat_ofNat, Nat.mod_eq_of_lt (by omega)]
      omega
    · apply hfield
      rw [BitVec.toNat_ofNat, Nat.zero_mod]
      omega

theorem isFinite_of_not_isInf {u : UnpackedFloat} (hu : u.isFinite = true)
    (h : (unpack f (pack f u)).isInf = false) : (unpack f (pack f u)).isFinite = true := by
  cases u with
  | infinity s => cases hu
  | notANumber => cases hu
  | zero s => exact isFinite_unpack_pack trivial
  | finite s m e hm =>
    obtain hmax | hlarge := le_or_gt e (maxExponent f)
    · exact isFinite_unpack_pack hmax
    · rw [pack_of_maxExponent_lt hm hlarge, unpack_pack_infinity] at h
      cases h

/-! ## Rounding -/

theorem isFinite_roundWithAccuracy (s : Sign) (m : Nat) (e : Int) (accuracy : Accuracy) :
    (roundWithAccuracy f s m e accuracy).isFinite = true := by
  rw [roundWithAccuracy_eq s Prod.mk.eta.symm Prod.mk.eta.symm]
  generalize (shiftToTargetExponent f _ _ .exact).1 = second
  by_cases hzero : second.mantissa = 0
  · rw [dif_pos hzero]
    rfl
  · rw [dif_neg hzero]
    rfl

theorem mul_finite {s t : Sign} {m n : Nat} {e k : Int} {hm : 0 < m} {hn : 0 < n} :
    mul f (.finite s m e hm) (.finite t n k hn) =
      roundWithAccuracy f (s * t) (m * n) (e + k) .exact :=
  rfl

theorem isFinite_mul {u v : UnpackedFloat} (hu : u.isFinite = true) (hv : v.isFinite = true) :
    (mul f u v).isFinite = true := by
  cases u with
  | infinity s => cases hu
  | notANumber => cases hu
  | zero s =>
    cases v with
    | infinity t => cases hv
    | notANumber => cases hv
    | zero t => rfl
    | finite t n k hn => rfl
  | finite s m e hm =>
    cases v with
    | infinity t => cases hv
    | notANumber => cases hv
    | zero t => rfl
    | finite t n k hn => exact isFinite_roundWithAccuracy ..

theorem totalExponent_le_of_le {m a : Nat} (e : Int) (h : m ≤ 2 ^ a) :
    totalExponent m e ≤ a + 1 + e := by
  have hlog : m.log2 ≤ a := by
    obtain rfl | hm := Nat.eq_zero_or_pos m
    · exact Nat.zero_le a
    · exact (Nat.pow_le_pow_iff_right one_lt_two).1 ((Nat.log2_self_le hm.ne').trans h)
  unfold totalExponent
  omega

theorem inRange_roundWithAccuracy {s : Sign} {m : Nat} {e : Int} {accuracy : Accuracy}
    (he : e ≤ maxExponent f)
    (htarget : f.targetExponent (totalExponent m e) + 1 ≤ maxExponent f) :
    InRange f (roundWithAccuracy f s m e accuracy) := by
  set k := (f.targetExponent (totalExponent m e) - e).toNat with hk
  set em := ExtendedMantissa.ofMantissaAndAccuracy m accuracy >>> k with hem
  have hfirst : shiftToTargetExponent f m e accuracy = (em, e + k) :=
    shiftToTargetExponent_eq m e accuracy
  have hbounds := (roundedMantissa_bounds em).2
  rw [hem, mantissa_shiftRight, mantissa_ofMantissaAndAccuracy, ← hem] at hbounds
  have hlog : em.roundedMantissa ≤ 2 ^ (m.log2 + 1 - k) := by
    have hcut : m / 2 ^ k < 2 ^ (m.log2 + 1 - k) := by
      rw [Nat.div_lt_iff_lt_mul (Nat.two_pow_pos k), ← Nat.pow_add]
      exact Nat.lt_log2_self.trans_le (Nat.pow_le_pow_right two_pos (by omega))
    exact hbounds.trans hcut
  have htotal := totalExponent_le_of_le (e + k) hlog
  have hmin : f.minExponent ≤ f.targetExponent (totalExponent m e) := Int.le_max_right _ _
  rw [roundWithAccuracy_eq s hfirst (shiftToTargetExponent_eq _ _ .exact)]
  generalize ExtendedMantissa.ofMantissaAndAccuracy em.roundedMantissa .exact >>> (_ : Nat) = second
  by_cases hzero : second.mantissa = 0
  · rw [dif_pos hzero]
    trivial
  · rw [dif_neg hzero]
    change e + k + _ ≤ maxExponent f
    unfold targetExponent totalExponent at *
    omega

/-! ## Floats -/

theorem isFinite_ofModel_pack {u : UnpackedFloat} (h : InRange binary64 u) :
    (Float.ofModel (Float.Model.pack u)).isFinite = true :=
  isFinite_unpack_pack h

section

variable {x y : Float}

theorem isFinite_neg (h : x.isFinite = true) : (-x).isFinite = true := by
  rw [isFinite_iff_inRange] at h
  apply isFinite_ofModel_pack (u := x.toModel.unpack.neg)
  cases hx : x.toModel.unpack with
  | infinity s => rw [hx] at h; cases h
  | notANumber => rw [hx] at h; cases h
  | zero s => trivial
  | finite s m e hm => rw [hx] at h; exact h

theorem isFinite_mul_of_not_isInf (hx : x.isFinite = true) (hy : y.isFinite = true)
    (h : (x * y).isInf = false) : (x * y).isFinite = true :=
  isFinite_of_not_isInf (f := binary64) (isFinite_mul hx hy) h

/-- A finite number that is at least two, with a full mantissa. -/
def atLeastTwo : UnpackedFloat → Bool
  | .finite .positive m e _ => 2 ^ 52 ≤ m ∧ m < 2 ^ 53 ∧ -51 ≤ e ∧ e ≤ 971
  | _ => false

theorem exists_of_atLeastTwo {u : UnpackedFloat} (h : atLeastTwo u = true) :
    ∃ m e, ∃ hm : 0 < m, u = .finite .positive m e hm ∧ 2 ^ 52 ≤ m ∧ m < 2 ^ 53 ∧ -51 ≤ e ∧
      e ≤ 971 := by
  cases u with
  | infinity s => cases h
  | notANumber => cases h
  | zero s => cases h
  | finite s m e hm =>
    cases s with
    | negative => cases h
    | positive => exact ⟨m, e, hm, rfl, of_decide_eq_true h⟩

theorem unpack_pack_of_atLeastTwo {u : UnpackedFloat} (h : atLeastTwo u = true) :
    unpack binary64 (pack binary64 u) = u := by
  obtain ⟨m, e, hm, rfl, hfull, hlt, hlow, hhigh⟩ := exists_of_atLeastTwo h
  have hleast : binary64.minExponent = -1074 := by decide
  have hgreatest : maxExponent binary64 = 971 := by decide
  exact unpack_pack_of_isCanonical hm ⟨hm, hlt, by omega, .inl hfull⟩ (by omega)

theorem isFinite_of_atLeastTwo (h : atLeastTwo x.toModel.unpack = true) : x.isFinite = true := by
  obtain ⟨m, e, hm, hx, -⟩ := exists_of_atLeastTwo h
  change x.toModel.unpack.isFinite = true
  rw [hx]
  rfl

theorem totalExponent_quotient_le {m₁ m₂ : Nat} {e₁ e₂ : Int} (hm₂ : 0 < m₂)
    (h : 1 ≤ (m₂.log2 : Int) + e₂) :
    totalExponent (quotientMantissa f m₁ e₁ m₂ e₂) (quotientExponent f m₁ e₁ m₂ e₂) ≤
      max (totalExponent m₁ e₁ - 1) (quotientExponent f m₁ e₁ m₂ e₂ + 1) := by
  have hle : quotientExponent f m₁ e₁ m₂ e₂ ≤ e₁ - e₂ := Int.min_le_left _ _
  unfold quotientMantissa
  set t := quotientExponent f m₁ e₁ m₂ e₂
  set k := (e₁ - e₂ - t).toNat with hk
  set q := m₁ * 2 ^ k / m₂ with hq
  have hquotient : q < 2 ^ (m₁.log2 + k + 1 - m₂.log2) := by
    rw [hq, Nat.div_lt_iff_lt_mul hm₂]
    calc m₁ * 2 ^ k
        < 2 ^ (m₁.log2 + 1) * 2 ^ k := Nat.mul_lt_mul_of_pos_right Nat.lt_log2_self (by positivity)
      _ = 2 ^ (m₁.log2 + k + 1) := by rw [← Nat.pow_add, Nat.add_right_comm]
      _ ≤ 2 ^ (m₁.log2 + k + 1 - m₂.log2 + m₂.log2) := Nat.pow_le_pow_right two_pos (by omega)
      _ = 2 ^ (m₁.log2 + k + 1 - m₂.log2) * 2 ^ m₂.log2 := Nat.pow_add _ _ _
      _ ≤ 2 ^ (m₁.log2 + k + 1 - m₂.log2) * m₂ :=
        Nat.mul_le_mul_left _ (Nat.log2_self_le hm₂.ne')
  unfold totalExponent
  obtain hzero | hpos := Nat.eq_zero_or_pos q
  · rw [hzero, Nat.log2_zero]
    omega
  · have hlog := (Nat.log2_lt hpos.ne').2 hquotient
    omega

theorem isFinite_div (hx : x.isFinite = true) (hy : atLeastTwo y.toModel.unpack = true) :
    (x / y).isFinite = true := by
  have hbits : (binary64.mantissaBits : Int) = 53 := by decide
  have hleast : binary64.minExponent = -1074 := by decide
  have hgreatest : maxExponent binary64 = 971 := by decide
  apply isFinite_ofModel_pack (u := div binary64 x.toModel.unpack y.toModel.unpack)
  obtain ⟨m₂, e₂, hm₂, hv, hfull, -, hlow, -⟩ := exists_of_atLeastTwo hy
  have hlog₂ : 52 ≤ m₂.log2 := (Nat.le_log2 hm₂.ne').2 hfull
  have htwo : 1 ≤ (m₂.log2 : Int) + e₂ := by omega
  rw [hv]
  rw [isFinite_iff_inRange] at hx
  cases hu : x.toModel.unpack with
  | infinity s => rw [hu] at hx; cases hx
  | notANumber => rw [hu] at hx; cases hx
  | zero s => trivial
  | finite s₁ m₁ e₁ hm₁ =>
    obtain ⟨hcanonical, hmax⟩ := isCanonical_of_unpack (by decide) hu
    have htotal : totalExponent (quotientMantissa binary64 m₁ e₁ m₂ e₂)
        (quotientExponent binary64 m₁ e₁ m₂ e₂) ≤
          max (totalExponent m₁ e₁ - 1) (quotientExponent binary64 m₁ e₁ m₂ e₂ + 1) :=
      totalExponent_quotient_le hm₂ htwo
    have hlog : m₁.log2 < 53 := (Nat.log2_lt hm₁.ne').2 hcanonical.lt
    have hexponent : quotientExponent binary64 m₁ e₁ m₂ e₂ ≤
        binary64.targetExponent (totalExponent m₁ e₁ - totalExponent m₂ e₂) :=
      Int.min_le_right _ _
    rw [div_finite]
    unfold targetExponent at hexponent
    apply inRange_roundWithAccuracy
    · unfold totalExponent at hexponent
      omega
    · unfold targetExponent totalExponent at *
      omega

theorem isFinite_ofNat {n : Nat} (h : n ≤ unsignedMax) : (Float.ofNat n).isFinite = true := by
  obtain rfl | hpos := Nat.eq_zero_or_pos n
  · rfl
  obtain hsmall | hlarge := Nat.lt_or_ge n (2 ^ 53)
  · rw [isFinite_iff_inRange, (isPositive_ofNat hpos hsmall).2]
    exact (isPositive_ofNat hpos hsmall).le_maxExponent
  · have hscaled : Float.ofNat n =
        .ofModel (Float.Model.pack (UnpackedFloat.ofScientific binary64 n 0)) :=
      dif_neg fun hcond => absurd hcond.1 (Nat.not_lt.2 hlarge)
    rw [hscaled]
    apply isFinite_ofModel_pack
    have hrange : (2 : Int) ^ Float.Model.Format.binary64.exponentBits = 2048 := by decide
    unfold UnpackedFloat.ofScientific
    rw [dif_neg hpos.ne', if_neg (by omega), if_neg (by omega), if_pos le_rfl, mul_finite]
    have hlog : n.log2 < 64 := (Nat.log2_lt hpos.ne').2 (Nat.lt_succ_of_le h)
    have hbits : binary64.mantissaBits = 53 := by decide
    have hleast : binary64.minExponent = -1074 := by decide
    have hgreatest : maxExponent binary64 = 971 := by decide
    have hshifted : (n <<< 53 * 10 ^ (0 : Int).toNat).log2 = n.log2 + 53 := by
      rw [Int.toNat_zero, Nat.pow_zero, Nat.mul_one, Nat.shiftLeft_eq, log2_mul_two_pow hpos.ne']
    refine inRange_roundWithAccuracy ?_ ?_
    · omega
    · unfold targetExponent totalExponent
      rw [hbits, hshifted]
      omega

end

end PoolWatch
