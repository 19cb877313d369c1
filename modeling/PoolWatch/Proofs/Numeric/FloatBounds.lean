import PoolWatch.Proofs.Numeric.FloatDivision
/-!
# Bounds of computed floats

A rounding of a number stays between the floats that the number is between.  So sums, products,
quotients and whole numbers that are turned into floats are bounded like the exact ones, as long as
the bounds are floats themselves: powers of two, and whole numbers of at most 53 places.
-/

namespace PoolWatch

open Float.Model (UnpackedFloat totalExponent)
open Float.Model.Format (binary64 mantissaBits minExponent targetExponent)
open Float.Model.UnpackedFloat
open PoolWatch.Numeric

/-! ## Products -/

section

variable {f : Float.Model.Format} {u v : UnpackedFloat}

theorem product_exponent_le {m₁ m₂ : Nat} {e₁ e₂ : Int} (hm₁ : IsCanonical f m₁ e₁)
    (hm₂ : IsCanonical f m₂ e₂) (hmin : f.minExponent ≤ 0) :
    e₁ + e₂ ≤ f.targetExponent (totalExponent (m₁ * m₂) (e₁ + e₂)) := by
  have hbits : f.mantissaBits = f.mantissaBitsWithoutImplicit + 1 := Nat.add_comm _ _
  have hfull {m n : Nat} (hm : 2 ^ f.mantissaBitsWithoutImplicit ≤ m) (hn : 0 < n) :
      f.mantissaBitsWithoutImplicit ≤ (m * n).log2 := by
    have hle := hm.trans (Nat.le_mul_of_pos_right m hn)
    exact (Nat.le_log2 ((Nat.two_pow_pos _).trans_le hle).ne').2 hle
  unfold targetExponent totalExponent
  obtain hfirst | hleast := hm₁.full
  · have := hfull hfirst hm₂.pos
    omega
  · obtain hsecond | hleast' := hm₂.full
    · have := hfull hsecond hm₁.pos
      rw [Nat.mul_comm] at this
      omega
    · omega

theorem isRounding_mul (hu : IsOfFormat f u) (hv : IsOfFormat f v) (hmin : f.minExponent ≤ 0) :
    IsRounding f (value u * value v) (unpack f (pack f (mul f u v))) := by
  have hzero (s : Sign) : IsRounding f 0 (unpack f (pack f (.zero s))) := by
    rw [unpack_pack_zero]
    exact IsOfFormat.isRounding (u := .zero s) trivial
  cases u with
  | infinity s => cases hu
  | notANumber => cases hu
  | zero s =>
    have hproduct : value (.zero s) * value v = 0 := zero_mul _
    rw [hproduct]
    cases v with
    | infinity t => cases hv
    | notANumber => cases hv
    | zero t => exact hzero (s * t)
    | finite t n k hn => exact hzero (s * t)
  | finite s m e hm =>
    cases v with
    | infinity t => cases hv
    | notANumber => cases hv
    | zero t =>
      have hproduct : value (.finite s m e hm) * value (.zero t) = 0 := mul_zero _
      rw [hproduct]
      exact hzero (s * t)
    | finite t n k hn =>
      have hproduct : value (.finite s m e hm) * value (.finite t n k hn) =
          signed (s * t) (magnitude (m * n) (e + k)) := by
        rw [← magnitude_mul]
        cases s <;> cases t
        · exact neg_mul_neg _ _
        · exact neg_mul _ _
        · exact mul_neg _ _
        · rfl
      rw [hproduct, mul_finite]
      exact isRounding_signed (magnitude_pos_iff.2 (Nat.mul_pos hm hn)) (isCut_exact _ _)
        (product_exponent_le hu.1 hv.1 hmin) _

end

/-! ## Numbers of floats -/

def number (x : Float) : Rat := value x.toModel.unpack

/-- The number is one that a float stands for. -/
def IsFloat (w : Rat) : Prop := ∃ v, IsOfFormat binary64 v ∧ value v = w

theorem isFloat_natCast {n : Nat} (hlt : n < 2 ^ 53) : IsFloat n :=
  ⟨_, isOfFormat_ofNat hlt, value_ofNat hlt⟩

theorem isFloat_zero : IsFloat 0 := ⟨.zero .positive, trivial, rfl⟩

theorem isFloat_two_zpow {j : Int} (hlow : -1022 ≤ j) (hhigh : j ≤ 1023) : IsFloat (2 ^ j) := by
  have hleast : binary64.minExponent = -1074 := by decide
  have hgreatest : maxExponent binary64 = 971 := by decide
  have hcanonical : IsCanonical binary64 (2 ^ 52) (j - 52) :=
    ⟨by decide, by decide, by omega, .inl (by decide)⟩
  refine ⟨.finite .positive (2 ^ 52) (j - 52) hcanonical.pos, ⟨hcanonical, by omega⟩, ?_⟩
  have hexponent : j = 52 + (j - 52) := by omega
  show magnitude (2 ^ 52) (j - 52) = 2 ^ j
  rw [magnitude, hexponent, zpow_add₀ two_ne_zero, ← hexponent]
  norm_num

section

variable {x y : Float} {a b w : Rat}

theorem isFloat_number (hx : x.isFinite = true) : IsFloat (number x) :=
  ⟨_, isOfFormat_of_isFinite hx, rfl⟩

theorem number_le_number_iff (hx : x.isFinite = true) (hy : y.isFinite = true) :
    x ≤ y ↔ number x ≤ number y := by
  have hu := isOfFormat_of_isFinite hx
  have hv := isOfFormat_of_isFinite hy
  rw [float_le_iff, place_le_place_iff hu hv]
  exact ⟨fun h => h.2.2, fun h => ⟨hu.isNaN, hv.isNaN, h⟩⟩

theorem number_lt_number (hx : x.isFinite = true) (hy : y.isFinite = true) (h : x < y) :
    number x < number y :=
  value_lt_of_place_lt (isOfFormat_of_isFinite hx) (isOfFormat_of_isFinite hy)
    (float_lt_iff.1 h).2.2

/-- The float is finite, and its number is between two others. -/
structure Lies (a b : Rat) (x : Float) : Prop where
  isFinite : x.isFinite = true
  le : a ≤ number x
  ge : number x ≤ b

theorem Lies.isNaN (h : Lies a b x) : x.isNaN = false := (isOfFormat_of_isFinite h.isFinite).isNaN

theorem Lies.of_le_of_le {z : Float} (hx : x.isFinite = true) (hz : z.isFinite = true)
    (hxy : x ≤ y) (hyz : y ≤ z) : Lies (number x) (number z) y := by
  have hfinite : y.isFinite = true := by
    by_contra hinfinite
    obtain ⟨s, hy⟩ := exists_infinity_of_not_isFinite (float_le_iff.1 hxy).2.1 hinfinite
    have hlow := (float_le_iff.1 hxy).2.2
    have hhigh := (float_le_iff.1 hyz).2.2
    rw [hy] at hlow hhigh
    cases s with
    | negative => exact absurd hlow (not_le_of_gt (isOfFormat_of_isFinite hx).infinity_lt_place)
    | positive => exact absurd hhigh (not_le_of_gt (isOfFormat_of_isFinite hz).place_lt_infinity)
  exact ⟨hfinite, (number_le_number_iff hx hfinite).1 hxy, (number_le_number_iff hfinite hz).1 hyz⟩

/-- A rounding stays between the floats that the number is between. -/
theorem lies_of_isRounding (h : IsRounding binary64 w x.toModel.unpack) (ha : IsFloat a)
    (hb : IsFloat b) (hlow : a ≤ w) (hhigh : w ≤ b) : Lies a b x := by
  obtain ⟨u, hu, rfl⟩ := ha
  obtain ⟨v, hv, rfl⟩ := hb
  have hfirst := h.le_place u hu hlow
  have hlast := h.place_le v hv hhigh
  have hfinite : x.isFinite = true := by
    by_contra hinfinite
    obtain ⟨s, hx⟩ := exists_infinity_of_not_isFinite h.isNaN hinfinite
    rw [hx] at hfirst hlast
    cases s with
    | negative => exact absurd hfirst (not_le_of_gt hu.infinity_lt_place)
    | positive => exact absurd hlast (not_le_of_gt hv.place_lt_infinity)
  have hx := isOfFormat_of_isFinite hfinite
  exact ⟨hfinite, (place_le_place_iff hu hx).1 hfirst, (place_le_place_iff hx hv).1 hlast⟩

theorem lies_sub (hx : x.isFinite = true) (hy : y.isFinite = true) (ha : IsFloat a)
    (hb : IsFloat b) (hlow : a ≤ number x - number y) (hhigh : number x - number y ≤ b) :
    Lies a b (x - y) :=
  lies_of_isRounding (isRounding_sub (isOfFormat_of_isFinite hx) (isOfFormat_of_isFinite hy)) ha hb
    hlow hhigh

theorem lies_mul (hx : x.isFinite = true) (hy : y.isFinite = true) (ha : IsFloat a)
    (hb : IsFloat b) (hlow : a ≤ number x * number y) (hhigh : number x * number y ≤ b) :
    Lies a b (x * y) :=
  lies_of_isRounding
    (isRounding_mul (isOfFormat_of_isFinite hx) (isOfFormat_of_isFinite hy) (by decide)) ha hb
    hlow hhigh

theorem lies_div (hx : x.isFinite = true) (hy : y.isFinite = true) (hne : number y ≠ 0)
    (ha : IsFloat a) (hb : IsFloat b) (hlow : a ≤ number x / number y)
    (hhigh : number x / number y ≤ b) : Lies a b (x / y) :=
  lies_of_isRounding (isRounding_div (isOfFormat_of_isFinite hx) (isOfFormat_of_isFinite hy) hne)
    ha hb hlow hhigh

end

/-! ## Whole numbers -/

theorem number_ofNat {n : Nat} (hlt : n < 2 ^ 53) : number (.ofNat n) = n := value_ofNat hlt

theorem isRounding_ofNat {n : Nat} (h : n ≤ unsignedMax) :
    IsRounding binary64 n (Float.ofNat n).toModel.unpack := by
  obtain hsmall | hlarge := Nat.lt_or_ge n (2 ^ 53)
  · rw [← number_ofNat hsmall]
    exact (isOfFormat_ofNat hsmall).isRounding
  have hpos : 0 < n := (Nat.two_pow_pos 53).trans_le hlarge
  have hscaled : Float.ofNat n =
      .ofModel (Float.Model.pack (UnpackedFloat.ofScientific binary64 n 0)) :=
    dif_neg fun hcond => absurd hcond.1 (Nat.not_lt.2 hlarge)
  have hlog : n.log2 < 64 := (Nat.log2_lt hpos.ne').2 (Nat.lt_succ_of_le h)
  have hlog' : 53 ≤ n.log2 := (Nat.le_log2 hpos.ne').2 hlarge
  have hbits : binary64.mantissaBits = 53 := by decide
  have hrange : (2 : Int) ^ Float.Model.Format.binary64.exponentBits = 2048 := by decide
  have hshifted : n <<< binary64.mantissaBits * 10 ^ (0 : Int).toNat = n * 2 ^ 53 := by
    rw [hbits, Int.toNat_zero, Nat.pow_zero, Nat.mul_one, Nat.shiftLeft_eq]
  have hexact : magnitude (n * 2 ^ 53) (0 - (53 : Nat)) = n := by
    rw [magnitude_sub, magnitude, zpow_zero, mul_one]
  rw [hscaled]
  show IsRounding binary64 n (unpack binary64 (pack binary64 _))
  unfold UnpackedFloat.ofScientific
  rw [dif_neg hpos.ne', if_neg (by omega), if_neg (by omega), if_pos le_rfl, mul_finite, hshifted]
  refine isRounding_roundWithAccuracy (Nat.cast_pos.2 hpos) (hexact ▸ isCut_exact _ _) ?_
  unfold targetExponent totalExponent
  rw [log2_mul_two_pow hpos.ne', hbits]
  omega

theorem lies_ofNat {n : Nat} {a b : Rat} (h : n ≤ unsignedMax) (ha : IsFloat a) (hb : IsFloat b)
    (hlow : a ≤ n) (hhigh : n ≤ b) : Lies a b (.ofNat n) :=
  lies_of_isRounding (isRounding_ofNat h) ha hb hlow hhigh

/-! ## Casts -/

section

variable {x : Float}

theorem toSigned_eq {f : Float.Model.Format} {u : UnpackedFloat} (hu : IsOfFormat f u)
    (r : Rounding) :
    (partsOf f u).toSigned r = max signedMin (min (r.toWhole (value u)) signedMax) := by
  have hwhole := congrArg (fun n : Option Int => max signedMin (min (n.getD 0) signedMax))
    (whole?_eq hu r)
  cases u with
  | infinity s => cases hu
  | notANumber => cases hu
  | zero s => exact hwhole
  | finite s m e hm => exact hwhole

theorem toWhole_mono (r : Rounding) {v w : Rat} (h : v ≤ w) : r.toWhole v ≤ r.toWhole w := by
  cases r with
  | down => exact Int.floor_mono h
  | up => exact Int.ceil_mono h
  | nearest =>
    have hhalf {a b : Rat} (hab : a ≤ b) : ⌊1 / 2 + a⌋ ≤ ⌊1 / 2 + b⌋ :=
      Int.floor_mono (add_le_add_right hab _)
    have hnonneg {a : Rat} (ha : 0 ≤ a) : 0 ≤ ⌊1 / 2 + a⌋ :=
      Int.floor_nonneg.2 (add_nonneg (by norm_num) ha)
    unfold Rounding.toWhole
    dsimp only
    split
    next hv =>
      have hneg := hnonneg (neg_nonneg.2 hv.le)
      split
      · exact neg_le_neg (hhalf (neg_le_neg h))
      next hw => exact (neg_nonpos.2 hneg).trans (hnonneg (not_lt.1 hw))
    next hv =>
      rw [if_neg (not_lt_of_ge ((not_lt.1 hv).trans h))]
      exact hhalf h

theorem Lies.toSigned {m n : Int} (h : Lies m n x) (hm : signedMin ≤ m) (hn : n ≤ signedMax)
    (r : Rounding) : m ≤ (parts x).toSigned r ∧ (parts x).toSigned r ≤ n := by
  have hlow := toWhole_mono r h.le
  have hhigh := toWhole_mono r h.ge
  rw [toWhole_intCast] at hlow hhigh
  rw [parts_eq, toSigned_eq (isOfFormat_of_isFinite h.isFinite)]
  change m ≤ max signedMin (min (r.toWhole (number x)) signedMax) ∧
    max signedMin (min (r.toWhole (number x)) signedMax) ≤ n
  omega

theorem Lies.toUnsigned_le {a : Rat} {n : Nat} (h : Lies a n x) (r : Rounding) :
    (parts x).toUnsigned r ≤ n := by
  have hhigh := toWhole_mono r h.ge
  rw [← Int.cast_natCast, toWhole_intCast] at hhigh
  rw [parts_eq, toUnsigned_eq (isOfFormat_of_isFinite h.isFinite)]
  exact (min_le_left _ _).trans (Int.toNat_le.2 hhigh)

end

end PoolWatch
