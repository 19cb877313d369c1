import PoolWatch.Proofs.Numeric.FloatFinite
import PoolWatch.Proofs.Numeric.FloatValue
/-!
# Sums and differences of floats

No float of the format lies between a number and the float that it is rounded to.  The sum and the
difference of two floats are roundings of the exact ones.  So a difference is positive exactly when
it is one of a number and a lesser one, and adding one to a number does not make it less.
-/

namespace PoolWatch

open Float.Model (UnpackedFloat totalExponent)
open Float.Model.Format (binary64 mantissaBits minExponent targetExponent)
open Float.Model.UnpackedFloat

variable {f : Float.Model.Format} {u v : UnpackedFloat} {w : Rat}

/-- No float of the format lies between the number and the float. -/
structure IsRounding (f : Float.Model.Format) (w : Rat) (u : UnpackedFloat) : Prop where
  isNaN : u.isNaN = false
  le_place : ∀ v, IsOfFormat f v → value v ≤ w → place v ≤ place u
  place_le : ∀ v, IsOfFormat f v → w ≤ value v → place u ≤ place v

theorem IsOfFormat.isRounding (hu : IsOfFormat f u) : IsRounding f (value u) u :=
  ⟨hu.isNaN, fun _ hv => (place_le_place_iff hv hu).2, fun _ hv => (place_le_place_iff hu hv).2⟩

theorem IsRounding.neg (h : IsRounding f w u) : IsRounding f (-w) u.neg := by
  refine ⟨(isNaN_neg u).trans h.isNaN, fun v hv hle => ?_, fun v hv hle => ?_⟩
  · have hneg := h.place_le v.neg hv.neg (by rw [value_neg]; exact le_neg_of_le_neg hle)
    rw [place_neg] at hneg ⊢
    exact le_neg_of_le_neg hneg
  · have hneg := h.le_place v.neg hv.neg (by rw [value_neg]; exact neg_le_of_neg_le hle)
    rw [place_neg] at hneg ⊢
    exact neg_le_of_neg_le hneg

/-! ## Packed floats -/

theorem IsOfFormat.unpack_pack (hu : IsOfFormat f u) : unpack f (pack f u) = u := by
  cases u with
  | infinity s => cases hu
  | notANumber => cases hu
  | zero s => exact unpack_pack_zero s
  | finite s m e hm => exact unpack_pack_of_isCanonical hm hu.1 hu.2

theorem unpack_pack_neg_finite {s : Sign} {m : Nat} {e : Int} (h : IsCanonical f m e) :
    unpack f (pack f (.finite (-s) m e h.pos)) =
      (unpack f (pack f (.finite s m e h.pos))).neg := by
  obtain hmax | hlarge := le_or_gt e (maxExponent f)
  · rw [unpack_pack_of_isCanonical h.pos h hmax, unpack_pack_of_isCanonical h.pos h hmax]
    rfl
  · rw [pack_of_maxExponent_lt h.pos hlarge, pack_of_maxExponent_lt h.pos hlarge,
      unpack_pack_infinity, unpack_pack_infinity]
    rfl

theorem isRounding_finite {m : Nat} {e : Int} (hw : 0 < w) (hm : IsCanonical f m e)
    (huncrossed : ∀ k t, IsCanonical f k t →
      (magnitude k t ≤ w → magnitude k t ≤ magnitude m e) ∧
      (w ≤ magnitude k t → magnitude m e ≤ magnitude k t)) :
    IsRounding f w (unpack f (pack f (.finite .positive m e hm.pos))) := by
  obtain hmax | hlarge := le_or_gt e (maxExponent f)
  · have hu : IsOfFormat f (.finite .positive m e hm.pos) := ⟨hm, hmax⟩
    rw [hu.unpack_pack]
    refine ⟨rfl, fun v hv hle => (place_le_place_iff hv hu).2 ?_,
      fun v hv hle => (place_le_place_iff hu hv).2 ?_⟩
    · by_cases hpositive : 0 < value v
      · obtain ⟨k, i, hk, rfl, -⟩ := exists_positive hv hpositive
        exact (huncrossed k i hk).1 hle
      · exact (le_of_not_gt hpositive).trans (magnitude_pos_iff.2 hm.pos).le
    · obtain ⟨k, i, hk, rfl, -⟩ := exists_positive hv (hw.trans_le hle)
      exact (huncrossed k i hk).2 hle
  · rw [pack_of_maxExponent_lt hm.pos hlarge, unpack_pack_infinity]
    refine ⟨rfl, fun v _ _ => place_le_infinity v, fun v hv hle => ?_⟩
    -- a float that has become too large is above every float of the format
    obtain ⟨k, i, hk, rfl, hi⟩ := exists_positive hv (hw.trans_le hle)
    have hle' := hk.le
    have hfull := hm.full.resolve_right (by omega)
    exact absurd (magnitude_lt_of_full hk.lt hfull (by omega))
      (not_lt_of_ge ((huncrossed k i hk).2 hle))

theorem isRounding_zero (hw : 0 < w) (huncrossed : ∀ k t, IsCanonical f k t → ¬magnitude k t ≤ w)
    (s : Sign) : IsRounding f w (.zero s) := by
  have hzero : IsOfFormat f (.zero s) := trivial
  refine ⟨rfl, fun v hv hle => (place_le_place_iff hv hzero).2 ?_,
    fun v hv hle => (place_le_place_iff hzero hv).2 (hw.le.trans hle)⟩
  by_contra hpositive
  obtain ⟨k, i, hk, rfl, -⟩ := exists_positive hv (lt_of_not_ge hpositive)
  exact huncrossed k i hk hle

/-! ## Rounding -/

section

variable {m n : Nat} {e : Int} {accuracy : Accuracy}

def signed : Sign → Rat → Rat
  | .positive, w => w
  | .negative, w => -w

theorem isRounding_roundWithAccuracy (hw : 0 < w) (h : IsCut m e accuracy w)
    (he : e ≤ f.targetExponent (totalExponent m e)) :
    IsRounding f w (unpack f (pack f (roundWithAccuracy f .positive m e accuracy))) := by
  obtain hzero | hpos := Nat.eq_zero_or_pos (firstMantissa f m e accuracy).roundedMantissa
  · rw [roundWithAccuracy_eq_zero accuracy he hzero, unpack_pack_zero]
    refine isRounding_zero hw (fun k t hk hle => ?_) .positive
    have hnone := (h.uncrossed he hk).1 hle
    rw [hzero] at hnone
    exact absurd (magnitude_pos_iff.1 ((magnitude_pos_iff.2 hk.pos).trans_le hnone)) (lt_irrefl 0)
  · obtain ⟨m', e', hm', hround, hmagnitude⟩ := roundWithAccuracy_eq_finite accuracy he hpos
    rw [hround]
    refine isRounding_finite hw hm' fun k t hk => ?_
    rw [hmagnitude]
    exact h.uncrossed he hk

theorem unpack_pack_roundWithAccuracy_neg (accuracy : Accuracy)
    (he : e ≤ f.targetExponent (totalExponent m e)) :
    unpack f (pack f (roundWithAccuracy f .negative m e accuracy)) =
      (unpack f (pack f (roundWithAccuracy f .positive m e accuracy))).neg := by
  obtain hzero | hpos := Nat.eq_zero_or_pos (firstMantissa f m e accuracy).roundedMantissa
  · rw [roundWithAccuracy_eq_zero accuracy he hzero, roundWithAccuracy_eq_zero accuracy he hzero,
      unpack_pack_zero, unpack_pack_zero]
    rfl
  · obtain ⟨m', e', hm', hround, -⟩ := roundWithAccuracy_eq_finite accuracy he hpos
    rw [hround, hround]
    exact unpack_pack_neg_finite (s := .positive) hm'

theorem isRounding_signed (hw : 0 < w) (h : IsCut m e accuracy w)
    (he : e ≤ f.targetExponent (totalExponent m e)) (s : Sign) :
    IsRounding f (signed s w) (unpack f (pack f (roundWithAccuracy f s m e accuracy))) := by
  have hpositive := isRounding_roundWithAccuracy hw h he
  cases s with
  | positive => exact hpositive
  | negative =>
    rw [unpack_pack_roundWithAccuracy_neg _ he]
    exact hpositive.neg

theorem round_eq (hn : 0 < n) (e : Int) :
    ∃ n' e', (∀ s, round f s n e = roundWithAccuracy f s n' e' .exact) ∧
      magnitude n' e' = magnitude n e ∧ e' ≤ f.targetExponent (totalExponent n' e') := by
  set T := f.targetExponent (totalExponent n e) with hT
  have htotal : totalExponent (n * 2 ^ (e - T).toNat) (e - (e - T).toNat) = totalExponent n e := by
    unfold totalExponent
    rw [log2_mul_two_pow hn.ne']
    omega
  refine ⟨n * 2 ^ (e - T).toNat, e - (e - T).toNat, fun s => ?_, magnitude_sub n _ e, ?_⟩
  · rw [← Nat.shiftLeft_eq]
    rfl
  · rw [htotal, ← hT]
    omega

theorem isRounding_round (hn : 0 < n) (e : Int) (s : Sign) :
    IsRounding f (signed s (magnitude n e)) (unpack f (pack f (round f s n e))) := by
  obtain ⟨n', e', hround, hsame, htarget⟩ := round_eq (f := f) hn e
  rw [hround, ← hsame]
  exact isRounding_signed (hsame ▸ magnitude_pos_iff.2 hn) (isCut_exact n' e') htarget s

theorem isRounding_normalize (i : Int) (e : Int) (s : Sign) :
    IsRounding f (i * 2 ^ e) (unpack f (pack f (UnpackedFloat.normalize f i e s))) := by
  unfold UnpackedFloat.normalize
  obtain hneg | hzero | hpos := lt_trichotomy i 0
  · rw [compare_lt_iff_lt.2 hneg]
    have hcast : (i : Rat) * 2 ^ e = -magnitude (-i).toNat e := by
      have habs : (((-i).toNat : Int) : Rat) = -i := by
        rw [Int.toNat_of_nonneg (by omega), Int.cast_neg]
      rw [magnitude, ← Int.cast_natCast, habs, neg_mul, neg_neg]
    rw [hcast]
    exact isRounding_round (by omega) e .negative
  · rw [compare_eq_iff_eq.2 hzero, hzero, Int.cast_zero, zero_mul]
    dsimp only
    rw [unpack_pack_zero]
    exact IsOfFormat.isRounding (u := .zero s) trivial
  · rw [compare_gt_iff_gt.2 hpos]
    have hcast : (i : Rat) * 2 ^ e = magnitude i.toNat e := by
      have habs : ((i.toNat : Int) : Rat) = i := by rw [Int.toNat_of_nonneg hpos.le]
      rw [magnitude, ← Int.cast_natCast, habs]
    rw [hcast]
    exact isRounding_round (by omega) e .positive

end

/-! ## Sums -/

theorem value_shift (s : Sign) {m : Nat} (hm : 0 < m) {e t : Int} (ht : t ≤ e) :
    ((s.apply ((m <<< (e - t).toNat : Nat) : Int) : Int) : Rat) * 2 ^ t =
      value (.finite s m e hm) := by
  have hexponent : e - (e - t).toNat = t := by omega
  have hshifted := magnitude_sub m (e - t).toNat e
  rw [hexponent, ← Nat.shiftLeft_eq] at hshifted
  cases s with
  | positive => exact hshifted
  | negative =>
    show ((-((m <<< (e - t).toNat : Nat) : Int) : Int) : Rat) * 2 ^ t = -magnitude m e
    rw [Int.cast_neg, neg_mul]
    exact congrArg Neg.neg hshifted

theorem isRounding_add_finite {s₁ s₂ : Sign} {m₁ m₂ : Nat} {e₁ e₂ : Int} {hm₁ : 0 < m₁}
    {hm₂ : 0 < m₂} :
    IsRounding f (value (.finite s₁ m₁ e₁ hm₁) + value (.finite s₂ m₂ e₂ hm₂))
      (unpack f (pack f (add f (.finite s₁ m₁ e₁ hm₁) (.finite s₂ m₂ e₂ hm₂)))) := by
  have hsum := isRounding_normalize (f := f)
    (s₁.apply ((m₁ <<< (e₁ - min e₁ e₂).toNat : Nat) : Int) +
      s₂.apply ((m₂ <<< (e₂ - min e₁ e₂).toNat : Nat) : Int)) (min e₁ e₂) .positive
  rw [Int.cast_add, add_mul, value_shift s₁ hm₁ (min_le_left e₁ e₂),
    value_shift s₂ hm₂ (min_le_right e₁ e₂)] at hsum
  exact hsum

theorem isRounding_add (hu : IsOfFormat f u) (hv : IsOfFormat f v) :
    IsRounding f (value u + value v) (unpack f (pack f (add f u v))) := by
  cases u with
  | infinity s => cases hu
  | notANumber => cases hu
  | zero s =>
    rw [show value (.zero s) = 0 from rfl, zero_add]
    cases v with
    | infinity t => cases hv
    | notANumber => cases hv
    | zero t =>
      obtain ⟨r, hr⟩ : ∃ r, add f (.zero s) (.zero t) = .zero r := by
        cases s <;> cases t <;> exact ⟨_, rfl⟩
      rw [hr, unpack_pack_zero]
      exact IsOfFormat.isRounding (u := .zero r) trivial
    | finite t n k hn =>
      show IsRounding f _ (unpack f (pack f (.finite t n k hn)))
      rw [hv.unpack_pack]
      exact hv.isRounding
  | finite s m e hm =>
    cases v with
    | infinity t => cases hv
    | notANumber => cases hv
    | zero t =>
      show IsRounding f (_ + 0) (unpack f (pack f (.finite s m e hm)))
      rw [add_zero, hu.unpack_pack]
      exact hu.isRounding
    | finite t n k hn => exact isRounding_add_finite

theorem sub_eq_add_neg_unpacked (u v : UnpackedFloat) : sub f u v = add f u v.neg := by
  have happly : ∀ (s : Sign) (i : Int), (-s).apply i = -s.apply i := by
    intro s i
    cases s with
    | positive => rfl
    | negative => exact (neg_neg i).symm
  cases u with
  | finite s m e hm =>
    cases v with
    | finite t n k hn =>
      show UnpackedFloat.normalize f (s.apply _ - t.apply _) _ _ =
        UnpackedFloat.normalize f (s.apply _ + (-t).apply _) _ _
      rw [happly, ← sub_eq_add_neg]
    | _ => rfl
  | _ => cases v <;> rfl

theorem isRounding_sub (hu : IsOfFormat f u) (hv : IsOfFormat f v) :
    IsRounding f (value u - value v) (unpack f (pack f (sub f u v))) := by
  rw [sub_eq_add_neg_unpacked, sub_eq_add_neg, ← value_neg]
  exact isRounding_add hu hv.neg

/-! ## Infinite floats and what is not a number -/

theorem isNaN_of_add_unpacked (h : (unpack f (pack f (add f u v))).isNaN = false) :
    u.isNaN = false := by
  cases u with
  | notANumber =>
    change (unpack f (pack f .notANumber)).isNaN = false at h
    rw [unpack_pack_notANumber] at h
    cases h
  | _ => rfl

theorem add_infinity (s : Sign) (hv : IsOfFormat f v) : add f (.infinity s) v = .infinity s := by
  cases v with
  | infinity t => cases hv
  | notANumber => cases hv
  | _ => rfl

theorem sub_infinity (s : Sign) (hv : IsOfFormat f v) : sub f (.infinity s) v = .infinity s := by
  rw [sub_eq_add_neg_unpacked]
  exact add_infinity s hv.neg

theorem isFinite_or_sub_eq (hu : u.isNaN = false) (hv : v.isNaN = false) (h : place u < place v) :
    u.isFinite = true ∧ v.isFinite = true ∨ sub f u v = .infinity .negative := by
  cases v with
  | notANumber => cases hv
  | infinity t =>
    cases t with
    | negative => exact absurd h (not_lt_of_ge (infinity_le_place u))
    | positive =>
      cases u with
      | notANumber => cases hu
      | infinity s =>
        cases s with
        | negative => exact .inr rfl
        | positive => exact absurd h (lt_irrefl _)
      | _ => exact .inr rfl
  | _ =>
    cases u with
    | notANumber => cases hu
    | infinity s =>
      cases s with
      | negative => exact .inr rfl
      | positive => exact absurd h (not_lt_of_ge (place_le_infinity _))
    | _ => exact .inl ⟨rfl, rfl⟩

/-! ## Floats -/

section

variable {x y : Float}

theorem isOfFormat_of_isFinite (h : x.isFinite = true) : IsOfFormat binary64 x.toModel.unpack :=
  isOfFormat_unpack (by decide) h

theorem sub_le_zero_iff (hx : x.isFinite = true) (hy : y.isFinite = true) :
    x - y ≤ 0 ↔ x ≤ y := by
  have hu := isOfFormat_of_isFinite hx
  have hv := isOfFormat_of_isFinite hy
  have hdifference := isRounding_sub hu hv
  have hzero : IsOfFormat binary64 (.zero .positive) := trivial
  have hnumber : (x - y).isNaN = false := hdifference.isNaN
  constructor
  · intro h
    refine float_le_iff.2 ⟨hu.isNaN, hv.isNaN, (place_le_place_iff hu hv).2 ?_⟩
    by_contra hgt
    have hleast : place (leastNumber binary64) ≤ place (x - y).toModel.unpack :=
      hdifference.le_place _ (isOfFormat_leastNumber (by decide))
        (leastNumber_le_sub hv hu (lt_of_not_ge hgt))
    have hbound : place (x - y).toModel.unpack ≤ place (.zero .positive) := (float_le_iff.1 h).2.2
    exact absurd (hleast.trans hbound) (by decide)
  · intro h
    have hle : value x.toModel.unpack - value y.toModel.unpack ≤ value (.zero .positive) :=
      sub_nonpos.2 ((place_le_place_iff hu hv).1 (float_le_iff.1 h).2.2)
    exact float_le_iff.2 ⟨hnumber, rfl, hdifference.place_le _ hzero hle⟩

theorem sub_le_zero_of_lt (h : x < y) : x - y ≤ 0 := by
  obtain ⟨hx, hy, hlt⟩ := float_lt_iff.1 h
  obtain ⟨hfinite, hfinite'⟩ | hsub := isFinite_or_sub_eq (f := binary64) hx hy hlt
  · exact (sub_le_zero_iff hfinite hfinite').2 (float_le_of_lt h)
  · have hunpack : (x - y).toModel.unpack = .infinity .negative :=
      (congrArg (unpack binary64 ∘ pack binary64) hsub).trans (unpack_pack_infinity _)
    refine float_le_iff.2 ⟨congrArg UnpackedFloat.isNaN hunpack, rfl, ?_⟩
    rw [hunpack]
    decide

theorem exists_infinity_of_not_isFinite (hx : x.isNaN = false) (h : ¬x.isFinite = true) :
    ∃ s, x.toModel.unpack = .infinity s := by
  change x.toModel.unpack.isNaN = false at hx
  change ¬x.toModel.unpack.isFinite = true at h
  cases hu : x.toModel.unpack with
  | infinity s => exact ⟨s, rfl⟩
  | notANumber => rw [hu] at hx; cases hx
  | _ => rw [hu] at h; exact absurd rfl h

theorem value_nonneg (hy : y.isFinite = true) (hnonneg : 0 ≤ y) : 0 ≤ value y.toModel.unpack :=
  (place_le_place_iff (u := .zero .positive) trivial (isOfFormat_of_isFinite hy)).1
    (float_le_iff.1 hnonneg).2.2

theorem le_add_of_zero_le (hx : x.isNaN = false) (hy : y.isFinite = true) (hnonneg : 0 ≤ y) :
    x ≤ x + y := by
  have hv := isOfFormat_of_isFinite hy
  have hvalue := value_nonneg hy hnonneg
  by_cases hfinite : x.isFinite = true
  · have hu := isOfFormat_of_isFinite hfinite
    have hsum := isRounding_add hu hv
    exact float_le_iff.2 ⟨hx, hsum.isNaN, hsum.le_place _ hu (le_add_of_nonneg_right hvalue)⟩
  · obtain ⟨s, hu⟩ := exists_infinity_of_not_isFinite hx hfinite
    have hsame : (x + y).toModel.unpack = .infinity s := by
      rw [← unpack_pack_infinity (f := binary64) s, ← add_infinity s hv, ← hu]
      rfl
    refine float_le_iff.2 ⟨hx, congrArg UnpackedFloat.isNaN hsame, ?_⟩
    rw [hu, hsame]

theorem sub_le_of_zero_le (hx : x.isNaN = false) (hy : y.isFinite = true) (hnonneg : 0 ≤ y) :
    x - y ≤ x := by
  have hv := isOfFormat_of_isFinite hy
  have hvalue := value_nonneg hy hnonneg
  by_cases hfinite : x.isFinite = true
  · have hu := isOfFormat_of_isFinite hfinite
    have hdifference := isRounding_sub hu hv
    exact float_le_iff.2 ⟨hdifference.isNaN, hx,
      hdifference.place_le _ hu (sub_le_self _ hvalue)⟩
  · obtain ⟨s, hu⟩ := exists_infinity_of_not_isFinite hx hfinite
    have hsame : (x - y).toModel.unpack = .infinity s := by
      rw [← unpack_pack_infinity (f := binary64) s, ← sub_infinity s hv, ← hu]
      rfl
    refine float_le_iff.2 ⟨congrArg UnpackedFloat.isNaN hsame, hx, ?_⟩
    rw [hu, hsame]

theorem isNaN_of_add (h : (x + y).isNaN = false) : x.isNaN = false :=
  isNaN_of_add_unpacked (f := binary64) (v := y.toModel.unpack) h

theorem isNaN_of_sub (h : (x - y).isNaN = false) : x.isNaN = false := by
  apply isNaN_of_add_unpacked (f := binary64) (v := y.toModel.unpack.neg)
  rw [← sub_eq_add_neg_unpacked]
  exact h

end

end PoolWatch
