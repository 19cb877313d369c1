import Mathlib.Algebra.Order.Field.Power
import Mathlib.Data.Rat.Cast.Order
import Mathlib.Tactic.Linarith
import PoolWatch.Proofs.Numeric.FloatPacking
/-!
# Rounding of floats

A float of the format is its own rounding, and what is not below a float of the format is not
rounded below it.  A number of which a mantissa is cut off, and the mantissa that is rounded then,
have no float of the format between them.
-/

namespace PoolWatch

open Float.Model (UnpackedFloat totalExponent)
open Float.Model.Format (mantissaBits minExponent targetExponent)
open Float.Model.UnpackedFloat

variable {f : Float.Model.Format}

/-- The number that a mantissa and an exponent stand for. -/
def magnitude (m : Nat) (e : Int) : Rat := m * 2 ^ e

theorem magnitude_pos_iff {m : Nat} {e : Int} : 0 < magnitude m e ↔ 0 < m := by
  rw [magnitude, mul_pos_iff_of_pos_right (zpow_pos two_pos e), Nat.cast_pos]

theorem magnitude_le_magnitude {m n : Nat} (e : Int) (h : m ≤ n) :
    magnitude m e ≤ magnitude n e :=
  mul_le_mul_of_nonneg_right (Nat.cast_le.2 h) (zpow_pos two_pos e).le

theorem magnitude_lt_magnitude_iff {m n : Nat} (e : Int) :
    magnitude m e < magnitude n e ↔ m < n := by
  rw [magnitude, magnitude, mul_lt_mul_iff_left₀ (zpow_pos two_pos e), Nat.cast_lt]

theorem magnitude_inj {m n : Nat} (e : Int) (h : magnitude m e = magnitude n e) : m = n := by
  rw [magnitude, magnitude, mul_left_inj' (zpow_pos two_pos e).ne'] at h
  exact_mod_cast h

theorem magnitude_sub (m k : Nat) (e : Int) : magnitude (m * 2 ^ k) (e - k) = magnitude m e := by
  rw [magnitude, magnitude, zpow_sub₀ two_ne_zero, Nat.cast_mul, Nat.cast_pow, Nat.cast_ofNat,
    zpow_natCast, mul_assoc, mul_div_cancel₀ _ (pow_ne_zero k two_ne_zero)]

theorem magnitude_lt_of_full {k m : Nat} {t e : Int} (hk : k < 2 ^ f.mantissaBits)
    (hm : 2 ^ f.mantissaBitsWithoutImplicit ≤ m) (hte : t < e) :
    magnitude k t < magnitude m e := by
  have hplaces : k < 2 ^ f.mantissaBitsWithoutImplicit * 2 ^ (e - t).toNat := by
    have htwo : 2 ≤ 2 ^ (e - t).toNat := Nat.le_self_pow (by omega) 2
    have hprod := Nat.mul_le_mul_left (2 ^ f.mantissaBitsWithoutImplicit) htwo
    have hbits := two_pow_mantissaBits f
    omega
  have hexponent : e - (e - t).toNat = t := by omega
  calc magnitude k t
      < magnitude (2 ^ f.mantissaBitsWithoutImplicit * 2 ^ (e - t).toNat) t :=
        (magnitude_lt_magnitude_iff t).2 hplaces
    _ = magnitude (2 ^ f.mantissaBitsWithoutImplicit) e := by
        rw [← magnitude_sub _ (e - t).toNat e, hexponent]
    _ ≤ magnitude m e := magnitude_le_magnitude e hm

theorem magnitude_mul (m n : Nat) (e k : Int) :
    magnitude m e * magnitude n k = magnitude (m * n) (e + k) := by
  rw [magnitude, magnitude, magnitude, zpow_add₀ two_ne_zero, Nat.cast_mul]
  ring

/-! ## Shifting mantissas -/

theorem mantissa_shiftRight (em : ExtendedMantissa) (k : Nat) :
    (em >>> k).mantissa = em.mantissa / 2 ^ k := by
  induction k with
  | zero => exact (Nat.div_one _).symm
  | succ k ih =>
    show (em >>> k).mantissa / 2 = _
    rw [ih, Nat.div_div_eq_div_mul, Nat.pow_succ]

theorem shiftRight_mul_two_pow (m k : Nat) :
    (ExtendedMantissa.mk (m * 2 ^ k) false false) >>> k = ⟨m, false, false⟩ := by
  induction k generalizing m with
  | zero => rw [Nat.pow_zero, Nat.mul_one]; rfl
  | succ k ih =>
    show ((ExtendedMantissa.mk (m * 2 ^ (k + 1)) false false) >>> k).shiftRightOne = _
    rw [Nat.pow_succ, Nat.mul_comm (2 ^ k), ← Nat.mul_assoc, ih]
    simp [ExtendedMantissa.shiftRightOne]

theorem roundedMantissa_bounds (em : ExtendedMantissa) :
    em.mantissa ≤ em.roundedMantissa ∧ em.roundedMantissa ≤ em.mantissa + 1 := by
  have hparity := Nat.mod_lt em.mantissa two_pos
  unfold ExtendedMantissa.roundedMantissa Accuracy.roundToNearestEven
  split <;> omega

theorem mantissa_ofMantissaAndAccuracy (m : Nat) (accuracy : Accuracy) :
    (ExtendedMantissa.ofMantissaAndAccuracy m accuracy).mantissa = m := by
  unfold ExtendedMantissa.ofMantissaAndAccuracy
  split <;> rfl

/-! ## Target exponents -/

theorem log2_mul_two_pow {m : Nat} (hm : m ≠ 0) (k : Nat) : (m * 2 ^ k).log2 = m.log2 + k := by
  induction k with
  | zero => rw [Nat.pow_zero, Nat.mul_one, Nat.add_zero]
  | succ k ih =>
    have hprod : m * 2 ^ (k + 1) = 2 * (m * 2 ^ k) := by ring
    rw [hprod, Nat.log2_two_mul (mul_ne_zero hm (pow_ne_zero k two_ne_zero)), ih, Nat.add_assoc]

theorem shiftToTargetExponent_eq (m : Nat) (e : Int) (accuracy : Accuracy) :
    shiftToTargetExponent f m e accuracy =
      (ExtendedMantissa.ofMantissaAndAccuracy m accuracy >>>
          (f.targetExponent (totalExponent m e) - e).toNat,
        e + (f.targetExponent (totalExponent m e) - e).toNat) :=
  rfl

theorem targetExponent_of_isCanonical {m : Nat} {e : Int} (h : IsCanonical f m e) :
    f.targetExponent (totalExponent m e) = e := by
  have hlog : m.log2 < f.mantissaBits := (Nat.log2_lt h.pos.ne').2 h.lt
  have hle := h.le
  unfold targetExponent totalExponent
  obtain hfull | hleast := h.full
  · have hlog2 : f.mantissaBitsWithoutImplicit ≤ m.log2 := (Nat.le_log2 h.pos.ne').2 hfull
    unfold mantissaBits at *
    omega
  · unfold mantissaBits at *
    omega

theorem shiftToTargetExponent_of_isCanonical {m : Nat} {e : Int} (h : IsCanonical f m e)
    (k : Nat) :
    shiftToTargetExponent f (m * 2 ^ k) (e - k) .exact = (⟨m, false, false⟩, e) := by
  have htotal : totalExponent (m * 2 ^ k) (e - k) = totalExponent m e := by
    have hlog : (m * 2 ^ k).log2 = m.log2 + k := log2_mul_two_pow h.pos.ne' k
    unfold totalExponent
    omega
  have hamount : (e - (e - k)).toNat = k := by omega
  rw [shiftToTargetExponent_eq, htotal, targetExponent_of_isCanonical h, hamount,
    Int.sub_add_cancel]
  exact Prod.ext (shiftRight_mul_two_pow m k) rfl

theorem shiftToTargetExponent_two_pow {e : Int} (he : f.minExponent ≤ e) :
    shiftToTargetExponent f (2 ^ f.mantissaBits) e .exact =
      (⟨2 ^ f.mantissaBitsWithoutImplicit, false, false⟩, e + 1) := by
  have hpos : 0 < 2 ^ f.mantissaBitsWithoutImplicit := Nat.two_pow_pos _
  have hbits := two_pow_mantissaBits f
  have hcanonical : IsCanonical f (2 ^ f.mantissaBitsWithoutImplicit) (e + 1) :=
    ⟨hpos, by omega, by omega, .inl le_rfl⟩
  have hshifted := shiftToTargetExponent_of_isCanonical hcanonical 1
  have hexponent : e + 1 - (1 : Nat) = e := by omega
  rwa [hexponent, Nat.pow_one, Nat.mul_comm, ← hbits] at hshifted

/-! ## Rounding -/

theorem roundWithAccuracy_eq (s : Sign) {m : Nat} {e e' e'' : Int} {accuracy : Accuracy}
    {first second : ExtendedMantissa}
    (hfirst : shiftToTargetExponent f m e accuracy = (first, e'))
    (hsecond : shiftToTargetExponent f first.roundedMantissa e' .exact = (second, e'')) :
    roundWithAccuracy f s m e accuracy =
      if h : second.mantissa = 0 then .zero s
      else .finite s second.mantissa e'' (Nat.pos_of_ne_zero h) := by
  unfold roundWithAccuracy
  rw [hfirst]
  dsimp only
  rw [hsecond]

theorem round_second_of_isCanonical {s : Sign} {m : Nat} {e e' : Int} {accuracy : Accuracy}
    {n : Nat} {em : ExtendedMantissa}
    (hfirst : shiftToTargetExponent f n e' accuracy = (em, e))
    (h : IsCanonical f m e) (hm : em.roundedMantissa = m) :
    roundWithAccuracy f s n e' accuracy = .finite s m e h.pos := by
  subst hm
  have hsecond : shiftToTargetExponent f em.roundedMantissa e .exact =
      (⟨em.roundedMantissa, false, false⟩, e) := by
    simpa using shiftToTargetExponent_of_isCanonical h 0
  rw [roundWithAccuracy_eq s hfirst hsecond]
  exact dif_neg h.pos.ne'

theorem roundWithAccuracy_exact {s : Sign} {m : Nat} {e : Int} (h : IsCanonical f m e)
    (k : Nat) : roundWithAccuracy f s (m * 2 ^ k) (e - k) .exact = .finite s m e h.pos :=
  round_second_of_isCanonical (shiftToTargetExponent_of_isCanonical h k) h rfl

theorem roundWithAccuracy_of_first {m : Nat} {e e' : Int} {accuracy : Accuracy}
    {em : ExtendedMantissa} (hfirst : shiftToTargetExponent f m e accuracy = (em, e'))
    (he' : f.minExponent ≤ e')
    (hrounded : IsCanonical f em.roundedMantissa e' ∨ em.roundedMantissa = 2 ^ f.mantissaBits) :
    ∃ m' e'', ∃ h : IsCanonical f m' e'',
      (∀ s, roundWithAccuracy f s m e accuracy = .finite s m' e'' h.pos) ∧
        magnitude m' e'' = magnitude em.roundedMantissa e' := by
  obtain hcanonical | hlong := hrounded
  · exact ⟨_, _, hcanonical, fun _ => round_second_of_isCanonical hfirst hcanonical rfl, rfl⟩
  · have hpos : 0 < 2 ^ f.mantissaBitsWithoutImplicit := Nat.two_pow_pos _
    have hbits := two_pow_mantissaBits f
    refine ⟨2 ^ f.mantissaBitsWithoutImplicit, e' + 1, ⟨hpos, by omega, by omega, .inl le_rfl⟩,
      fun s => ?_, ?_⟩
    · have hsecond := shiftToTargetExponent_two_pow he'
      rw [← hlong] at hsecond
      rw [roundWithAccuracy_eq s hfirst hsecond]
      exact dif_neg hpos.ne'
    · have hexponent : e' + 1 - (1 : Nat) = e' := by omega
      rw [hlong, hbits, Nat.mul_comm, ← magnitude_sub (2 ^ f.mantissaBitsWithoutImplicit) 1,
        hexponent, Nat.pow_one]

/-! ## Rounding from above -/

section

variable {m : Nat} {e : Int}

theorem cut_lt (he : e ≤ f.targetExponent (totalExponent m e)) :
    m / 2 ^ (f.targetExponent (totalExponent m e) - e).toNat < 2 ^ f.mantissaBits := by
  obtain rfl | hm := Nat.eq_zero_or_pos m
  · rw [Nat.zero_div]
    exact Nat.two_pow_pos _
  · have hlog : m.log2 <
        f.mantissaBits + (f.targetExponent (totalExponent m e) - e).toNat := by
      unfold targetExponent totalExponent at *
      omega
    rw [Nat.div_lt_iff_lt_mul (Nat.two_pow_pos _), ← Nat.pow_add]
    exact (Nat.log2_lt hm.ne').1 hlog

theorem cut_full (he : e ≤ f.targetExponent (totalExponent m e)) :
    2 ^ f.mantissaBitsWithoutImplicit ≤
        m / 2 ^ (f.targetExponent (totalExponent m e) - e).toNat ∨
      f.targetExponent (totalExponent m e) = f.minExponent := by
  rw [or_iff_not_imp_right]
  intro hleast
  have hbits : f.mantissaBits = f.mantissaBitsWithoutImplicit + 1 := Nat.add_comm _ _
  have hpos := f.hm
  have hlog : m.log2 = f.mantissaBitsWithoutImplicit +
      (f.targetExponent (totalExponent m e) - e).toNat := by
    unfold targetExponent totalExponent at *
    omega
  have hm : m ≠ 0 := by
    rintro rfl
    rw [Nat.log2_zero] at hlog
    omega
  rw [Nat.le_div_iff_mul_le (Nat.two_pow_pos _), ← Nat.pow_add, ← hlog]
  exact Nat.log2_self_le hm

theorem magnitude_le_cut {k : Nat} {t : Int} (hk : IsCanonical f k t)
    (he : e ≤ f.targetExponent (totalExponent m e)) (h : magnitude k t < magnitude (m + 1) e) :
    magnitude k t ≤ magnitude (m / 2 ^ (f.targetExponent (totalExponent m e) - e).toNat)
      (f.targetExponent (totalExponent m e)) := by
  have hfull := cut_full he
  set T := f.targetExponent (totalExponent m e) with hT
  obtain hTt | htT := le_or_gt T t
  · -- both floats are whole multiples of the last place that is left
    have htexponent : t - (t - T).toNat = T := by omega
    have hTexponent : T - (T - e).toNat = e := by omega
    have hKt : magnitude (k * 2 ^ (t - T).toNat) T = magnitude k t := by
      rw [← magnitude_sub k (t - T).toNat t, htexponent]
    have hKe : magnitude (k * 2 ^ (t - T).toNat * 2 ^ (T - e).toNat) e = magnitude k t := by
      rw [← hKt, ← magnitude_sub _ (T - e).toNat T, hTexponent]
    rw [← hKe, magnitude_lt_magnitude_iff] at h
    rw [← hKt]
    exact magnitude_le_magnitude T
      ((Nat.le_div_iff_mul_le (Nat.two_pow_pos _)).2 (Nat.lt_succ_iff.1 h))
  · -- the mantissa that is left is full, and its last place stands for more
    have hle := hk.le
    exact (magnitude_lt_of_full hk.lt (hfull.resolve_right (by omega)) htT).le

/-- The mantissa that is rounded for the first time. -/
def firstMantissa (f : Float.Model.Format) (m : Nat) (e : Int) (accuracy : Accuracy) :
    ExtendedMantissa :=
  ExtendedMantissa.ofMantissaAndAccuracy m accuracy >>>
    (f.targetExponent (totalExponent m e) - e).toNat

theorem firstMantissa_bounds (m : Nat) (e : Int) (accuracy : Accuracy) :
    m / 2 ^ (f.targetExponent (totalExponent m e) - e).toNat ≤
        (firstMantissa f m e accuracy).roundedMantissa ∧
      (firstMantissa f m e accuracy).roundedMantissa ≤
        m / 2 ^ (f.targetExponent (totalExponent m e) - e).toNat + 1 := by
  have hbounds := roundedMantissa_bounds (firstMantissa f m e accuracy)
  have hmantissa : (firstMantissa f m e accuracy).mantissa =
      m / 2 ^ (f.targetExponent (totalExponent m e) - e).toNat := by
    rw [firstMantissa, mantissa_shiftRight, mantissa_ofMantissaAndAccuracy]
  rwa [hmantissa] at hbounds

theorem shiftToTargetExponent_eq_first (accuracy : Accuracy)
    (he : e ≤ f.targetExponent (totalExponent m e)) :
    shiftToTargetExponent f m e accuracy =
      (firstMantissa f m e accuracy, f.targetExponent (totalExponent m e)) := by
  have hexponent : e + (f.targetExponent (totalExponent m e) - e).toNat =
      f.targetExponent (totalExponent m e) := by omega
  rw [shiftToTargetExponent_eq, hexponent]
  rfl

/-- A mantissa of which something is left once it is rounded becomes a float of the format. -/
theorem roundWithAccuracy_eq_finite (accuracy : Accuracy)
    (he : e ≤ f.targetExponent (totalExponent m e))
    (hpos : 0 < (firstMantissa f m e accuracy).roundedMantissa) :
    ∃ m' e', ∃ h : IsCanonical f m' e',
      (∀ s, roundWithAccuracy f s m e accuracy = .finite s m' e' h.pos) ∧
        magnitude m' e' = magnitude (firstMantissa f m e accuracy).roundedMantissa
          (f.targetExponent (totalExponent m e)) := by
  have hlt := cut_lt he
  have hfull := cut_full he
  have hmin : f.minExponent ≤ f.targetExponent (totalExponent m e) := Int.le_max_right _ _
  have hbounds := firstMantissa_bounds (f := f) m e accuracy
  -- rounding adds one to what is left at most, so it can only just become too long
  apply roundWithAccuracy_of_first (shiftToTargetExponent_eq_first accuracy he) hmin
  obtain hlong | hshort := Nat.eq_or_lt_of_le (hbounds.2.trans hlt)
  · exact .inr hlong
  · exact .inl ⟨hpos, hshort, hmin, hfull.imp_left (·.trans hbounds.1)⟩

theorem roundWithAccuracy_eq_zero (accuracy : Accuracy)
    (he : e ≤ f.targetExponent (totalExponent m e))
    (hzero : (firstMantissa f m e accuracy).roundedMantissa = 0) (s : Sign) :
    roundWithAccuracy f s m e accuracy = .zero s := by
  have hnothing (t : Int) : (shiftToTargetExponent f 0 t .exact).1.mantissa = 0 := by
    rw [shiftToTargetExponent_eq, mantissa_shiftRight, mantissa_ofMantissaAndAccuracy,
      Nat.zero_div]
  rw [roundWithAccuracy_eq s (shiftToTargetExponent_eq_first accuracy he) Prod.mk.eta.symm, hzero]
  exact dif_pos (hnothing _)

theorem le_roundWithAccuracy {s : Sign} {accuracy : Accuracy} {k : Nat} {t : Int}
    (hk : IsCanonical f k t) (he : e ≤ f.targetExponent (totalExponent m e))
    (h : magnitude k t < magnitude (m + 1) e) :
    ∃ m' e', ∃ hm' : IsCanonical f m' e',
      roundWithAccuracy f s m e accuracy = .finite s m' e' hm'.pos ∧
        magnitude k t ≤ magnitude m' e' := by
  have hcut := magnitude_le_cut hk he h
  have hkept := hcut.trans (magnitude_le_magnitude _ (firstMantissa_bounds m e accuracy).1)
  obtain ⟨m', e', hm', hround, hmagnitude⟩ := roundWithAccuracy_eq_finite accuracy he
    (magnitude_pos_iff.1 ((magnitude_pos_iff.2 hk.pos).trans_le hkept))
  exact ⟨m', e', hm', hround s, hkept.trans_eq hmagnitude.symm⟩

theorem targetExponent_le {k : Nat} {t : Int} (hk : IsCanonical f k t)
    (he : e ≤ f.targetExponent (totalExponent m e)) (h : magnitude m e ≤ magnitude k t) :
    f.targetExponent (totalExponent m e) ≤ t := by
  have hfull := cut_full he
  set T := f.targetExponent (totalExponent m e) with hT
  by_contra hlt
  have hle := hk.le
  have hexponent : T - (T - e).toNat = e := by omega
  refine absurd h (not_le_of_gt ?_)
  calc magnitude k t
      < magnitude (m / 2 ^ (T - e).toNat) T :=
        magnitude_lt_of_full hk.lt (hfull.resolve_right (by omega)) (by omega)
    _ = magnitude (m / 2 ^ (T - e).toNat * 2 ^ (T - e).toNat) e := by
        rw [← magnitude_sub _ (T - e).toNat T, hexponent]
    _ ≤ magnitude m e := magnitude_le_magnitude e (Nat.div_mul_le_self _ _)

/-- What is not above a float of the format is not rounded above it.  A mantissa that is not exact
stands for more than it says, and so has to be below the float. -/
theorem firstMantissa_le {accuracy : Accuracy} {k : Nat} {t : Int} (hk : IsCanonical f k t)
    (he : e ≤ f.targetExponent (totalExponent m e)) (h : magnitude m e ≤ magnitude k t)
    (hexact : magnitude m e = magnitude k t → accuracy = .exact) :
    magnitude (firstMantissa f m e accuracy).roundedMantissa
      (f.targetExponent (totalExponent m e)) ≤ magnitude k t := by
  have hTt := targetExponent_le hk he h
  have hbounds := (firstMantissa_bounds (f := f) m e accuracy).2
  have hfirst : firstMantissa f m e accuracy =
      ExtendedMantissa.ofMantissaAndAccuracy m accuracy >>>
        (f.targetExponent (totalExponent m e) - e).toNat := rfl
  rw [hfirst] at hbounds ⊢
  set T := f.targetExponent (totalExponent m e) with hT
  set a := (T - e).toNat
  have htexponent : t - (t - T).toNat = T := by omega
  have hTexponent : T - a = e := by omega
  have hK : magnitude (k * 2 ^ (t - T).toNat) T = magnitude k t := by
    rw [← magnitude_sub k (t - T).toNat t, htexponent]
  set K := k * 2 ^ (t - T).toNat
  have hKe : magnitude (K * 2 ^ a) e = magnitude k t := by
    rw [← hK, ← magnitude_sub K a T, hTexponent]
  have hle : m ≤ K * 2 ^ a := by
    rw [← hKe] at h
    exact le_of_not_gt fun hlt => absurd ((magnitude_lt_magnitude_iff e).2 hlt) (not_lt_of_ge h)
  have hcut : m / 2 ^ a ≤ K := Nat.div_le_of_le_mul (by rwa [Nat.mul_comm])
  rw [← hK]
  apply magnitude_le_magnitude
  obtain heq | hlt := Nat.eq_or_lt_of_le hcut
  · -- nothing is cut off, so nothing is added
    have hm : m = K * 2 ^ a := le_antisymm hle (heq ▸ Nat.div_mul_le_self m (2 ^ a))
    obtain rfl := hexact (by rw [hm, hKe])
    have hshift : ExtendedMantissa.ofMantissaAndAccuracy m .exact >>> a = ⟨K, false, false⟩ :=
      hm ▸ shiftRight_mul_two_pow K a
    rw [hshift]
    exact le_refl K
  · exact hbounds.trans hlt

/-- The mantissa is what is left of a number when the places after its last one are cut off.  If
there are none, the accuracy says so. -/
structure IsCut (m : Nat) (e : Int) (accuracy : Accuracy) (w : Rat) : Prop where
  le : magnitude m e ≤ w
  lt : w < magnitude (m + 1) e
  exact : magnitude m e = w → accuracy = .exact

theorem isCut_exact (m : Nat) (e : Int) : IsCut m e .exact (magnitude m e) :=
  ⟨le_rfl, (magnitude_lt_magnitude_iff e).2 m.lt_succ_self, fun _ => rfl⟩

theorem IsCut.uncrossed {accuracy : Accuracy} {w : Rat} (h : IsCut m e accuracy w)
    (he : e ≤ f.targetExponent (totalExponent m e)) {k : Nat} {t : Int} (hk : IsCanonical f k t) :
    (magnitude k t ≤ w → magnitude k t ≤
        magnitude (firstMantissa f m e accuracy).roundedMantissa
          (f.targetExponent (totalExponent m e))) ∧
      (w ≤ magnitude k t → magnitude (firstMantissa f m e accuracy).roundedMantissa
        (f.targetExponent (totalExponent m e)) ≤ magnitude k t) := by
  constructor
  · intro hle
    exact (magnitude_le_cut hk he (hle.trans_lt h.lt)).trans
      (magnitude_le_magnitude _ (firstMantissa_bounds m e accuracy).1)
  · intro hge
    exact firstMantissa_le hk he (h.le.trans hge) fun heq =>
      h.exact (le_antisymm h.le (hge.trans_eq heq.symm))

end

end PoolWatch
