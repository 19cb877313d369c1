import Mathlib.Algebra.Order.Group.Synonym
import Mathlib.Algebra.Order.Monoid.Prod
import Mathlib.Data.Rat.Floor
import Mathlib.Tactic.FieldSimp
import PoolWatch.Proofs.Numeric.FloatRounding
/-!
# The numbers that floats stand for

A finite float stands for a number, and the floats of a format are ordered like the numbers that
they stand for.  All of these numbers are whole multiples of the least positive one.  A float is
brought to a whole number as its number is.
-/

namespace PoolWatch

open Float.Model (UnpackedFloat)
open Float.Model.Format (mantissaBits minExponent)
open Float.Model.UnpackedFloat
open PoolWatch.Numeric

variable {f : Float.Model.Format} {u v : UnpackedFloat}

/-- The number that a finite float stands for. -/
def value : UnpackedFloat → Rat
  | .finite .positive m e _ => magnitude m e
  | .finite .negative m e _ => -magnitude m e
  | .zero _ | .infinity _ | .notANumber => 0

/-- The float is finite, and kept as the format keeps it. -/
def IsOfFormat (f : Float.Model.Format) : UnpackedFloat → Prop
  | .zero _ => True
  | .finite _ m e _ => IsCanonical f m e ∧ e ≤ maxExponent f
  | .infinity _ | .notANumber => False

theorem isOfFormat_unpack (hbias : 0 < f.exponentBias) {bits : BitVec f.numBits}
    (h : (unpack f bits).isFinite = true) : IsOfFormat f (unpack f bits) := by
  cases hu : unpack f bits with
  | infinity s => rw [hu] at h; cases h
  | notANumber => rw [hu] at h; cases h
  | zero s => trivial
  | finite s m e hm => exact isCanonical_of_unpack hbias hu

theorem IsOfFormat.isNaN (h : IsOfFormat f u) : u.isNaN = false := by
  cases u with
  | notANumber => cases h
  | _ => rfl

theorem IsOfFormat.isFinite (h : IsOfFormat f u) : u.isFinite = true := by
  cases u with
  | infinity s => cases h
  | notANumber => cases h
  | _ => rfl

/-! ## Negation -/

theorem IsOfFormat.neg (h : IsOfFormat f u) : IsOfFormat f u.neg := by
  cases u with
  | finite s m e hm => exact h
  | _ => exact h

theorem value_neg (u : UnpackedFloat) : value u.neg = -value u := by
  cases u with
  | finite s m e hm =>
    cases s with
    | positive => rfl
    | negative => exact (neg_neg _).symm
  | _ => exact neg_zero.symm

theorem place_neg (u : UnpackedFloat) : place u.neg = -place u := by
  cases u with
  | finite s m e hm =>
    cases s with
    | positive => rfl
    | negative => show toLex (1, toLex (e, (m : Int))) = toLex (1, toLex (- -e, - -(m : Int))); simp
  | infinity s => cases s <;> rfl
  | _ => rfl

theorem isNaN_neg (u : UnpackedFloat) : u.neg.isNaN = u.isNaN := by
  cases u <;> rfl

theorem exists_positive (hv : IsOfFormat f v) (h : 0 < value v) :
    ∃ k i, ∃ hk : IsCanonical f k i, v = .finite .positive k i hk.pos ∧ i ≤ maxExponent f := by
  cases v with
  | infinity t => cases hv
  | notANumber => cases hv
  | zero t => exact absurd h (lt_irrefl _)
  | finite t k i hk =>
    cases t with
    | positive => exact ⟨k, i, hv.1, rfl, hv.2⟩
    | negative => exact absurd h (neg_neg_iff_pos.2 (magnitude_pos_iff.2 hk)).not_gt

/-! ## Order -/

theorem magnitude_lt_of_place_lt {m n : Nat} {e t : Int} (hm : IsCanonical f m e)
    (hn : IsCanonical f n t)
    (h : place (.finite .positive m e hm.pos) < place (.finite .positive n t hn.pos)) :
    magnitude m e < magnitude n t := by
  have hle := hm.le
  change toLex ((1 : Int), toLex (e, (m : Int))) < toLex (1, toLex (t, (n : Int))) at h
  obtain hlt | ⟨rfl, hmn⟩ : e < t ∨ e = t ∧ m < n := by
    simpa [Prod.Lex.toLex_lt_toLex] using h
  · exact magnitude_lt_of_full hm.lt (hn.full.resolve_right (by omega)) hlt
  · exact (magnitude_lt_magnitude_iff e).2 hmn

theorem value_lt_of_place_lt (hu : IsOfFormat f u) (hv : IsOfFormat f v) (h : place u < place v) :
    value u < value v := by
  cases u with
  | infinity s => cases hu
  | notANumber => cases hu
  | zero s =>
    cases v with
    | infinity t => cases hv
    | notANumber => cases hv
    | zero t => exact absurd h (lt_irrefl _)
    | finite t n k hn =>
      cases t with
      | negative => exact absurd h place_negative_lt.not_gt
      | positive => exact magnitude_pos_iff.2 hn
  | finite s m e hm =>
    cases v with
    | infinity t => cases hv
    | notANumber => cases hv
    | zero t =>
      cases s with
      | negative => exact neg_neg_iff_pos.2 (magnitude_pos_iff.2 hm)
      | positive => exact absurd h lt_place_positive.not_gt
    | finite t n k hn =>
      cases s <;> cases t
      · have hswapped : place (.finite .positive n k hn) < place (.finite .positive m e hm) := by
          rw [← neg_lt_neg_iff, ← place_neg, ← place_neg]
          exact h
        exact neg_lt_neg (magnitude_lt_of_place_lt hv.1 hu.1 hswapped)
      · exact (neg_neg_iff_pos.2 (magnitude_pos_iff.2 hm)).trans (magnitude_pos_iff.2 hn)
      · exact absurd h (place_negative_lt.trans (lt_place_positive (s := .positive))).not_gt
      · exact magnitude_lt_of_place_lt hu.1 hv.1 h

theorem value_eq_of_place_eq (hu : IsOfFormat f u) (hv : IsOfFormat f v)
    (h : place u = place v) : value u = value v := by
  cases u with
  | infinity s => cases hu
  | notANumber => cases hu
  | zero s =>
    cases v with
    | infinity t => cases hv
    | notANumber => cases hv
    | zero t => rfl
    | finite t n k hn => cases t <;> cases h
  | finite s m e hm =>
    cases v with
    | infinity t => cases hv
    | notANumber => cases hv
    | zero t => cases s <;> cases h
    | finite t n k hn =>
      obtain ⟨rfl, rfl, rfl⟩ := place_finite_inj h
      rfl

/-- The floats of a format are ordered like the numbers that they stand for. -/
theorem place_le_place_iff (hu : IsOfFormat f u) (hv : IsOfFormat f v) :
    place u ≤ place v ↔ value u ≤ value v := by
  constructor
  · intro h
    obtain hlt | heq := lt_or_eq_of_le h
    · exact (value_lt_of_place_lt hu hv hlt).le
    · exact (value_eq_of_place_eq hu hv heq).le
  · intro h
    by_contra hgt
    exact absurd (value_lt_of_place_lt hv hu (lt_of_not_ge hgt)) (not_lt_of_ge h)

/-! ## The least number -/

/-- The least positive number of a format. -/
def leastNumber (f : Float.Model.Format) : UnpackedFloat :=
  .finite .positive 1 f.minExponent one_pos

theorem isCanonical_one (f : Float.Model.Format) : IsCanonical f 1 f.minExponent := by
  have hbits := two_pow_mantissaBits f
  have hpos : 0 < 2 ^ f.mantissaBitsWithoutImplicit := Nat.two_pow_pos _
  exact ⟨one_pos, by omega, le_rfl, .inr rfl⟩

theorem isOfFormat_leastNumber (hbias : 0 < f.exponentBias) : IsOfFormat f (leastNumber f) := by
  have hmin := minExponent_eq f
  refine ⟨isCanonical_one f, ?_⟩
  unfold maxExponent
  omega

theorem exists_magnitude_eq {m : Nat} {e : Int} (he : f.minExponent ≤ e) :
    ∃ n : Nat, magnitude m e = n * magnitude 1 f.minExponent := by
  have hexponent : e - (e - f.minExponent).toNat = f.minExponent := by omega
  refine ⟨m * 2 ^ (e - f.minExponent).toNat, ?_⟩
  rw [← magnitude_sub m (e - f.minExponent).toNat, hexponent, magnitude, magnitude, Nat.cast_one,
    one_mul]

theorem exists_value_eq (hu : IsOfFormat f u) :
    ∃ n : Int, value u = n * value (leastNumber f) := by
  cases u with
  | infinity s => cases hu
  | notANumber => cases hu
  | zero s => exact ⟨0, by rw [Int.cast_zero, zero_mul]; rfl⟩
  | finite s m e hm =>
    obtain ⟨n, hn⟩ := exists_magnitude_eq (m := m) hu.1.le
    cases s with
    | positive => exact ⟨n, hn⟩
    | negative => exact ⟨-n, by rw [Int.cast_neg, neg_mul]; exact congrArg Neg.neg hn⟩

theorem leastNumber_le_sub (hu : IsOfFormat f u) (hv : IsOfFormat f v) (h : value u < value v) :
    value (leastNumber f) ≤ value v - value u := by
  have hpos : 0 < value (leastNumber f) := magnitude_pos_iff.2 one_pos
  obtain ⟨m, hm⟩ := exists_value_eq hu
  obtain ⟨n, hn⟩ := exists_value_eq hv
  rw [hm, hn] at h ⊢
  have hmn : m + 1 ≤ n := by exact_mod_cast lt_of_mul_lt_mul_right h hpos.le
  have hcast : (m : Rat) + 1 ≤ n := by exact_mod_cast hmn
  nlinarith

/-! ## Whole numbers -/

theorem magnitude_eq_div (m : Nat) (e : Int) :
    magnitude m e = ((m * 2 ^ e.toNat : Int) : Rat) / (2 ^ (-e).toNat : Nat) := by
  have hexponent : e = e.toNat - (-e).toNat := (Int.toNat_sub_toNat_neg e).symm
  push_cast
  rw [magnitude, mul_div_assoc, ← zpow_natCast, ← zpow_natCast, ← zpow_sub₀ two_ne_zero,
    ← hexponent]

def Numeric.Rounding.toWhole : Rounding → Rat → Int
  | .down, w => ⌊w⌋
  | .up, w => ⌈w⌉
  | .nearest, w => if w < 0 then -⌊1 / 2 + -w⌋ else ⌊1 / 2 + w⌋

theorem toWhole_intCast (r : Rounding) (n : Int) : r.toWhole n = n := by
  have hhalf (k : Int) : ⌊1 / 2 + (k : Rat)⌋ = k := by
    rw [Int.floor_add_intCast]
    norm_num
  cases r with
  | down => exact Int.floor_intCast n
  | up => exact Int.ceil_intCast n
  | nearest =>
    unfold Rounding.toWhole
    dsimp only
    rw [← Int.cast_neg, hhalf, hhalf, neg_neg, ite_self]

theorem quotient_eq (r : Rounding) (num : Int) {den : Nat} (hden : 0 < den) :
    r.quotient num den = r.toWhole (num / den) := by
  have hpos : (0 : Rat) < den := Nat.cast_pos.2 hden
  have hhalf (k : Int) : (2 * k + den) / (2 * den) = ⌊1 / 2 + (k : Rat) / den⌋ := by
    have hsum : 1 / 2 + (k : Rat) / den = ((2 * k + den : Int) : Rat) / (2 * den : Nat) := by
      push_cast
      field_simp
      ring
    rw [hsum, Rat.floor_intCast_div_natCast]
    rfl
  cases r with
  | down => exact (Rat.floor_intCast_div_natCast num den).symm
  | up => exact (Rat.ceil_intCast_div_natCast num den).symm
  | nearest =>
    have hneg : (num : Rat) / den < 0 ↔ num < 0 := by
      rw [div_lt_iff₀ hpos, zero_mul, Int.cast_lt_zero]
    unfold Rounding.quotient Rounding.toWhole
    dsimp only
    rw [hhalf, hhalf, Int.cast_neg, neg_div]
    exact if_congr hneg.symm rfl rfl

theorem whole?_finite (r : Rounding) (negative : Bool) (m : Nat) (e : Int) :
    (Parts.finite negative m e).whole? r =
      some (r.toWhole (if negative then -magnitude m e else magnitude m e)) := by
  have hquotient (num : Int) := quotient_eq r num (Nat.two_pow_pos (-e).toNat)
  cases negative with
  | false =>
    rw [if_neg Bool.false_ne_true, magnitude_eq_div, ← hquotient]
    rfl
  | true =>
    rw [if_pos rfl, magnitude_eq_div, ← neg_div, ← Int.cast_neg, ← hquotient]
    rfl

theorem whole?_eq (hu : IsOfFormat f u) (r : Rounding) :
    (partsOf f u).whole? r = some (r.toWhole (value u)) := by
  cases u with
  | infinity s => cases hu
  | notANumber => cases hu
  | zero s =>
    have hzero : magnitude 0 f.minExponent = 0 := by rw [magnitude, Nat.cast_zero, zero_mul]
    refine (whole?_finite r _ _ _).trans ?_
    rw [hzero, neg_zero, ite_self]
    rfl
  | finite s m e hm =>
    refine (whole?_finite r _ _ _).trans ?_
    cases s <;> rfl

theorem toUnsigned_eq (hu : IsOfFormat f u) (r : Rounding) :
    (partsOf f u).toUnsigned r = min (r.toWhole (value u)).toNat unsignedMax := by
  have hwhole := congrArg (fun n : Option Int => min (n.getD 0).toNat unsignedMax) (whole?_eq hu r)
  cases u with
  | infinity s => cases hu
  | notANumber => cases hu
  | zero s => exact hwhole
  | finite s m e hm => exact hwhole

end PoolWatch
