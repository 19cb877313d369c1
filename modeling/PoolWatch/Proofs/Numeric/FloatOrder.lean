import Mathlib.Data.Prod.Lex
/-!
# The order of floats

Floats that are numbers stand on a line, from one infinity to the other, and are compared by their
places on it.  So they are ordered like the places: of two of them one is less or equal, and less
is transitive.  A comparison with something that is not a number fails.
-/

namespace PoolWatch

open Float.Model (UnpackedFloat)

/-- The place of a number on the line: on which side of zero it stands, infinities apart, and how
far out. -/
def place : UnpackedFloat → Int ×ₗ Int ×ₗ Int
  | .infinity .negative => toLex (-2, toLex (0, 0))
  | .finite .negative mantissa exponent _ => toLex (-1, toLex (-exponent, -mantissa))
  | .zero _ | .notANumber => toLex (0, toLex (0, 0))
  | .finite .positive mantissa exponent _ => toLex (1, toLex (exponent, mantissa))
  | .infinity .positive => toLex (2, toLex (0, 0))

theorem place_le_infinity (u : UnpackedFloat) : place u ≤ place (.infinity .positive) := by
  have hside : ∀ (side : Int) (p : Int ×ₗ Int), side < 2 →
      toLex (side, p) ≤ place (.infinity .positive) :=
    fun side p hlt => Prod.Lex.toLex_le_toLex.2 (.inl hlt)
  cases u with
  | infinity s => cases s <;> decide
  | finite s m e h => cases s <;> exact hside _ _ (by decide)
  | _ => exact hside 0 _ (by decide)

theorem infinity_le_place (u : UnpackedFloat) : place (.infinity .negative) ≤ place u := by
  have hside : ∀ (side : Int) (p : Int ×ₗ Int), -2 < side →
      place (.infinity .negative) ≤ toLex (side, p) :=
    fun side p hlt => Prod.Lex.toLex_le_toLex.2 (.inl hlt)
  cases u with
  | infinity s => cases s <;> decide
  | finite s m e h => cases s <;> exact hside _ _ (by decide)
  | _ => exact hside 0 _ (by decide)

section

variable {s t : Float.Model.UnpackedFloat.Sign} {m n : Nat} {e k : Int} {hm : 0 < m} {hn : 0 < n}

theorem place_negative_lt : place (.finite .negative m e hm) < place (.zero s) :=
  Prod.Lex.toLex_lt_toLex.2 (.inl (show (-1 : Int) < 0 by decide))

theorem lt_place_positive : place (.zero s) < place (.finite .positive m e hm) :=
  Prod.Lex.toLex_lt_toLex.2 (.inl (show (0 : Int) < 1 by decide))

theorem place_finite_inj (h : place (.finite s m e hm) = place (.finite t n k hn)) :
    s = t ∧ e = k ∧ m = n := by
  cases s with
  | negative =>
    cases t with
    | negative =>
      have hplaces : ((-1 : Int), (-e, -(m : Int))) = (-1, (-k, -(n : Int))) := h
      rw [Prod.mk.injEq, Prod.mk.injEq] at hplaces
      exact ⟨rfl, by omega, by omega⟩
    | positive => cases h
  | positive =>
    cases t with
    | negative => cases h
    | positive =>
      have hplaces : ((1 : Int), (e, (m : Int))) = (1, (k, (n : Int))) := h
      rw [Prod.mk.injEq, Prod.mk.injEq] at hplaces
      exact ⟨rfl, by omega, by omega⟩

end

theorem compare_neg_neg (a b : Int) : compare (-a) (-b) = (compare a b).swap := by
  rw [Int.compare_swap]
  simp only [Int.compare_eq_ite_lt, Int.neg_lt_neg_iff]

theorem compare_natCast (m n : Nat) : compare (m : Int) (n : Int) = compare m n := by
  simp only [Int.compare_eq_ite_lt, Nat.compare_eq_ite_lt, Int.ofNat_lt]

theorem compare_toLex (side e m e' m' : Int) :
    compare (toLex (side, toLex (e, m)) : Int ×ₗ Int ×ₗ Int) (toLex (side, toLex (e', m'))) =
      (compare e e').then (compare m m') := by
  simp [Prod.Lex.compare_def, compareLex, compareOn]

theorem compare_eq_compare_place {a b : UnpackedFloat} (ha : a.isNaN = false)
    (hb : b.isNaN = false) : a.compare b = some (compare (place a) (place b)) := by
  cases a with
  | notANumber => cases ha
  | infinity s =>
    cases b with
    | notANumber => cases hb
    | infinity t => cases s <;> cases t <;> rfl
    | zero t => cases s <;> rfl
    | finite t m e h => cases s <;> cases t <;> rfl
  | zero s =>
    cases b with
    | notANumber => cases hb
    | infinity t => cases t <;> rfl
    | zero t => rfl
    | finite t m e h => cases t <;> rfl
  | finite s m e h =>
    cases b with
    | notANumber => cases hb
    | infinity t => cases s <;> cases t <;> rfl
    | zero t => cases s <;> rfl
    | finite t m' e' h' =>
      cases s <;> cases t
      · show some ((compare e e').then (compare m m')).swap = _
        rw [Ordering.swap_then, ← compare_neg_neg, ← compare_natCast, ← compare_neg_neg,
          ← compare_toLex (-1)]
        rfl
      · rfl
      · rfl
      · show some ((compare e e').then (compare m m')) = _
        rw [← compare_natCast, ← compare_toLex 1]
        rfl

theorem compare_of_isNaN_left {a : UnpackedFloat} (ha : a.isNaN = true) (b : UnpackedFloat) :
    a.compare b = none := by
  cases a with
  | notANumber => rfl
  | _ => cases ha

theorem compare_of_isNaN_right {b : UnpackedFloat} (hb : b.isNaN = true) (a : UnpackedFloat) :
    a.compare b = none := by
  cases b with
  | notANumber => cases a with
    | infinity s => cases s <;> rfl
    | finite s m e h => cases s <;> rfl
    | _ => rfl
  | _ => cases hb

/-! ## Comparisons -/

theorem unpacked_le_iff {a b : UnpackedFloat} :
    a.le b = true ↔ a.isNaN = false ∧ b.isNaN = false ∧ place a ≤ place b := by
  unfold UnpackedFloat.le
  cases ha : a.isNaN with
  | true => simp [compare_of_isNaN_left ha]
  | false =>
    cases hb : b.isNaN with
    | true => simp [compare_of_isNaN_right hb]
    | false =>
      rw [compare_eq_compare_place ha hb, Option.any_some, Ordering.isLE_iff_ne_gt,
        ← compare_le_iff_le]
      simp

theorem unpacked_lt_iff {a b : UnpackedFloat} :
    a.lt b = true ↔ a.isNaN = false ∧ b.isNaN = false ∧ place a < place b := by
  unfold UnpackedFloat.lt
  cases ha : a.isNaN with
  | true => simp [compare_of_isNaN_left ha]
  | false =>
    cases hb : b.isNaN with
    | true => simp [compare_of_isNaN_right hb]
    | false => simp [compare_eq_compare_place ha hb, compare_lt_iff_lt]

section

variable {a b c : Float}

theorem float_le_iff : a ≤ b ↔
    a.isNaN = false ∧ b.isNaN = false ∧ place a.toModel.unpack ≤ place b.toModel.unpack := by
  show decide (a.toModel ≤ b.toModel) = true ↔ _
  rw [decide_eq_true_iff]
  exact unpacked_le_iff

theorem float_lt_iff : a < b ↔
    a.isNaN = false ∧ b.isNaN = false ∧ place a.toModel.unpack < place b.toModel.unpack := by
  show decide (a.toModel < b.toModel) = true ↔ _
  rw [decide_eq_true_iff]
  exact unpacked_lt_iff

theorem float_lt_of_not_le (ha : a.isNaN = false) (hb : b.isNaN = false) (h : ¬a ≤ b) :
    b < a := by
  have hplace : ¬place a.toModel.unpack ≤ place b.toModel.unpack :=
    fun hle => h (float_le_iff.2 ⟨ha, hb, hle⟩)
  exact float_lt_iff.2 ⟨hb, ha, lt_of_not_ge hplace⟩

theorem float_lt_trans (hab : a < b) (hbc : b < c) : a < c := by
  obtain ⟨ha, -, hab⟩ := float_lt_iff.1 hab
  obtain ⟨-, hc, hbc⟩ := float_lt_iff.1 hbc
  exact float_lt_iff.2 ⟨ha, hc, hab.trans hbc⟩

theorem float_le_of_lt (h : a < b) : a ≤ b := by
  obtain ⟨ha, hb, hlt⟩ := float_lt_iff.1 h
  exact float_le_iff.2 ⟨ha, hb, hlt.le⟩

theorem float_le_trans (hab : a ≤ b) (hbc : b ≤ c) : a ≤ c := by
  obtain ⟨ha, -, hab⟩ := float_le_iff.1 hab
  obtain ⟨-, hc, hbc⟩ := float_le_iff.1 hbc
  exact float_le_iff.2 ⟨ha, hc, hab.trans hbc⟩

theorem float_lt_of_le_of_lt (hab : a ≤ b) (hbc : b < c) : a < c := by
  obtain ⟨ha, -, hab⟩ := float_le_iff.1 hab
  obtain ⟨-, hc, hbc⟩ := float_lt_iff.1 hbc
  exact float_lt_iff.2 ⟨ha, hc, hab.trans_lt hbc⟩

theorem float_lt_of_lt_of_le (hab : a < b) (hbc : b ≤ c) : a < c := by
  obtain ⟨ha, -, hab⟩ := float_lt_iff.1 hab
  obtain ⟨-, hc, hbc⟩ := float_le_iff.1 hbc
  exact float_lt_iff.2 ⟨ha, hc, hab.trans_le hbc⟩

theorem float_le_of_not_lt (ha : a.isNaN = false) (hb : b.isNaN = false) (h : ¬a < b) : b ≤ a := by
  by_contra hle
  exact h (float_lt_of_not_le hb ha hle)

theorem not_float_lt_of_le (h : a ≤ b) : ¬b < a := fun hlt =>
  absurd (float_le_iff.1 h).2.2 (not_le_of_gt (float_lt_iff.1 hlt).2.2)

instance instTransFloatLt : @Trans Float Float Float (· < ·) (· < ·) (· < ·) := ⟨float_lt_trans⟩

instance instTransFloatLe : @Trans Float Float Float (· ≤ ·) (· ≤ ·) (· ≤ ·) := ⟨float_le_trans⟩

instance instTransFloatLeLt : @Trans Float Float Float (· ≤ ·) (· < ·) (· < ·) :=
  ⟨float_lt_of_le_of_lt⟩

instance instTransFloatLtLe : @Trans Float Float Float (· < ·) (· ≤ ·) (· < ·) :=
  ⟨float_lt_of_lt_of_le⟩

end

/-! ## Single precision -/

section

variable {a b : Float32}

theorem float32_le_iff : a ≤ b ↔
    a.isNaN = false ∧ b.isNaN = false ∧ place a.toModel.unpack ≤ place b.toModel.unpack := by
  show decide (a.toModel ≤ b.toModel) = true ↔ _
  rw [decide_eq_true_iff]
  exact unpacked_le_iff

theorem float32_lt_iff : a < b ↔
    a.isNaN = false ∧ b.isNaN = false ∧ place a.toModel.unpack < place b.toModel.unpack := by
  show decide (a.toModel < b.toModel) = true ↔ _
  rw [decide_eq_true_iff]
  exact unpacked_lt_iff

end

end PoolWatch
