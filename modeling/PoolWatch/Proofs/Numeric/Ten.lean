import Mathlib.Data.Int.Log
import Mathlib.Tactic.LinearCombination
import PoolWatch.Numeric.Ten
import PoolWatch.Proofs.Numeric.FloatBounds
/-!
# Bounds of powers of ten

A positive float begins at the power of ten that is found for it, up to rounding, and ends before
the next one, whatever the logarithm of the machine is.
-/

namespace PoolWatch

open Float.Model (UnpackedFloat)
open Float.Model.Format (binary64)
open PoolWatch.Numeric

/-- The number begins at the power of ten, or so little below it that its logarithm may be rounded
to that of the power. -/
def BeginsAt (w : Rat) (power : Int) : Prop :=
  10 ^ power * (1 - 1 / 2 ^ 40) ≤ w ∧ w < 10 ^ (power + 1)

/-- Both sides are brought to whole numbers by the same factor. -/
theorem beginsAt_iff {m : Nat} {e power : Int} :
    beginsAt m e power = true ↔ BeginsAt (magnitude m e) power := by
  set c : Rat := 2 ^ (-e).toNat * 10 ^ (-power).toNat with hc
  have hpos : 0 < c := by positivity
  have htwo : (2 : Rat) ^ e * 2 ^ (-e).toNat = 2 ^ e.toNat := by
    rw [← zpow_natCast, ← zpow_natCast, ← zpow_add₀ two_ne_zero]
    congr 1
    omega
  have hten : (10 : Rat) ^ power * 10 ^ (-power).toNat = 10 ^ power.toNat := by
    rw [← zpow_natCast, ← zpow_natCast, ← zpow_add₀ (by norm_num)]
    congr 1
    omega
  have hnumber : ((m * 2 ^ e.toNat * 10 ^ (-power).toNat : Nat) : Rat) = magnitude m e * c := by
    rw [magnitude, hc]
    push_cast
    linear_combination -((m : Rat) * 10 ^ (-power).toNat) * htwo
  have hpower : ((10 ^ power.toNat * 2 ^ (-e).toNat : Nat) : Rat) = 10 ^ power * c := by
    rw [hc]
    push_cast
    linear_combination -(2 ^ (-e).toNat : Rat) * hten
  show (decide (10 ^ power.toNat * 2 ^ (-e).toNat * (2 ^ 40 - 1) ≤
      m * 2 ^ e.toNat * 10 ^ (-power).toNat * 2 ^ 40) &&
    decide (m * 2 ^ e.toNat * 10 ^ (-power).toNat < 10 * (10 ^ power.toNat * 2 ^ (-e).toNat))) =
      true ↔ _
  rw [Bool.and_eq_true, decide_eq_true_iff, decide_eq_true_iff, ← Nat.cast_le (α := Rat),
    ← Nat.cast_lt (α := Rat), Nat.cast_mul, Nat.cast_mul (m * _ * _), Nat.cast_mul 10, hnumber,
    hpower]
  refine and_congr ?_ ?_
  · have hleft : 10 ^ power * c * ((2 ^ 40 - 1 : Nat) : Rat) =
        10 ^ power * (1 - 1 / 2 ^ 40) * (c * 2 ^ 40) := by
      norm_num
      ring
    have hright : magnitude m e * c * ((2 ^ 40 : Nat) : Rat) = magnitude m e * (c * 2 ^ 40) := by
      norm_num
      ring
    rw [hleft, hright, mul_le_mul_iff_left₀ (mul_pos hpos (by norm_num))]
  · have hright : ((10 : Nat) : Rat) * (10 ^ power * c) = 10 ^ (power + 1) * c := by
      rw [zpow_add_one₀ (by norm_num)]
      push_cast
      ring
    rw [hright, mul_lt_mul_iff_left₀ hpos]

theorem mem_tenExponents {power : Int} : power ∈ tenExponents ↔ -324 ≤ power ∧ power ≤ 308 := by
  unfold tenExponents
  rw [List.mem_map]
  constructor
  · rintro ⟨k, hk, rfl⟩
    rw [List.mem_range] at hk
    omega
  · rintro ⟨hlow, hhigh⟩
    exact ⟨(308 - power).toNat, List.mem_range.2 (by omega), by omega⟩

theorem exists_beginsAt {m : Nat} {e : Int} (hm : IsCanonical binary64 m e)
    (he : e ≤ maxExponent binary64) : ∃ power ∈ tenExponents, BeginsAt (magnitude m e) power := by
  have hleast : binary64.minExponent = -1074 := by decide
  have hgreatest : maxExponent binary64 = 971 := by decide
  have hpos : 0 < magnitude m e := magnitude_pos_iff.2 hm.pos
  have hfirst : (2 : Rat) ^ 1074 < 10 ^ 324 := by
    exact_mod_cast (by decide +kernel : 2 ^ 1074 < 10 ^ 324)
  have hlast : (2 : Rat) ^ 53 * 2 ^ 971 < 10 ^ 309 := by
    exact_mod_cast (by decide +kernel : 2 ^ 53 * 2 ^ 971 < 10 ^ 309)
  have hle := Int.zpow_log_le_self (b := 10) (by norm_num) hpos
  have hlt := Int.lt_zpow_succ_log_self (b := 10) (by norm_num) (magnitude m e)
  push_cast at hle hlt
  refine ⟨Int.log 10 (magnitude m e), mem_tenExponents.2 ⟨?_, ?_⟩, ?_, hlt⟩
  · have hsmallest : (10 : Rat) ^ (-324 : Int) < magnitude m e :=
      calc (10 : Rat) ^ (-324 : Int) = (10 ^ 324)⁻¹ := zpow_neg_coe_of_pos 10 (by decide)
        _ < (2 ^ 1074)⁻¹ := inv_strictAnti₀ (by positivity) hfirst
        _ = 2 ^ (-1074 : Int) := (zpow_neg_coe_of_pos 2 (by decide)).symm
        _ ≤ 2 ^ e := zpow_le_zpow_right₀ one_le_two (hleast ▸ hm.le)
        _ ≤ magnitude m e := le_mul_of_one_le_left (by positivity) (by exact_mod_cast hm.pos)
    have hexponent := (zpow_lt_zpow_iff_right₀ (by norm_num)).1 (hsmallest.trans hlt)
    omega
  · have hlargest : magnitude m e < (10 : Rat) ^ (309 : Int) :=
      calc magnitude m e < 2 ^ 53 * 2 ^ e :=
            mul_lt_mul_of_pos_right (by exact_mod_cast hm.lt) (by positivity)
        _ ≤ 2 ^ 53 * 2 ^ (971 : Int) :=
          mul_le_mul_of_nonneg_left (zpow_le_zpow_right₀ one_le_two (hgreatest ▸ he)) (by norm_num)
        _ < (10 : Rat) ^ (309 : Int) := hlast
    have hexponent := (zpow_lt_zpow_iff_right₀ (by norm_num)).1 (hle.trans_lt hlargest)
    omega
  · exact (mul_le_of_le_one_right (by positivity) (by norm_num)).trans hle

theorem beginsAt_tenLog {x : Float} (hx : x.isFinite = true) (hpos : 0 < number x) :
    BeginsAt (number x) (tenLog x) := by
  obtain ⟨m, e, hm, hunpack, he⟩ := exists_positive (isOfFormat_of_isFinite hx) hpos
  have hnumber : number x = magnitude m e := by rw [number, hunpack]; rfl
  have hparts : parts x = .finite false m e := by rw [parts_eq, hunpack]; rfl
  rw [hnumber]
  unfold tenLog
  rw [hparts]
  dsimp only
  split
  next hmachine => exact beginsAt_iff.1 (hmachine.resolve_left hm.pos.ne')
  next =>
    obtain ⟨power, hmem, hbegins⟩ := exists_beginsAt hm he
    cases hfind : tenExponents.find? (beginsAt m e) with
    | some found => exact beginsAt_iff.1 (List.find?_some hfind)
    | none => exact absurd (beginsAt_iff.2 hbegins) (List.find?_eq_none.1 hfind power hmem)

theorem tenPower_mem (power : Int) : tenPower power ∈ nearTen power := by
  unfold tenPower
  dsimp only
  cases hfind : (nearTen power).find? (· == Float.pow 10 (Float.ofInt power)) with
  | some found => exact List.mem_of_find?_eq_some hfind
  | none => exact List.mem_cons_self

end PoolWatch
