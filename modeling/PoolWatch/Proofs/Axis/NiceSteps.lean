import Mathlib.Data.List.TakeWhile
import PoolWatch.Proofs.Axis.Extremes
import PoolWatch.Proofs.Axis.Scale
import PoolWatch.Proofs.Numeric.Ten
/-!
# Axes on which nothing overflows

A nice step is near to the number that it is chosen for.  So between two times of the thousand years
from 1970 on, the years of a step are few, and the ticks of the times are found; and a percentage
axis has steps of at least one, so that its labels need no decimal places.
-/

namespace PoolWatch

open PoolWatch.Numeric

/-! ## Nice steps -/

def niceFactors : List Float := [1, 2, 5, 10]

theorem exists_niceStep_eq {raw : Float} (hpos : 0 < raw) (hfinite : raw.isFinite = true) :
    ∃ factor ∈ niceFactors, niceStep raw = factor * tenPower (tenLog raw) := by
  unfold niceStep
  rw [if_pos ⟨hpos, hfinite⟩]
  dsimp only
  split_ifs
  · exact ⟨10, by simp [niceFactors], rfl⟩
  · exact ⟨5, by simp [niceFactors], rfl⟩
  · exact ⟨2, by simp [niceFactors], rfl⟩
  · exact ⟨1, by simp [niceFactors], rfl⟩

theorem tenLog_bounds {raw : Float} {a b : Int} (hfinite : raw.isFinite = true)
    (hlow : 10 ^ a ≤ number raw) (hhigh : number raw < 10 ^ b * (1 - 1 / 2 ^ 40)) :
    a ≤ tenLog raw ∧ tenLog raw < b := by
  have hpos : 0 < number raw := (zpow_pos (by norm_num) a).trans_le hlow
  obtain ⟨hle, hlt⟩ := beginsAt_tenLog hfinite hpos
  have hpart : (0 : Rat) < 1 - 1 / 2 ^ 40 := by norm_num
  refine ⟨?_, ?_⟩
  · exact Int.lt_add_one_iff.1 ((zpow_lt_zpow_iff_right₀ (by norm_num)).1 (hlow.trans_lt hlt))
  · have hpower := lt_of_mul_lt_mul_right (hle.trans_lt hhigh) hpart.le
    exact (zpow_lt_zpow_iff_right₀ (by norm_num)).1 hpower

theorem toSigned_nice_le : ∀ power ∈ [0, 1, 2], ∀ base ∈ nearTen power, ∀ factor ∈ niceFactors,
    (parts (factor * base)).toSigned .nearest ≤ 1000 := by
  decide +kernel

theorem one_le_nice : ∀ base ∈ nearTen 1, ∀ factor ∈ niceFactors, 1 ≤ factor * base := by
  decide +kernel

theorem lt_of_number_pos {x : Float} (hx : x.isFinite = true) (h : 0 < number x) : 0 < x := by
  have hzero : (0 : Float).isFinite = true := rfl
  refine float_lt_of_not_le (isOfFormat_of_isFinite hx).isNaN rfl fun hle => ?_
  exact absurd ((number_le_number_iff hx hzero).1 hle) (not_le_of_gt h)

theorem niceCount_le {raw : Float} (h : Lies 1 256 raw) : TimeStep.niceCount raw ≤ 1000 := by
  have hpos := lt_of_number_pos h.isFinite (one_pos.trans_le h.le)
  obtain ⟨factor, hfactor, hstep⟩ := exists_niceStep_eq hpos h.isFinite
  obtain ⟨hlow, hhigh⟩ : 0 ≤ tenLog raw ∧ tenLog raw < 3 :=
    tenLog_bounds h.isFinite ((zpow_zero 10).trans_le h.le) (h.ge.trans_lt (by norm_num))
  have hmem : tenLog raw ∈ [0, 1, 2] := by
    simp only [List.mem_cons, List.not_mem_nil, or_false]
    omega
  unfold TimeStep.niceCount
  rw [hstep]
  exact max_le (toSigned_nice_le _ hmem _ (tenPower_mem _) _ hfactor) (by decide)

theorem one_le_niceStep_ten : 1 ≤ niceStep 10 := by
  have hten : number 10 = 10 := number_ofNat (n := 10) (by decide)
  have hpos : (0 : Float) < 10 := by decide
  obtain ⟨factor, hfactor, hstep⟩ := exists_niceStep_eq hpos (by decide)
  obtain ⟨hlow, hhigh⟩ : 1 ≤ tenLog 10 ∧ tenLog 10 < 2 :=
    tenLog_bounds (by decide) (by norm_num [hten]) (by norm_num [hten])
  have hpower : tenLog 10 = 1 := by omega
  rw [hstep, hpower]
  exact one_le_nice _ (tenPower_mem 1) _ hfactor

/-! ## Times -/

namespace TimeStep

theorem years_le_of_choose {span : Float} (h : Lies 0 (2 ^ 45) span) {count : Int}
    (hyears : choose span = .years count) : count ≤ 1000 := by
  have hten : number targetTicks = 10 := number_ofNat (n := 10) (by decide)
  have hyear : number (Float.ofInt year) = 31536000000 :=
    number_ofNat (n := 31536000000) (by decide)
  have htarget : Lies 0 (2 ^ 42) (span / targetTicks) := by
    refine lies_div h.isFinite (by decide) (by rw [hten]; norm_num) isFloat_zero
      (isFloat_two_zpow (j := 42) (by decide) (by decide)) ?_ ?_
    · rw [hten]
      exact div_nonneg h.le (by norm_num)
    · rw [hten, div_le_iff₀ (by norm_num)]
      exact h.ge.trans (by norm_num)
  unfold choose at hyears
  dsimp only at hyears
  split at hyears
  next hall =>
    obtain rfl := TimeStep.years.inj hyears
    have hreached : Float.ofInt year ≤ span / targetTicks := by
      have hmem : (TimeStep.years 1, year) ∈ ladder := by decide
      simpa using List.dropWhile_eq_nil_iff.1 hall _ hmem
    have hle := (number_le_number_iff (by decide) htarget.isFinite).1 hreached
    refine niceCount_le (lies_div htarget.isFinite (by decide) (by rw [hyear]; norm_num)
      (isFloat_natCast (n := 1) (by decide)) (isFloat_natCast (n := 256) (by decide)) ?_ ?_)
    · rw [le_div_iff₀ (by rw [hyear]; norm_num), one_mul]
      exact hle
    · rw [hyear, div_le_iff₀ (by norm_num)]
      exact htarget.ge.trans (by norm_num)
  next => cases hyears
  next below above rest hbelow habove =>
    have hladder : ∀ s ∈ ladder, s.1 = .years count → count ≤ 1000 := by
      simp [ladder]
      omega
    have hmemBelow := (List.takeWhile_sublist _).mem (List.mem_of_getLast? hbelow)
    have hmemAbove := (List.dropWhile_sublist _).mem (habove ▸ List.mem_cons_self)
    split at hyears
    · exact hladder _ hmemBelow hyears
    · exact hladder _ hmemAbove hyears

end TimeStep

namespace Axis

variable {a : Axis} {lo hi : Float}

theorem exists_timeTicks (hoffset : a.utcOffset.natAbs < 86400) (hlo : Lies 0 (2 ^ 35) lo)
    (hhi : Lies 0 (2 ^ 35) hi) (hle : lo ≤ hi) (range : Float32 × Float32) :
    ∃ ticks, a.timeTicks (lo, hi) range = .ok ticks := by
  by_cases hlt : lo < hi
  · have hthousand : number (1000 : Float) = 1000 := number_ofNat (n := 1000) (by decide)
    have hbound : IsFloat (2 ^ 45) := isFloat_two_zpow (j := 45) (by decide) (by decide)
    have hmillis {x : Float} (hx : Lies 0 (2 ^ 35) x) : Lies 0 (2 ^ 45) (x * 1000) := by
      refine lies_mul hx.isFinite (by decide) isFloat_zero hbound ?_ ?_
      · rw [hthousand]
        exact mul_nonneg hx.le (by norm_num)
      · rw [hthousand]
        linarith [hx.ge]
    have hinstant {x : Float} (hx : Lies 0 (2 ^ 35) x) (r : Rounding) :
        Calendar.inRange ((parts (x * 1000)).toSigned r) := by
      have hlies : Lies ((0 : Int) : Rat) ((2 ^ 45 : Int) : Rat) (x * 1000) := by
        exact_mod_cast hmillis hx
      obtain ⟨hlow, hhigh⟩ := hlies.toSigned (by decide) (by decide) r
      have hfirst : Calendar.firstInstant ≤ 0 := by decide
      have hlast : (2 ^ 45 : Int) ≤ Calendar.lastInstant := by decide
      exact Calendar.inRange_iff.2 ⟨hfirst.trans hlow, hhigh.trans hlast⟩
    have hspan : Lies 0 (2 ^ 35) (hi - lo) := by
      refine lies_sub hhi.isFinite hlo.isFinite isFloat_zero
        (isFloat_two_zpow (j := 35) (by decide) (by decide)) ?_ ?_
      · exact sub_nonneg.2 ((number_le_number_iff hlo.isFinite hhi.isFinite).1 hle)
      · exact (sub_le_self _ hlo.le).trans hhi.ge
    have hsurvives := TimeStep.survives_of_inRange (TimeStep.isProper_choose ((hi - lo) * 1000))
      hoffset (hinstant hlo .up) (hinstant hhi .down) fun count hyears => by
        have hfew := TimeStep.years_le_of_choose (hmillis hspan) hyears
        simp only [signedMax]
        omega
    obtain ⟨ts, hts⟩ := (TimeStep.exists_instants_iff (TimeStep.isProper_choose _) hoffset
      (Parts.le_toSigned _ _) (Parts.toSigned_le _ _)).2 hsurvives
    exact ⟨_, (timeTicks_eq_ok_iff hlo.isFinite hhi.isFinite hlt).2 ⟨ts, hts, rfl⟩⟩
  · have hordered : ordered (lo, hi) = (lo, hi) := if_pos hle
    have hsame : hi ≤ lo := float_le_of_not_lt hlo.isNaN hhi.isNaN hlt
    unfold timeTicks
    rw [hordered]
    dsimp only
    rw [if_pos ⟨hlo.isFinite, hhi.isFinite⟩, if_pos hsame]
    exact ⟨_, rfl⟩

theorem exists_valueTicks_percent (a : Axis) (range : Float32 × Float32) :
    ∃ ticks, a.valueTicks (0, 100) range = .ok ticks := by
  have hordered : ordered (0, 100) = (0, 100) := if_pos (by decide)
  have htenth : ((100 : Float) - 0) / TimeStep.targetTicks = 10 := by decide +kernel
  have hvalid : ∀ i ∈ multiples 0 100 (niceStep 10),
      ∃ t, valueTick (0, 100) range (niceStep 10) i = .ok t :=
    fun i _ => exists_valueTick one_le_niceStep_ten i
  obtain ⟨ts, hts⟩ := exists_mapM hvalid
  refine ⟨Tick.thin a.minPitch ts, ?_⟩
  unfold valueTicks
  rw [hordered]
  dsimp only
  rw [if_pos ⟨by decide, by decide⟩, if_neg (by decide), htenth, hts]
  rfl

end Axis

end PoolWatch
