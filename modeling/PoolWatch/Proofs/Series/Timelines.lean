import Mathlib.Data.Finset.Card
import PoolWatch.Proofs.Axis.NiceSteps
import PoolWatch.Proofs.Pool.ClockTimes
import PoolWatch.Proofs.Series.Budget
import PoolWatch.Proofs.Series.Extents
/-!
# Series of clock times

A series of clock times that goes forward is not too dense for its offset to be small, and there are
not enough such times for it to be long.  So whatever its values are, nothing overflows in a chart
of percentages.
-/

namespace PoolWatch

open PoolWatch.Numeric

namespace Series

/-- Points at clock times that go forward. -/
structure IsTimeline (points : List Point) : Prop where
  isClockTime : ∀ p ∈ points, IsClockTime p.x
  ascending : points.Pairwise fun p q => number p.x < number q.x

theorem add_length_mul_le {e : Int} {first : Point} {rest : List Point}
    (hunits : ∀ p ∈ first :: rest, InUnits e p.x)
    (hascending : (first :: rest).Pairwise fun p q => number p.x < number q.x) {last : Point}
    (hlast : (first :: rest).getLast? = some last) :
    number first.x + rest.length * 2 ^ e ≤ number last.x := by
  induction rest generalizing first with
  | nil =>
    obtain rfl : first = last := by simpa using hlast
    simp
  | cons next rest ih =>
    obtain ⟨hfirst, hrest⟩ := List.forall_mem_cons.1 hunits
    obtain ⟨hbefore, hascending⟩ := List.pairwise_cons.1 hascending
    have hlater := ih hrest hascending (by simpa using hlast)
    have hstep := add_le_of_inUnits hfirst (hrest next List.mem_cons_self)
      (hbefore next List.mem_cons_self)
    rw [List.length_cons, Nat.cast_add, Nat.cast_one]
    linarith

/-! ## Offsets -/

theorem lies_spacing {x y : Float} {e : Int} {n : Nat} (hx : Lies 0 (2 ^ 35) x)
    (hy : Lies 0 (2 ^ 35) y) (hn : 0 < n) (hmax : n ≤ unsignedMax) (hlow : -82 ≤ e)
    (hspread : number x + n * 2 ^ e ≤ number y) :
    Lies (2 ^ (e - 1)) (2 ^ 35) ((y - x) / Float.ofNat n) := by
  have hpower : 2 ^ n.log2 ≤ n := Nat.log2_self_le hn.ne'
  have hpower' : n < 2 ^ (n.log2 + 1) := Nat.lt_log2_self
  have hlog : n.log2 < 64 := (Nat.log2_lt hn.ne').2 (Nat.lt_succ_of_le hmax)
  have hbound : IsFloat (2 ^ 35) := isFloat_two_zpow (j := 35) (by decide) (by decide)
  have hscaled : (2 : Rat) ^ (n.log2 + e) ≤ number y - number x := by
    rw [zpow_add₀ two_ne_zero, zpow_natCast]
    have hfew : (2 : Rat) ^ n.log2 * 2 ^ e ≤ n * 2 ^ e :=
      mul_le_mul_of_nonneg_right (by exact_mod_cast hpower) (by positivity)
    linarith
  have hwidth : number y - number x ≤ 2 ^ 35 := by linarith [hx.le, hy.ge]
  have hexponent : (n.log2 : Int) + e ≤ 35 :=
    (zpow_le_zpow_iff_right₀ one_lt_two).1 (hscaled.trans hwidth)
  have hdifference : Lies (2 ^ (n.log2 + e)) (2 ^ 35) (y - x) :=
    lies_sub hy.isFinite hx.isFinite (isFloat_two_zpow (by omega) (by omega)) hbound hscaled hwidth
  have hcount : Lies 1 (2 ^ ((n.log2 : Int) + 1)) (Float.ofNat n) := by
    refine lies_ofNat hmax (isFloat_natCast (n := 1) (by decide))
      (isFloat_two_zpow (by omega) (by omega)) (by exact_mod_cast hn) ?_
    exact_mod_cast hpower'.le
  have hpos : 0 < number (Float.ofNat n) := one_pos.trans_le hcount.le
  refine lies_div hdifference.isFinite hcount.isFinite hpos.ne'
    (isFloat_two_zpow (by omega) (by omega)) hbound ?_ ?_
  · rw [le_div_iff₀ hpos]
    calc (2 : Rat) ^ (e - 1) * number (Float.ofNat n)
        ≤ 2 ^ (e - 1) * 2 ^ ((n.log2 : Int) + 1) :=
          mul_le_mul_of_nonneg_left hcount.ge (by positivity)
      _ = 2 ^ (n.log2 + e) := by
        rw [← zpow_add₀ two_ne_zero]
        congr 1
        omega
      _ ≤ number (y - x) := hdifference.le
  · rw [div_le_iff₀ hpos]
    exact hdifference.ge.trans (le_mul_of_one_le_right (by positivity) hcount.le)

theorem lies_steps {x origin spacing : Float} {m : Nat} {e : Int} (hx : Lies 0 (2 ^ 35) x)
    (horigin : origin.isFinite = true) (hnonneg : 0 ≤ number origin)
    (hle : number origin ≤ number x) (hm : m < 2 ^ 53) (hnumber : number x = m * 2 ^ e)
    (hspacing : Lies (2 ^ (e - 1)) (2 ^ 35) spacing) :
    Lies 0 (2 ^ 54 : Nat) ((x - origin) / spacing) := by
  have hpos : 0 < number spacing := (zpow_pos two_pos _).trans_le hspacing.le
  have hlead : Lies 0 (number x) (x - origin) :=
    lies_sub hx.isFinite horigin isFloat_zero (isFloat_number hx.isFinite) (sub_nonneg.2 hle)
      (sub_le_self _ hnonneg)
  refine lies_div hlead.isFinite hspacing.isFinite hpos.ne' isFloat_zero ?_
    (div_nonneg hlead.le hpos.le) ?_
  · exact_mod_cast isFloat_two_zpow (j := 54) (by decide) (by decide)
  · rw [div_le_iff₀ hpos]
    calc number (x - origin) ≤ m * 2 ^ e := hlead.ge.trans_eq hnumber
      _ ≤ 2 ^ 53 * 2 ^ e := mul_le_mul_of_nonneg_right (by exact_mod_cast hm.le) (by positivity)
      _ = (2 ^ 54 : Nat) * 2 ^ (e - 1) := by
        rw [zpow_sub_one₀ two_ne_zero]
        push_cast
        ring
      _ ≤ (2 ^ 54 : Nat) * number spacing := mul_le_mul_of_nonneg_left hspacing.le (by positivity)

theorem stepsFrom_le {origin : Float} {points : List Point} (h : IsTimeline points)
    (hlength : points.length ≤ unsignedMax) (horigin : origin.isFinite = true)
    (hnonneg : 0 ≤ number origin) (hfirst : ∀ p ∈ points, number origin ≤ number p.x) :
    stepsFrom origin points ≤ 2 ^ 54 := by
  cases points with
  | nil => exact Nat.zero_le _
  | cons first rest =>
    obtain ⟨last, hlast⟩ : ∃ last, (first :: rest).getLast? = some last :=
      ⟨_, List.getLast?_eq_some_getLast (List.cons_ne_nil first rest)⟩
    unfold stepsFrom
    rw [List.head?_cons, hlast]
    dsimp only
    split
    · exact Nat.zero_le _
    next hlong =>
      rw [not_or] at hlong
      have hmem := List.mem_of_getLast? hlast
      have hstart := h.isClockTime first List.mem_cons_self
      have hend := h.isClockTime last hmem
      obtain ⟨m, e, hm, hlow, hfirstEq, hunits⟩ := hstart.exists_unit
      have hspread : number first.x + rest.length * 2 ^ e ≤ number last.x := by
        refine add_length_mul_le (fun p hp => ?_) h.ascending hlast
        obtain rfl | hp' := List.mem_cons.1 hp
        · exact ⟨m, hfirstEq⟩
        · exact hunits _ (h.isClockTime p hp) (List.rel_of_pairwise_cons h.ascending hp').le
      have hrest : 0 < rest.length := by
        rw [List.length_cons] at hlong
        omega
      rw [List.length_cons] at hlength
      rw [List.length_cons, Nat.add_sub_cancel]
      have hspacing := lies_spacing hstart.lies hend.lies hrest (by omega) hlow hspread
      exact (lies_steps hstart.lies horigin hnonneg (hfirst _ List.mem_cons_self) hm hfirstEq
        hspacing).toUnsigned_le (n := 2 ^ 54) .nearest

/-! ## Lengths -/

theorem IsTimeline.length_le {points : List Point} (h : IsTimeline points) :
    points.length ≤ 2 ^ 60 := by
  have hplaces : (points.map fun p => clockPlace p.x).Pairwise (· < ·) := by
    rw [List.pairwise_map]
    exact h.ascending.imp_of_mem fun hp hq =>
      clockPlace_lt_clockPlace (h.isClockTime _ hp) (h.isClockTime _ hq)
  have hnodup : (points.map fun p => clockPlace p.x).Nodup := hplaces.imp fun hlt => hlt.ne
  have hsubset : (points.map fun p => clockPlace p.x).toFinset ⊆ Finset.range (2 ^ 60) := by
    intro place hplace
    obtain ⟨p, hp, rfl⟩ := List.mem_map.1 (List.mem_toFinset.1 hplace)
    exact Finset.mem_range.2 (clockPlace_lt (h.isClockTime p hp))
  calc points.length = (points.map fun p => clockPlace p.x).length := (List.length_map _).symm
    _ = (points.map fun p => clockPlace p.x).toFinset.card :=
      (List.toFinset_card_of_nodup hnodup).symm
    _ ≤ (Finset.range (2 ^ 60)).card := Finset.card_le_card hsubset
    _ = 2 ^ 60 := Finset.card_range _

/-! ## Series of a chart -/

section

variable {series : List Series} {d : Float × Float}

theorem lies_domain (hseries : ∀ s ∈ series, IsTimeline s.points) (h : domain series = some d) :
    Lies 0 (2 ^ 35) d.1 ∧ Lies 0 (2 ^ 35) d.2 ∧ d.1 ≤ d.2 ∧
      ∀ s ∈ series, ∀ p ∈ s.points, number d.1 ≤ number p.x := by
  have hclock : ∀ p ∈ allPoints series, IsClockTime p.x := fun p hp => by
    obtain ⟨s, hs, hp⟩ := mem_allPoints.1 hp
    exact (hseries s hs).isClockTime p hp
  have hspans := spans_domain (fun p hp => (hclock p hp).lies.isNaN) h
  obtain ⟨p, hp, hple⟩ := hspans.exists_le
  obtain ⟨q, hq, hqge⟩ := hspans.exists_ge
  have hp' := (hclock p hp).lies
  have hq' := (hclock q hq).lies
  have hfirst := Lies.of_le_of_le hp'.isFinite hp'.isFinite hple (hspans.fst_le p hp)
  have hlast := Lies.of_le_of_le hq'.isFinite hq'.isFinite (hspans.le_snd q hq) hqge
  refine ⟨⟨hfirst.isFinite, hp'.le.trans hfirst.le, hfirst.ge.trans hp'.ge⟩,
    ⟨hlast.isFinite, hq'.le.trans hlast.le, hlast.ge.trans hq'.ge⟩,
    float_le_trans (hspans.fst_le p hp) (hspans.le_snd p hp), fun s hs r hr => ?_⟩
  have hmem : r ∈ allPoints series := mem_allPoints.2 ⟨s, hs, hr⟩
  exact (number_le_number_iff hfirst.isFinite (hclock r hmem).lies.isFinite).1
    (hspans.fst_le r hmem)

end

end Series

namespace Chart

variable {c : Chart} {series : List Series}

theorem offset_add_length_le (hoffset : ∀ s ∈ series, s.offset = 0)
    (hseries : ∀ s ∈ series, Series.IsTimeline s.points) :
    ∀ s ∈ aligned series, s.offset + s.points.length ≤ unsignedMax := by
  have hlength : ∀ s ∈ series, s.points.length ≤ 2 ^ 60 := fun s hs => (hseries s hs).length_le
  have hshort : 2 ^ 54 + 2 ^ 60 ≤ unsignedMax := by decide
  intro s hs
  unfold aligned at hs
  split at hs
  next origin last hdomain =>
    obtain ⟨t, ht, rfl⟩ := List.mem_map.1 hs
    obtain ⟨horigin, -, -, hfirst⟩ := Series.lies_domain hseries hdomain
    have hlong := hlength t ht
    have hsteps : Series.stepsFrom origin t.points ≤ 2 ^ 54 :=
      Series.stepsFrom_le (hseries t ht) (by omega) horigin.isFinite horigin.le (hfirst t ht)
    unfold Series.align
    split
    · rw [hoffset t ht]
      omega
    · show Series.stepsFrom origin t.points + t.points.length ≤ unsignedMax
      omega
  next =>
    have := hlength s hs
    rw [hoffset s hs]
    omega

/-- Series of clock times have a chart of percentages, whatever their values are. -/
theorem exists_picture (haxis : c.axis.utcOffset.natAbs < 86400)
    (hrange : c.valueRange = some (0, 100)) (hoffset : ∀ s ∈ series, s.offset = 0)
    (hseries : ∀ s ∈ series, Series.IsTimeline s.points) (maxPoints : Nat) (xLabel : String) :
    ∃ p, c.picture series maxPoints xLabel = .ok p := by
  obtain ⟨lines, hlines⟩ :=
    Series.exists_reduce (offset_add_length_le hoffset hseries) maxPoints none
  obtain ⟨xTicks, hx⟩ : ∃ ticks, ticksOf (Series.domain series)
      (fun d => c.axis.timeTicks d c.xRange) = .ok ticks := by
    cases hdomain : Series.domain series with
    | none => exact ⟨[], rfl⟩
    | some d =>
      obtain ⟨hfirst, hlast, hle, -⟩ := Series.lies_domain hseries hdomain
      exact Axis.exists_timeTicks haxis hfirst hlast hle c.xRange
  have hvalues : c.valueDomain lines = some (0, 100) := by
    unfold valueDomain
    rw [hrange]
    exact congrArg some (if_pos (by decide))
  obtain ⟨yTicks, hy⟩ := c.axis.exists_valueTicks_percent c.yRange
  refine ⟨_, picture_eq_ok_iff.2 ⟨lines, hlines, xTicks, hx, yTicks, ?_, rfl⟩⟩
  rw [hvalues, ticksOf]
  exact hy

end Chart

end PoolWatch
