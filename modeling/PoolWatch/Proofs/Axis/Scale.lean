import PoolWatch.Proofs.Axis.Pitch
import PoolWatch.Proofs.Numeric.FloatSum
import PoolWatch.Proofs.Series.Budget
/-!
# The scale of a chart

The points of the lines of a chart and the ticks of its axes are placed by two mappings.  One looks
at the width of a range, the other one brings the ends of the range in order first.  They place a
value at the same pixel, unless the range is reversed: then the lines are flat, and the ticks are
not.
-/

namespace PoolWatch

open PoolWatch.Numeric

/-! ## Ranges in order -/

section

variable {x y : Float}

theorem lesser_le_left (hx : x.isNaN = false) (hy : y.isNaN = false) : lesser x y ≤ x := by
  unfold lesser
  rw [hy, Bool.false_or]
  by_cases hlt : x < y
  · rw [if_pos (decide_eq_true hlt)]
    exact float_le_iff.2 ⟨hx, hx, le_rfl⟩
  · rw [if_neg (by simpa using hlt)]
    exact float_le_of_not_lt hx hy hlt

theorem le_greater_left (hx : x.isNaN = false) (hy : y.isNaN = false) : x ≤ greater x y := by
  unfold greater
  rw [hy, Bool.false_or]
  by_cases hlt : y < x
  · rw [if_pos (decide_eq_true hlt)]
    exact float_le_iff.2 ⟨hx, hx, le_rfl⟩
  · rw [if_neg (by simpa using hlt)]
    exact float_le_of_not_lt hy hx hlt

theorem lesser_le_right (hy : y.isNaN = false) : lesser x y ≤ y := by
  unfold lesser
  rw [hy, Bool.false_or]
  by_cases hlt : x < y
  · rw [if_pos (decide_eq_true hlt)]
    exact float_le_of_lt hlt
  · rw [if_neg (by simpa using hlt)]
    exact float_le_iff.2 ⟨hy, hy, le_rfl⟩

theorem le_greater_right (hy : y.isNaN = false) : y ≤ greater x y := by
  unfold greater
  rw [hy, Bool.false_or]
  by_cases hlt : y < x
  · rw [if_pos (decide_eq_true hlt)]
    exact float_le_of_lt hlt
  · rw [if_neg (by simpa using hlt)]
    exact float_le_iff.2 ⟨hy, hy, le_rfl⟩

theorem lesser_eq_or (x y : Float) : lesser x y = x ∨ lesser x y = y := ite_eq_or_eq _ _ _

theorem greater_eq_or (x y : Float) : greater x y = x ∨ greater x y = y := ite_eq_or_eq _ _ _

theorem lesser_of_isNaN_left (hx : x.isNaN = true) (hy : y.isNaN = false) : lesser x y = y := by
  have hlt : ¬x < y := fun h =>
    Bool.false_ne_true ((float_lt_iff.1 h).1.symm.trans hx)
  unfold lesser
  rw [hy, Bool.false_or, if_neg (by simpa using hlt)]

theorem greater_of_isNaN_left (hx : x.isNaN = true) (hy : y.isNaN = false) : greater x y = y := by
  have hlt : ¬y < x := fun h =>
    Bool.false_ne_true ((float_lt_iff.1 h).2.1.symm.trans hx)
  unfold greater
  rw [hy, Bool.false_or, if_neg (by simpa using hlt)]

theorem lesser_of_isNaN_right (hy : y.isNaN = true) : lesser x y = x := by
  unfold lesser
  rw [hy, Bool.true_or, if_pos rfl]

theorem greater_of_isNaN_right (hy : y.isNaN = true) : greater x y = x := by
  unfold greater
  rw [hy, Bool.true_or, if_pos rfl]

end

/-- The ends of a range are in order, or neither of them is a number. -/
def IsRange (r : Float × Float) : Prop :=
  r.1 ≤ r.2 ∨ r.1.isNaN = true ∧ r.2.isNaN = true

theorem IsRange.not_lt {r : Float × Float} (h : IsRange r) : ¬r.2 < r.1 := by
  obtain hle | ⟨-, hnan⟩ := h
  · exact not_float_lt_of_le hle
  · intro hlt
    rw [(float_lt_iff.1 hlt).1] at hnan
    cases hnan

theorem isRange_self (x : Float) : IsRange (x, x) := by
  cases hx : x.isNaN with
  | true => exact .inr ⟨hx, hx⟩
  | false => exact .inl (float_le_iff.2 ⟨hx, hx, le_rfl⟩)

theorem isRange_join {h r : Float × Float} (hh : IsRange h) (hr : IsRange r) :
    IsRange (lesser h.1 r.1, greater h.2 r.2) := by
  obtain hrle | ⟨hr₁, hr₂⟩ := hr
  · obtain ⟨hr₁, hr₂, -⟩ := float_le_iff.1 hrle
    obtain hhle | ⟨hh₁, hh₂⟩ := hh
    · obtain ⟨hh₁, hh₂, -⟩ := float_le_iff.1 hhle
      refine .inl ?_
      calc lesser h.1 r.1
          ≤ h.1 := lesser_le_left hh₁ hr₁
        _ ≤ h.2 := hhle
        _ ≤ greater h.2 r.2 := le_greater_left hh₂ hr₂
    · rw [lesser_of_isNaN_left hh₁ hr₁, greater_of_isNaN_left hh₂ hr₂]
      exact .inl hrle
  · rw [lesser_of_isNaN_right hr₁, greater_of_isNaN_right hr₂]
    exact hh

theorem isRange_hull {rs : List (Float × Float)} (hrs : ∀ r ∈ rs, IsRange r) {d : Float × Float}
    (h : Series.hull rs = some d) : IsRange d := by
  have hjoined : ∀ (rs : List (Float × Float)) (start : Float × Float), IsRange start →
      (∀ r ∈ rs, IsRange r) →
        IsRange (rs.foldl (fun h r => (lesser h.1 r.1, greater h.2 r.2)) start) := by
    intro rs
    induction rs with
    | nil => exact fun _ hstart _ => hstart
    | cons r rs ih =>
      intro start hstart hrs
      obtain ⟨hr, hrs⟩ := List.forall_mem_cons.1 hrs
      exact ih _ (isRange_join hstart hr) hrs
  cases rs with
  | nil => cases h
  | cons r rs =>
    obtain ⟨hr, hrs⟩ := List.forall_mem_cons.1 hrs
    obtain rfl := Option.some.inj h
    exact hjoined rs r hr hrs

theorem isRange_timeExtent {points : List Point} {d : Float × Float}
    (h : Series.timeExtent points = some d) : IsRange d := by
  refine isRange_hull (fun r hr => ?_) h
  obtain ⟨p, -, rfl⟩ := List.mem_map.1 hr
  exact isRange_self p.x

theorem isRange_domain {series : List Series} {d : Float × Float}
    (h : Series.domain series = some d) : IsRange d := by
  refine isRange_hull (fun r hr => ?_) h
  obtain ⟨s, -, hs⟩ := List.mem_filterMap.1 hr
  exact isRange_timeExtent hs

theorem isRange_valueExtent {lines : List Line} {d : Float × Float}
    (h : Chart.valueExtent lines = some d) : IsRange d := by
  refine isRange_hull (fun r hr => ?_) h
  obtain ⟨l, -, hr⟩ := List.mem_flatMap.1 hr
  obtain ⟨p, -, rfl⟩ := List.mem_map.1 hr
  exact isRange_self p.y

/-- A range that is made higher is not turned round: its ends move apart. -/
theorem not_widened_lt {r : Float × Float} (hr : ¬r.2 < r.1) :
    ¬(Chart.widened r).2 < (Chart.widened r).1 := by
  unfold Chart.widened
  split
  · exact hr
  · intro hlt
    obtain ⟨hhi, hlo, -⟩ := float_lt_iff.1 hlt
    have hone : (1 : Float).isFinite = true := by decide
    have hnonneg : (0 : Float) ≤ 1 := by decide
    apply hr
    calc r.2
        ≤ r.2 + 1 := le_add_of_zero_le (isNaN_of_add hhi) hone hnonneg
      _ < r.1 - 1 := hlt
      _ ≤ r.1 := sub_le_of_zero_le (isNaN_of_sub hlo) hone hnonneg

/-! ## Ticks -/

namespace Axis

variable {a : Axis} {domain : Float × Float} {range : Float32 × Float32} {ticks : List Tick}

/-- Every tick stands where the lines have a point with its value. -/
def OnScale (domain : Float × Float) (range : Float32 × Float32) (ticks : List Tick) : Prop :=
  ∀ t ∈ ticks, t.px = Chart.place t.value domain range

theorem place_eq_position {lo hi : Float} (hlo : lo.isFinite = true) (hhi : hi.isFinite = true)
    (h : ¬hi ≤ lo) (value : Float) :
    Chart.place value (lo, hi) range = position value (lo, hi) range := by
  have hwidth : ¬hi - lo ≤ 0 := fun hle => h ((sub_le_zero_iff hhi hlo).1 hle)
  exact if_neg hwidth

theorem place_eq_middle {lo hi : Float} (h : hi - lo ≤ 0) (value : Float) :
    Chart.place value (lo, hi) range = middle range :=
  if_pos h

section

variable {lo hi : Float} (hlo : lo.isFinite = true) (hhi : hi.isFinite = true)

include hlo hhi

/-- The tick of a range without width stands where the lines are flat. -/
theorem onScale_middle (hle : hi ≤ lo) (label : String) :
    OnScale (lo, hi) range [⟨lo, middle range, label⟩] := by
  intro t ht
  obtain rfl := List.mem_singleton.1 ht
  exact (place_eq_middle ((sub_le_zero_iff hhi hlo).2 hle) lo).symm

theorem onScale_thin (hlt : ¬hi ≤ lo)
    (hticks : ∀ t ∈ ticks, t.px = position t.value (lo, hi) range) (pitch : Float32) :
    OnScale (lo, hi) range (Tick.thin pitch ticks) := by
  intro t ht
  have hmem : t ∈ ticks := (Tick.thin_sublist pitch ticks).subset ht
  exact (hticks t hmem).trans (place_eq_position hlo hhi hlt t.value).symm

end

theorem onScale_nil : OnScale domain range [] := fun _ ht => absurd ht List.not_mem_nil

theorem onScale_timeTicks (h : a.timeTicks domain range = .ok ticks) :
    OnScale (ordered domain) range ticks := by
  unfold timeTicks at h
  dsimp only at h
  split at h
  next hfinite =>
    split at h
    next hle =>
      obtain rfl := Except.ok.inj h
      exact onScale_middle hfinite.1 hfinite.2 hle _
    next hlt =>
      obtain ⟨instants, -, rfl⟩ := map_eq_ok_iff.1 h
      refine onScale_thin hfinite.1 hfinite.2 hlt (fun t ht => ?_) a.minPitch
      obtain ⟨instant, -, rfl⟩ := List.mem_map.1 ht
      rfl
  next =>
    obtain rfl := Except.ok.inj h
    exact onScale_nil

theorem px_of_valueTick {step : Float} {i : Int} {t : Tick}
    (h : valueTick domain range step i = .ok t) : t.px = position t.value domain range := by
  unfold valueTick at h
  obtain ⟨label, -, rfl⟩ := map_eq_ok_iff.1 h
  rfl

theorem onScale_valueTicks (h : a.valueTicks domain range = .ok ticks) :
    OnScale (ordered domain) range ticks := by
  unfold valueTicks at h
  dsimp only at h
  split at h
  next hfinite =>
    split at h
    next hle =>
      obtain ⟨label, -, rfl⟩ := map_eq_ok_iff.1 h
      exact onScale_middle hfinite.1 hfinite.2 hle label
    next hlt =>
      obtain ⟨all, hall, rfl⟩ := map_eq_ok_iff.1 h
      refine onScale_thin hfinite.1 hfinite.2 hlt (fun t ht => ?_) a.minPitch
      obtain ⟨i, -, hi⟩ := exists_of_mem_mapM hall ht
      exact px_of_valueTick hi
  next =>
    obtain rfl := Except.ok.inj h
    exact onScale_nil

/-! ## Steps of at least one -/

theorem exists_valueTick {step : Float} (h : 1 ≤ step) (i : Int) :
    ∃ t, valueTick domain range step i = .ok t := by
  have hplaces : placesFor step = 0 := if_pos h
  unfold valueTick valueLabel
  dsimp only
  rw [hplaces, if_neg (Nat.not_lt_zero maxPlaces)]
  exact ⟨_, rfl⟩

theorem exists_valueTicks {lo hi step : Float} (hordered : ordered domain = (lo, hi))
    (hfinite : lo.isFinite ∧ hi.isFinite) (hlt : ¬hi ≤ lo)
    (hstep : niceStep ((hi - lo) / TimeStep.targetTicks) = step) (hone : 1 ≤ step) {i : Int}
    (hfirst : (multiples lo hi step).head? = some i) {t : Tick}
    (ht : valueTick (lo, hi) range step i = .ok t) :
    ∃ ticks, a.valueTicks domain range = .ok ticks ∧ t ∈ ticks := by
  obtain ⟨is, his⟩ := List.head?_eq_some_iff.1 hfirst
  have hvalid : ∀ i ∈ is, ∃ t, valueTick (lo, hi) range step i = .ok t :=
    fun i _ => exists_valueTick hone i
  obtain ⟨ts, hts⟩ := exists_mapM hvalid
  have hall : (multiples lo hi step).mapM (valueTick (lo, hi) range step) = .ok (t :: ts) := by
    rw [his, List.mapM_cons, ht, hts]
    rfl
  refine ⟨Tick.thin a.minPitch (t :: ts), ?_, ?_⟩
  · unfold valueTicks
    rw [hordered]
    dsimp only
    rw [if_pos hfinite, if_neg hlt, hstep, hall]
    rfl
  · exact List.mem_of_mem_head? (Tick.head?_thin _ _)

/-! ## Ranges that are in order already -/

theorem isNaN_of_isFinite {x : Float} (h : x.isFinite = true) : x.isNaN = false :=
  (isOfFormat_of_isFinite h).isNaN

theorem ordered_eq (hdomain : ¬domain.2 < domain.1) (hlo : (ordered domain).1.isFinite = true)
    (hhi : (ordered domain).2.isFinite = true) : ordered domain = domain := by
  by_cases hle : domain.1 ≤ domain.2
  · exact if_pos hle
  · have hswapped : ordered domain = (domain.2, domain.1) := if_neg hle
    rw [hswapped] at hlo hhi
    exact absurd (float_lt_of_not_le (isNaN_of_isFinite hhi) (isNaN_of_isFinite hlo) hle) hdomain

theorem OnScale.of_ordered (h : OnScale (ordered domain) range ticks)
    (hdomain : ¬domain.2 < domain.1)
    (hnone : ¬((ordered domain).1.isFinite = true ∧ (ordered domain).2.isFinite = true) →
      ticks = []) : OnScale domain range ticks := by
  by_cases hfinite : (ordered domain).1.isFinite = true ∧ (ordered domain).2.isFinite = true
  · rwa [ordered_eq hdomain hfinite.1 hfinite.2] at h
  · rw [hnone hfinite]
    exact onScale_nil

theorem onScale_timeTicks_of_not_lt (h : a.timeTicks domain range = .ok ticks)
    (hdomain : ¬domain.2 < domain.1) : OnScale domain range ticks := by
  apply (onScale_timeTicks h).of_ordered hdomain
  intro hinfinite
  have hnone : a.timeTicks domain range = .ok [] := if_neg hinfinite
  exact Except.ok.inj (h.symm.trans hnone)

theorem onScale_valueTicks_of_not_lt (h : a.valueTicks domain range = .ok ticks)
    (hdomain : ¬domain.2 < domain.1) : OnScale domain range ticks := by
  apply (onScale_valueTicks h).of_ordered hdomain
  intro hinfinite
  have hnone : a.valueTicks domain range = .ok [] := if_neg hinfinite
  exact Except.ok.inj (h.symm.trans hnone)

end Axis

/-! ## Charts -/

namespace Chart

variable {c : Chart} {series : List Series} {maxPoints : Nat} {xLabel : String} {p : Picture}

theorem ticksOf_some (d : Float × Float) (f : Float × Float → Except Overflow (List Tick)) :
    ticksOf (some d) f = f d :=
  rfl

theorem exists_domain_of_mem_ticksOf {domain : Option (Float × Float)}
    {f : Float × Float → Except Overflow (List Tick)} {ticks : List Tick}
    (h : ticksOf domain f = .ok ticks) {t : Tick} (ht : t ∈ ticks) :
    ∃ d ∈ domain, f d = .ok ticks := by
  cases domain with
  | none =>
    obtain rfl := Except.ok.inj h
    exact absurd ht List.not_mem_nil
  | some d => exact ⟨d, rfl, h⟩

theorem place_of_lt {d : Float × Float} (h : d.2 < d.1) (value : Float)
    (range : Float32 × Float32) : place value d range = Axis.middle range :=
  Axis.place_eq_middle (sub_le_zero_of_lt h) value

theorem not_valueDomain_lt (h : ∀ r ∈ c.valueRange, ¬r.2 < r.1) {lines : List Line}
    {values : Float × Float} (hvalues : values ∈ c.valueDomain lines) :
    ¬values.2 < values.1 := by
  obtain ⟨r, hr, rfl⟩ := Option.map_eq_some_iff.1 hvalues
  apply not_widened_lt
  obtain hgiven | ⟨-, hextent⟩ := Option.or_eq_some_iff.1 hr
  · exact h r hgiven
  · exact (isRange_valueExtent hextent).not_lt

/-- Every tick of a chart stands where the lines have a point with its value, or would have it,
unless the range of values is reversed.  Then the ticks stand on the scale of the range in order,
and all points of the lines in the middle. -/
theorem ticks_keep_scale (h : c.picture series maxPoints xLabel = .ok p) :
    ∃ lines, Series.reduce (aligned series) maxPoints none = .ok lines ∧
      (∀ times ∈ Series.domain series, ∀ values ∈ c.valueDomain lines,
        p.lines = lines.map (c.polyline times values)) ∧
      (∀ t ∈ p.xAxis.ticks, ∃ times ∈ Series.domain series, t.px = place t.value times c.xRange) ∧
      (∀ t ∈ p.yAxis.ticks, ∃ values ∈ c.valueDomain lines,
        t.px = place t.value (Axis.ordered values) c.yRange ∧
        (¬values.2 < values.1 → t.px = place t.value values c.yRange)) ∧
      (∀ values ∈ c.valueDomain lines,
        ((∀ r ∈ c.valueRange, ¬r.2 < r.1) → ¬values.2 < values.1) ∧
        (values.2 < values.1 → ∀ l ∈ p.lines, ∀ q ∈ l.points, q.y = Axis.middle c.yRange)) := by
  obtain ⟨lines, hlines, xTicks, hx, yTicks, hy, rfl⟩ := picture_eq_ok_iff.1 h
  have hdrawn : ∀ times ∈ Series.domain series, ∀ values ∈ c.valueDomain lines,
      (c.laidOut series xLabel lines xTicks yTicks).lines =
        lines.map (c.polyline times values) := by
    intro times htimes values hvalues
    have htimes : Series.domain series = some times := htimes
    have hvalues : c.valueDomain lines = some values := hvalues
    rw [laidOut, htimes, hvalues]
  refine ⟨lines, hlines, hdrawn, fun t ht => ?_, fun t ht => ?_, fun values hvalues => ?_⟩
  · obtain ⟨times, htimes, hticks⟩ := exists_domain_of_mem_ticksOf hx ht
    exact ⟨times, htimes,
      Axis.onScale_timeTicks_of_not_lt hticks (isRange_domain htimes).not_lt t ht⟩
  · obtain ⟨values, hvalues, hticks⟩ := exists_domain_of_mem_ticksOf hy ht
    exact ⟨values, hvalues, Axis.onScale_valueTicks hticks t ht,
      fun hrange => Axis.onScale_valueTicks_of_not_lt hticks hrange t ht⟩
  · refine ⟨fun hgiven => not_valueDomain_lt hgiven hvalues, fun hreversed l hl q hq => ?_⟩
    obtain ⟨times, htimes⟩ : ∃ times, Series.domain series = some times := by
      cases htimes : Series.domain series with
      | some times => exact ⟨times, rfl⟩
      | none => rw [laidOut, htimes] at hl; cases hl
    rw [hdrawn times htimes values hvalues] at hl
    obtain ⟨line, -, rfl⟩ := List.mem_map.1 hl
    obtain ⟨point, -, rfl⟩ := List.mem_map.1 hq
    exact place_of_lt hreversed point.y c.yRange

def rise : Series := ⟨"rise", 0, [⟨0, 0⟩, ⟨64, 5e-324⟩]⟩

theorem ticks_of_rise_keep_scale :
    let c := ofSize ⟨200, 100⟩
    let p : Picture :=
      { size := ⟨200, 100⟩
        lines := [⟨"rise", Color.ofSeries 0, [⟨50, 60⟩, ⟨180, 10⟩]⟩]
        xAxis := ⟨⟨50, 60⟩, ⟨180, 60⟩, [⟨0, 50, "1970"⟩, ⟨20, 90.625, "00:00:20"⟩,
          ⟨40, 131.25, "00:00:40"⟩, ⟨60, 171.875, "00:01"⟩]⟩
        yAxis := ⟨⟨50, 60⟩, ⟨50, 10⟩, [⟨0, 60, "0"⟩]⟩
        xLabel := "time" }
    c.picture [rise] 2 "time" = .ok p ∧
      (∀ t ∈ p.xAxis.ticks, ∃ times ∈ Series.domain [rise], t.px = place t.value times c.xRange) ∧
      ∃ lines, Series.reduce (aligned [rise]) 2 none = .ok lines ∧
        ∀ t ∈ p.yAxis.ticks, ∃ values ∈ c.valueDomain lines,
          t.px = place t.value values c.yRange := by
  intro c p
  have hp : c.picture [rise] 2 "time" = .ok p := by decide +kernel
  obtain ⟨lines, hlines, -, htimes, hvalues, hrange⟩ := ticks_keep_scale hp
  have hgiven : ∀ r ∈ c.valueRange, ¬r.2 < r.1 := fun r hr => nomatch hr
  refine ⟨hp, htimes, lines, hlines, fun t ht => ?_⟩
  obtain ⟨values, hdomain, -, hplace⟩ := hvalues t ht
  exact ⟨values, hdomain, hplace ((hrange values hdomain).1 hgiven)⟩

/-- A chart with its range of values upside down, and too high for its height to be a float. -/
def reversed : Chart := { ofSize ⟨200, 100⟩ with valueRange := some (1.7e308, -1.7e308) }

/-- The lowest tick of a reversed range stands at the bottom, and the lines have its value in the
middle. -/
theorem reversed_range_splits_scale :
    ∃ p, reversed.picture [rise] 2 "time" = .ok p ∧
    ∃ lines, Series.reduce (aligned [rise]) 2 none = .ok lines ∧
    ∃ values ∈ reversed.valueDomain lines, ∃ t ∈ p.yAxis.ticks,
      t.px ≠ place t.value values reversed.yRange := by
  have hlines : Series.reduce (aligned [rise]) 2 none =
      .ok [⟨0, "rise", 0, [⟨0, 0⟩, ⟨64, 5e-324⟩]⟩] := by decide +kernel
  obtain ⟨xTicks, hx⟩ : ∃ ticks, reversed.axis.timeTicks (0, 64) reversed.xRange = .ok ticks :=
    ⟨[⟨0, 50, "1970"⟩, ⟨20, 90.625, "00:00:20"⟩, ⟨40, 131.25, "00:00:40"⟩,
      ⟨60, 171.875, "00:01"⟩], by decide +kernel⟩
  let bottom : Tick := ⟨-9223372036854775808, 60, "-9223372036854775808"⟩
  have hbottom : Axis.valueTick (-1.7e308, 1.7e308) reversed.yRange 1 signedMin = .ok bottom := by
    decide +kernel
  have hordered : Axis.ordered (1.7e308, -1.7e308) = (-1.7e308, 1.7e308) := by decide +kernel
  have hstep : niceStep ((1.7e308 - -1.7e308) / TimeStep.targetTicks) = 1 := by decide +kernel
  obtain ⟨yTicks, hy, hmem⟩ := Axis.exists_valueTicks (a := reversed.axis) hordered
    (by decide +kernel) (by decide +kernel) hstep (by decide +kernel) (by decide +kernel) hbottom
  have hdomain : Series.domain [rise] = some (0, 64) := by decide +kernel
  have hvalues : ∀ lines, reversed.valueDomain lines = some (1.7e308, -1.7e308) := by
    intro lines
    show some (widened (1.7e308, -1.7e308)) = _
    decide +kernel
  refine ⟨_, picture_eq_ok_iff.2 ⟨_, hlines, xTicks, ?_, yTicks, ?_, rfl⟩, _, hlines,
    (1.7e308, -1.7e308), hvalues _, bottom, hmem, ?_⟩
  · rw [hdomain, ticksOf_some]
    exact hx
  · rw [hvalues, ticksOf_some]
    exact hy
  · decide +kernel

end Chart

end PoolWatch
