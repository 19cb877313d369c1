import PoolWatch.Proofs.Axis.Grids
/-!
# Labels and grids

A label is read off the fields of a calendar date, and ticks come from multiples and from the
starts of periods.  Both agree: an instant has the granularity of the coarsest grid that it is on.
-/

namespace PoolWatch

open PoolWatch.Numeric TimeStep

/-! ## The fields of a moment -/

namespace Moment

variable (t : Int)

theorem millisecond_eq_zero : (ofLocal t).millisecond = 0 ↔ t % Calendar.second = 0 := by
  simp only [ofLocal, Calendar.day_eq, Calendar.second]
  omega

theorem second_eq_zero (h : t % Calendar.second = 0) :
    (ofLocal t).second = 0 ↔ t % Calendar.minute = 0 := by
  simp only [ofLocal, Calendar.day_eq, Calendar.minute_eq, Calendar.second] at *
  omega

theorem minute_eq_zero (h : t % Calendar.minute = 0) :
    (ofLocal t).minute = 0 ↔ t % Calendar.hour = 0 := by
  simp only [ofLocal, Calendar.day_eq, Calendar.hour_eq, Calendar.minute_eq] at *
  omega

theorem hour_eq_zero (h : t % Calendar.hour = 0) :
    (ofLocal t).hour = 0 ↔ t % Calendar.day = 0 := by
  simp only [ofLocal, Calendar.day_eq, Calendar.hour_eq] at *
  omega

theorem weekday_eq_zero (h : t % Calendar.day = 0) :
    (ofLocal t).weekday = 0 ↔ week ∣ t - firstSunday := by
  simp only [ofLocal, Calendar.weekday, week, firstSunday, Calendar.day_eq] at *
  omega

theorem granularity_ofLocal :
    (ofLocal t).granularity =
      if t % Calendar.second ≠ 0 then .millisecond
      else if t % Calendar.minute ≠ 0 then .second
      else if t % Calendar.hour ≠ 0 then .minute
      else if t % Calendar.day ≠ 0 then .hour
      else if (ofLocal t).date.day ≠ 1 then if ¬ week ∣ t - firstSunday then .day else .week
      else if (ofLocal t).date.month ≠ 0 then .month
      else .year := by
  unfold granularity
  refine ite_congr (by rw [ne_eq, millisecond_eq_zero]) (fun _ => rfl) fun hsecond => ?_
  refine ite_congr (by rw [ne_eq, second_eq_zero t (not_not.1 hsecond)]) (fun _ => rfl)
    fun hminute => ?_
  refine ite_congr (by rw [ne_eq, minute_eq_zero t (not_not.1 hminute)]) (fun _ => rfl)
    fun hhour => ?_
  refine ite_congr (by rw [ne_eq, hour_eq_zero t (not_not.1 hhour)]) (fun _ => rfl) fun hday => ?_
  simp only [ne_eq, weekday_eq_zero t (not_not.1 hday)]

theorem emod_eq_zero_of_coarser :
    (t % Calendar.minute = 0 → t % Calendar.second = 0) ∧
    (t % Calendar.hour = 0 → t % Calendar.minute = 0) ∧
    (t % Calendar.day = 0 → t % Calendar.hour = 0) := by
  simp only [Calendar.day_eq, Calendar.hour_eq, Calendar.minute_eq, Calendar.second]
  omega

theorem granularity_below_day :
    let g := (ofLocal t).granularity
    (g = .millisecond ↔ ¬ t % Calendar.second = 0) ∧
    (g = .second ↔ t % Calendar.second = 0 ∧ ¬ t % Calendar.minute = 0) ∧
    (g = .minute ↔ t % Calendar.minute = 0 ∧ ¬ t % Calendar.hour = 0) ∧
    (g = .hour ↔ t % Calendar.hour = 0 ∧ ¬ t % Calendar.day = 0) := by
  intro g
  obtain ⟨hminute, hhour, hday⟩ := emod_eq_zero_of_coarser t
  have hg : g = _ := granularity_ofLocal t
  rw [hg]
  split_ifs <;> simp_all

theorem granularity_midnight (h : t % Calendar.day = 0) :
    let g := (ofLocal t).granularity
    (g = .year ↔ (ofLocal t).date.day = 1 ∧ (ofLocal t).date.month = 0) ∧
    (g = .month ↔ (ofLocal t).date.day = 1 ∧ ¬ (ofLocal t).date.month = 0) ∧
    (g = .week ↔ week ∣ t - firstSunday ∧ ¬ (ofLocal t).date.day = 1) ∧
    (g = .day ↔ ¬ week ∣ t - firstSunday ∧ ¬ (ofLocal t).date.day = 1) := by
  intro g
  obtain ⟨hminute, hhour, hday⟩ := emod_eq_zero_of_coarser t
  have hg : g = _ := granularity_ofLocal t
  rw [hg, if_neg (not_not.2 (hminute (hhour (hday h)))), if_neg (not_not.2 (hhour (hday h))),
    if_neg (not_not.2 (hday h)), if_neg (not_not.2 h)]
  split_ifs <;> simp_all

end Moment

/-! ## Instants on grids -/

namespace Axis

open Calendar

/-- A step lists the instant when it is asked for the instants of it alone. -/
def OnGrid (a : Axis) (step : TimeStep) (t : Int) : Prop :=
  ∃ ts, step.instants a t t = .ok ts ∧ t ∈ ts

theorem onGrid_iff_of_lists {a : Axis} {step : TimeStep} {t : Int} {grid : Int → Prop}
    (h : ∃ ts, step.instants a t t = .ok ts ∧ Lists grid t t maxInstants ts) :
    a.OnGrid step t ↔ grid t := by
  obtain ⟨ts, hts, hlists⟩ := h
  unfold OnGrid
  simp [hts, hlists.mem_iff (show 0 < maxInstants by decide)]

section

variable {a : Axis} {t : Int}

theorem onGrid_millis {step : Int} (hoffset : a.utcOffset.natAbs < 86400) (ht : inRange t)
    (hpos : 0 < step) (hle : step ≤ signedMax) :
    a.OnGrid (.millis step) t ↔ (t + a.offsetMillis) % step = 0 := by
  rw [onGrid_iff_of_lists (instants_millis_lists hoffset ht ht hpos hle), localMultiples,
    Int.sub_zero, Int.dvd_iff_emod_eq_zero]

theorem onGrid_weeks (hoffset : a.utcOffset.natAbs < 86400) (ht : inRange t) :
    a.OnGrid .weeks t ↔ week ∣ t + a.offsetMillis - firstSunday := by
  rw [onGrid_iff_of_lists (instants_weeks_lists hoffset ht ht), localMultiples]

theorem date_of_start {months index : Int} (h : periodStart months a.offsetMillis index = t) :
    (t + a.offsetMillis) % day = 0 ∧
      (a.localMoment t).date = ⟨index * months / 12, (index * months % 12).toNat, 1⟩ := by
  have hlocal : t + a.offsetMillis = firstDay (index * months) * day := by
    unfold periodStart at h
    omega
  have hday : firstDay (index * months) * day / day = firstDay (index * months) :=
    Int.mul_ediv_cancel _ (by decide)
  rw [localMoment, hlocal]
  refine ⟨Int.mul_emod_left _ _, ?_⟩
  rw [Moment.ofLocal, hday]
  exact dateOfDay_firstDay _

theorem start_of_date (hmidnight : (t + a.offsetMillis) % day = 0)
    (hday : (a.localMoment t).date.day = 1) :
    periodStart 1 a.offsetMillis (a.localMoment t).date.monthIndex = t := by
  have htoDay : (a.localMoment t).date.toDay = (t + a.offsetMillis) / day := toDay_dateOfDay _
  rw [Date.toDay, hday] at htoDay
  rw [periodStart, Int.mul_one]
  rw [day_eq] at *
  omega

section

variable (hyear : (monthInstant? a.offsetMillis ((a.localMoment t).date.year * 12)).isSome)
  (hexact : instant? (Float.ofInt t / 1000) = some t)

include hyear

theorem monthInstant?_of_year (ht : inRange t) :
    monthInstant? a.offsetMillis (a.localMoment t).date.monthIndex =
      some (periodStart 1 a.offsetMillis (a.localMoment t).date.monthIndex) := by
  obtain ⟨s, hs⟩ := Option.isSome_iff_exists.1 hyear
  obtain ⟨hbounds, hrange, rfl⟩ := monthInstant?_eq_some.1 hs
  have hmonth : (a.localMoment t).date.month < 12 := (dateOfDay_isValid _).month_lt
  have hindex : (a.localMoment t).date.monthIndex / 12 = (a.localMoment t).date.year := by
    unfold Date.monthIndex
    omega
  have hafter : periodStart 1 a.offsetMillis ((a.localMoment t).date.year * 12) ≤
      periodStart 1 a.offsetMillis (a.localMoment t).date.monthIndex :=
    (periodStart_le_periodStart Int.one_pos).2 (by unfold Date.monthIndex; omega)
  have hbegun := (periods_begun a t).1
  unfold periodStart at *
  simp only [Int.mul_one] at *
  refine monthInstant?_eq_some.2 ⟨?_, inRange_iff.2 ⟨?_, ?_⟩, rfl⟩
  · rw [hindex]
    rwa [Int.mul_ediv_cancel _ (by decide)] at hbounds
  · exact (inRange_iff.1 hrange).1.trans hafter
  · exact hbegun.trans (inRange_iff.1 ht).2

include hexact

theorem instants_month (ht : inRange t) :
    ∃ ts, (TimeStep.months 1).instants a t t = .ok ts ∧
      Lists (starts 1 1 a.offsetMillis) t t maxInstants ts := by
  refine instants_months_lists Int.one_pos (nextFits_of_le (.inl rfl) (by decide)) hexact ?_
  rw [Int.ediv_one, Int.mul_one, monthInstant?_of_year hyear ht]
  rfl

theorem instants_year :
    ∃ ts, (TimeStep.years 1).instants a t t = .ok ts ∧
      Lists (starts 12 1 a.offsetMillis) t t maxInstants ts := by
  refine instants_years_lists Int.one_pos (nextFits_of_le (.inr rfl) (by decide)) hexact ?_
  rwa [Int.ediv_one, Int.mul_one]

theorem onGrid_months (ht : inRange t) :
    a.OnGrid (.months 1) t ↔
      (t + a.offsetMillis) % day = 0 ∧ (a.localMoment t).date.day = 1 := by
  rw [onGrid_iff_of_lists (instants_month hyear hexact ht)]
  constructor
  · rintro ⟨index, -, hstart⟩
    obtain ⟨hmidnight, hdate⟩ := date_of_start (monthInstant?_eq_some.1 hstart).2.2
    exact ⟨hmidnight, by rw [hdate]⟩
  · rintro ⟨hmidnight, hday⟩
    refine ⟨(a.localMoment t).date.monthIndex, Int.one_dvd _, ?_⟩
    rw [Int.mul_one, monthInstant?_of_year hyear ht, start_of_date hmidnight hday]

theorem onGrid_years (ht : inRange t) :
    a.OnGrid (.years 1) t ↔ (t + a.offsetMillis) % day = 0 ∧
      (a.localMoment t).date.day = 1 ∧ (a.localMoment t).date.month = 0 := by
  rw [onGrid_iff_of_lists (instants_year hyear hexact)]
  constructor
  · rintro ⟨index, -, hstart⟩
    obtain ⟨hmidnight, hdate⟩ := date_of_start (monthInstant?_eq_some.1 hstart).2.2
    refine ⟨hmidnight, by rw [hdate], ?_⟩
    rw [hdate, Int.mul_emod_left]
    rfl
  · rintro ⟨hmidnight, hday, hmonth⟩
    have hindex : (a.localMoment t).date.monthIndex = (a.localMoment t).date.year * 12 := by
      rw [Date.monthIndex, hmonth]
      omega
    refine ⟨(a.localMoment t).date.year, Int.one_dvd _, ?_⟩
    rw [← hindex, monthInstant?_of_year hyear ht, start_of_date hmidnight hday]

end

/-! ## Granularities -/

/-- The steps whose grids granularities stand for. -/
def units : List TimeStep :=
  [.millis second, .millis minute, .millis hour, .millis day, .weeks, .months 1, .years 1]

theorem instants_units (hoffset : a.utcOffset.natAbs < 86400) (ht : inRange t)
    (hyear : (monthInstant? a.offsetMillis ((a.localMoment t).date.year * 12)).isSome)
    (hexact : instant? (Float.ofInt t / 1000) = some t) :
    ∀ step ∈ units, ∃ ts, step.instants a t t = .ok ts := by
  have hmillis (n : Int) (hpos : 0 < n) (hle : n ≤ signedMax) :
      ∃ ts, (TimeStep.millis n).instants a t t = .ok ts :=
    (instants_millis_lists hoffset ht ht hpos hle).imp fun _ h => h.1
  simp only [units, List.forall_mem_cons, List.not_mem_nil, false_imp_iff, implies_true, and_true]
  exact ⟨hmillis _ (by decide) (by decide), hmillis _ (by decide) (by decide),
    hmillis _ (by decide) (by decide), hmillis _ (by decide) (by decide),
    (instants_weeks_lists hoffset ht ht).imp fun _ h => h.1,
    (instants_month hyear hexact ht).imp fun _ h => h.1,
    (instants_year hyear hexact).imp fun _ h => h.1⟩

end

/-- The granularity of a local time, which its label has, is that of the coarsest of the nested
grids of the second, the minute, the hour and the day that the instant is on, and for a local
midnight that of the grids of weeks, months and years.  The instant is in the calendar together
with the start of its year, so with that of its month, and its time in seconds is exact enough to
give it back. -/
theorem granularity_iff_onGrid (a : Axis) (t : Int) (hoffset : a.utcOffset.natAbs < 86400)
    (ht : inRange t)
    (hyear : (monthInstant? a.offsetMillis ((a.localMoment t).date.year * 12)).isSome)
    (hexact : instant? (Float.ofInt t / 1000) = some t) :
    let g := (a.localMoment t).granularity
    a.granularity (Float.ofInt t / 1000) = g ∧
    (∀ step ∈ units, ∃ ts, step.instants a t t = .ok ts) ∧
    (g = .millisecond ↔ ¬ a.OnGrid (.millis second) t) ∧
    (g = .second ↔ a.OnGrid (.millis second) t ∧ ¬ a.OnGrid (.millis minute) t) ∧
    (g = .minute ↔ a.OnGrid (.millis minute) t ∧ ¬ a.OnGrid (.millis hour) t) ∧
    (g = .hour ↔ a.OnGrid (.millis hour) t ∧ ¬ a.OnGrid (.millis day) t) ∧
    ((t + a.offsetMillis) % day = 0 →
      (g = .year ↔ a.OnGrid (.years 1) t) ∧
      (g = .month ↔ a.OnGrid (.months 1) t ∧ ¬ a.OnGrid (.years 1) t) ∧
      (g = .week ↔ a.OnGrid .weeks t ∧ ¬ a.OnGrid (.months 1) t) ∧
      (g = .day ↔ ¬ a.OnGrid .weeks t ∧ ¬ a.OnGrid (.months 1) t ∧ ¬ a.OnGrid (.years 1) t)) := by
  intro g
  have hmillis {n : Int} (hpos : 0 < n) (hle : n ≤ signedMax) :=
    onGrid_millis (a := a) (t := t) hoffset ht hpos hle
  obtain ⟨hmillisecond, hsecond, hminute, hhour⟩ :=
    Moment.granularity_below_day (t + a.offsetMillis)
  have hlabel : a.granularity (Float.ofInt t / 1000) = g := by
    rw [granularity, moment?_of_exact hexact]
  refine ⟨hlabel, instants_units hoffset ht hyear hexact, ?_, ?_, ?_, ?_, fun hmidnight => ?_⟩
  · rw [hmillis (by decide) (by decide)]
    exact hmillisecond
  · rw [hmillis (by decide) (by decide), hmillis (by decide) (by decide)]
    exact hsecond
  · rw [hmillis (by decide) (by decide), hmillis (by decide) (by decide)]
    exact hminute
  · rw [hmillis (by decide) (by decide), hmillis (by decide) (by decide)]
    exact hhour
  · obtain ⟨hyears, hmonths, hweeks, hdays⟩ := Moment.granularity_midnight _ hmidnight
    rw [onGrid_weeks hoffset ht, onGrid_months hyear hexact ht, onGrid_years hyear hexact ht]
    simp only [hmidnight, true_and]
    refine ⟨hyears, hmonths.trans ?_, hweeks, hdays.trans ?_⟩
    · exact and_congr_right fun hday => not_congr (and_iff_right hday).symm
    · exact and_congr_right fun _ => (and_iff_left_of_imp fun hday h => hday h.1).symm

theorem granularity_of_new_year :
    let a := standard.withOffset 1172
    let t : Int := 1704066028000
    (a.localMoment t).granularity = .year ∧ a.OnGrid (.years 1) t ∧ ¬ a.OnGrid .weeks t := by
  intro a t
  have hgranularity : (a.localMoment t).granularity = .year := by decide +kernel
  have hmonday : ¬ week ∣ t + a.offsetMillis - firstSunday := by decide +kernel
  have h := granularity_iff_onGrid a t (by decide) (by decide) (by decide +kernel)
    (by decide +kernel)
  obtain ⟨hyears, -⟩ := h.2.2.2.2.2.2 (by decide)
  exact ⟨hgranularity, hyears.1 hgranularity, mt (onGrid_weeks (by decide) (by decide)).1 hmonday⟩

end Axis

end PoolWatch
