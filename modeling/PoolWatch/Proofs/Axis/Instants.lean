import PoolWatch.Proofs.Axis.Labels
/-!
# The instants of a step

What a step lists between two instants is what a local clock and a calendar show: every so many
milliseconds, the midnights at which a Sunday begins, those on the first of every so many months, or
on New Year's day of every so many years.  None of them is left out before the list is full.
-/

namespace PoolWatch

open PoolWatch.Numeric Calendar

namespace Axis

/-- A period of a step begins at an instant, in local time. -/
def BeginsAt (a : Axis) (t : Int) : TimeStep → Prop
  | .millis step => step ∣ t + a.offsetMillis
  | .weeks => (t + a.offsetMillis) % day = 0 ∧ (a.localMoment t).weekday = 0
  | .months count =>
    (t + a.offsetMillis) % day = 0 ∧ (a.localMoment t).date.day = 1 ∧
      count ∣ (a.localMoment t).date.year * 12 + (a.localMoment t).date.month
  | .years count =>
    (t + a.offsetMillis) % day = 0 ∧ (a.localMoment t).date.day = 1 ∧
      (a.localMoment t).date.month = 0 ∧ count ∣ (a.localMoment t).date.year

/-- The number of the period, of a multiple of so many months, in which the local time of an instant
is. -/
def period (a : Axis) (months count t : Int) : Int :=
  (a.localMoment t).date.monthIndex / months / count * count

/-- The calendar has the periods that contain the instants between two: the first one begins in it,
and local time is still in it at the last instant. -/
structure HasPeriods (a : Axis) (months count lo hi : Int) : Prop where
  begins : (TimeStep.monthInstant? a.offsetMillis (a.period months count lo * months)).isSome
  reaches : (a.localMoment hi).date.year ≤ lastYear

end Axis

namespace TimeStep

/-- A step of at least one, in 64 bits or for months in 32, whose periods between two instants can
be represented.  The month in which the last of its years ends has a number of 64 bits. -/
def Fits (a : Axis) (lo hi : Int) : TimeStep → Prop
  | .millis step => 1 ≤ step ∧ step ≤ signedMax
  | .weeks => True
  | .months count => 1 ≤ count ∧ count < 4294967296 ∧ a.HasPeriods 1 count lo hi
  | .years count =>
    1 ≤ count ∧ (a.period 12 count hi + count) * 12 ≤ signedMax ∧ a.HasPeriods 12 count lo hi

theorem Lists.congr {grid grid' : Int → Prop} {lo hi : Int} {room : Nat} {ts : List Int}
    (h : Lists grid lo hi room ts) (hiff : ∀ t, lo ≤ t → t ≤ hi → (grid t ↔ grid' t)) :
    Lists grid' lo hi room ts where
  ascending := h.ascending
  sound t ht := by
    obtain ⟨hlo, hhi, hgrid⟩ := h.sound t ht
    exact ⟨hlo, hhi, (hiff t hlo hhi).1 hgrid⟩
  length_le := h.length_le
  complete t hlo hhi ht := h.complete t hlo hhi ((hiff t hlo hhi).2 ht)

end TimeStep

namespace Axis

open TimeStep

variable {a : Axis} {months count lo hi t : Int}

/-! ## Weeks -/

theorem beginsAt_weeks_iff :
    a.BeginsAt t .weeks ↔ localMultiples week firstSunday a.offsetMillis t := by
  have hday : week ∣ t + a.offsetMillis - firstSunday → (t + a.offsetMillis) % day = 0 := by
    simp only [week, firstSunday, day_eq]
    omega
  constructor
  · rintro ⟨hmidnight, hsunday⟩
    exact (Moment.weekday_eq_zero _ hmidnight).1 hsunday
  · intro hweek
    exact ⟨hday hweek, (Moment.weekday_eq_zero _ (hday hweek)).2 hweek⟩

/-! ## Months and years -/

theorem monthIndex_le (a : Axis) {s t : Int} (h : s ≤ t) :
    (a.localMoment s).date.monthIndex ≤ (a.localMoment t).date.monthIndex := by
  have hdays : (s + a.offsetMillis) / day ≤ (t + a.offsetMillis) / day :=
    Int.ediv_le_ediv (by decide) (by omega)
  obtain ⟨hs, -⟩ := a.localDay_bounds s
  obtain ⟨-, ht⟩ := a.localDay_bounds t
  have hlt := firstDay_lt_firstDay.1 (hs.trans_lt (hdays.trans_lt ht))
  omega

theorem month_lt (a : Axis) (t : Int) : (a.localMoment t).date.month < 12 :=
  (dateOfDay_isValid _).month_lt

theorem monthIndex_of_start {index : Int} (h : periodStart months a.offsetMillis index = t) :
    (a.localMoment t).date.monthIndex = index * months := by
  rw [Date.monthIndex, (date_of_start h).2]
  dsimp only
  omega

theorem period_mul_le (hmonths : 0 < months) (hcount : 0 < count) (t : Int) :
    a.period months count t * months ≤ (a.localMoment t).date.monthIndex := by
  have hperiod : a.period months count t ≤ (a.localMoment t).date.monthIndex / months :=
    Int.ediv_mul_le _ hcount.ne'
  exact (Int.mul_le_mul_of_nonneg_right hperiod hmonths.le).trans (Int.ediv_mul_le _ hmonths.ne')

theorem le_period (hmonths : 0 < months) (hcount : 0 < count) {index : Int} (hdvd : count ∣ index)
    (hle : index * months ≤ (a.localMoment t).date.monthIndex) :
    index ≤ a.period months count t := by
  obtain ⟨q, rfl⟩ := hdvd
  rw [Int.mul_comm count q] at *
  have hindex := Int.le_ediv_of_mul_le hmonths hle
  exact Int.mul_le_mul_of_nonneg_right (Int.le_ediv_of_mul_le hcount hindex) hcount.le

theorem nextFits (hmonths : 0 < months) (hcount : 0 < count)
    (hends : (a.period months count hi + count) * months ≤ signedMax) :
    NextFits months count a.offsetMillis hi := by
  intro index s hdvd hs hle
  have hstart : periodStart months a.offsetMillis index = s := (monthInstant?_eq_some.1 hs).2.2
  have hmonth := monthIndex_le a hle
  rw [monthIndex_of_start hstart] at hmonth
  have hperiod := le_period hmonths hcount hdvd hmonth
  exact (Int.mul_le_mul_of_nonneg_right (by omega) hmonths.le).trans hends

/-- The local midnights on the first of a month that is the first one of a period are the starts of
the grid. -/
theorem HasPeriods.starts_iff (h : a.HasPeriods months count lo hi) (hmonths : 0 < months)
    (hcount : 0 < count) (hlo : inRange lo) (hhi : inRange hi) (hle : lo ≤ t) (hge : t ≤ hi) :
    starts months count a.offsetMillis t ↔
      (t + a.offsetMillis) % day = 0 ∧ (a.localMoment t).date.day = 1 ∧
        ∃ index, count ∣ index ∧ (a.localMoment t).date.monthIndex = index * months := by
  constructor
  · rintro ⟨index, hdvd, hinstant⟩
    have hstart : periodStart months a.offsetMillis index = t :=
      (monthInstant?_eq_some.1 hinstant).2.2
    obtain ⟨hmidnight, hdate⟩ := date_of_start hstart
    exact ⟨hmidnight, by rw [hdate], index, hdvd, monthIndex_of_start hstart⟩
  · rintro ⟨hmidnight, hday, index, hdvd, hindex⟩
    refine ⟨index, hdvd, monthInstant?_eq_some.2 ⟨?_, ?_, ?_⟩⟩
    · obtain ⟨s, hs⟩ := Option.isSome_iff_exists.1 h.begins
      have hfirst := (monthInstant?_eq_some.1 hs).1.1
      have hbegun := period_mul_le (a := a) hmonths hcount lo
      have hafter := monthIndex_le a hle
      have hbefore := monthIndex_le a hge
      have hreaches := h.reaches
      have hmonth := month_lt a hi
      unfold Date.monthIndex at *
      omega
    · exact inRange_iff.2 ⟨(inRange_iff.1 hlo).1.trans hle, hge.trans (inRange_iff.1 hhi).2⟩
    · have hstart := start_of_date hmidnight hday
      rwa [periodStart, Int.mul_one, hindex] at hstart

theorem HasPeriods.beginsAt_months_iff (h : a.HasPeriods 1 count lo hi) (hcount : 0 < count)
    (hlo : inRange lo) (hhi : inRange hi) (hle : lo ≤ t) (hge : t ≤ hi) :
    starts 1 count a.offsetMillis t ↔ a.BeginsAt t (.months count) := by
  rw [h.starts_iff Int.one_pos hcount hlo hhi hle hge]
  refine and_congr_right fun _ => and_congr_right fun _ => ?_
  simp only [Int.mul_one, exists_eq_right']
  rfl

theorem HasPeriods.beginsAt_years_iff (h : a.HasPeriods 12 count lo hi) (hcount : 0 < count)
    (hlo : inRange lo) (hhi : inRange hi) (hle : lo ≤ t) (hge : t ≤ hi) :
    starts 12 count a.offsetMillis t ↔ a.BeginsAt t (.years count) := by
  rw [h.starts_iff (by decide) hcount hlo hhi hle hge]
  refine and_congr_right fun _ => and_congr_right fun _ => ?_
  have hmonth := month_lt a t
  unfold Date.monthIndex
  constructor
  · rintro ⟨index, hdvd, hindex⟩
    obtain rfl : (a.localMoment t).date.year = index := by omega
    exact ⟨by omega, hdvd⟩
  · rintro ⟨hjanuary, hdvd⟩
    exact ⟨_, hdvd, by omega⟩

/-! ## All steps -/

/-- A step lists, in ascending order, the first thousand of the instants between two others at which
one of its periods begins, and all of them if there are no more.  The periods can be represented,
and the time of the first instant in seconds is exact enough to give it back. -/
theorem instants_are_first_thousand (a : Axis) (step : TimeStep) {lo hi : Int}
    (hoffset : a.utcOffset.natAbs < 86400) (hlo : inRange lo) (hhi : inRange hi)
    (hfits : step.Fits a lo hi) (hexact : instant? (Float.ofInt lo / 1000) = some lo) :
    ∃ ts, step.instants a lo hi = .ok ts ∧ Lists (a.BeginsAt · step) lo hi 1000 ts := by
  cases step with
  | millis step =>
    obtain ⟨ts, hts, hlists⟩ := instants_millis_lists hoffset hlo hhi hfits.1 hfits.2
    refine ⟨ts, hts, hlists.congr fun t _ _ => ?_⟩
    rw [localMultiples, Int.sub_zero]
    rfl
  | weeks =>
    obtain ⟨ts, hts, hlists⟩ := instants_weeks_lists hoffset hlo hhi
    exact ⟨ts, hts, hlists.congr fun t _ _ => beginsAt_weeks_iff.symm⟩
  | months count =>
    obtain ⟨hcount, hbits, hperiods⟩ := hfits
    have hends : (a.period 1 count hi + count) * 1 ≤ signedMax := by
      have hbegun := period_mul_le (a := a) Int.one_pos hcount hi
      have hreaches := hperiods.reaches
      have hmonth := month_lt a hi
      simp only [Date.monthIndex, lastYear, signedMax] at *
      omega
    have hstart := hperiods.begins
    rw [period, Int.ediv_one, Int.mul_one] at hstart
    obtain ⟨ts, hts, hlists⟩ := instants_months_lists hcount
      (nextFits Int.one_pos hcount hends) hexact hstart
    exact ⟨ts, hts, hlists.congr fun t => hperiods.beginsAt_months_iff hcount hlo hhi⟩
  | years count =>
    obtain ⟨hcount, hends, hperiods⟩ := hfits
    have hyear : (a.localMoment lo).date.monthIndex / 12 = (a.localMoment lo).date.year := by
      have hmonth := month_lt a lo
      unfold Date.monthIndex
      omega
    have hstart := hperiods.begins
    rw [period, hyear] at hstart
    obtain ⟨ts, hts, hlists⟩ := instants_years_lists hcount
      (nextFits (by decide) hcount hends) hexact hstart
    exact ⟨ts, hts, hlists.congr fun t => hperiods.beginsAt_years_iff hcount hlo hhi⟩

theorem even_years_listed :
    let a := standard.withOffset 3600
    let lo : Int := 1700000000000
    let hi : Int := 1893452400000
    (TimeStep.years 2).Fits a lo hi ∧
      (TimeStep.years 2).instants a lo hi =
        .ok [1704063600000, 1767222000000, 1830294000000, 1893452400000] ∧
      ∀ t, lo ≤ t → t ≤ hi → a.BeginsAt t (.years 2) →
        t ∈ [1704063600000, 1767222000000, 1830294000000, 1893452400000] := by
  intro a lo hi
  have hfits : (TimeStep.years 2).Fits a lo hi :=
    ⟨by decide, by decide +kernel, by decide +kernel, by decide +kernel⟩
  have hlisted : (TimeStep.years 2).instants a lo hi =
      .ok [1704063600000, 1767222000000, 1830294000000, 1893452400000] := by decide +kernel
  obtain ⟨ts, hts, hlists⟩ := instants_are_first_thousand a (.years 2) (by decide)
    (by decide +kernel) (by decide +kernel) hfits (by decide +kernel)
  obtain rfl := Except.ok.inj (hlisted.symm.trans hts)
  refine ⟨hfits, hlisted, fun t hlo hhi ht => ?_⟩
  by_contra hnot
  exact absurd (hlists.complete t hlo hhi ht hnot).1 (by decide)

end Axis

end PoolWatch
