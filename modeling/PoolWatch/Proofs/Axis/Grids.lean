import PoolWatch.Proofs.Axis.Multiples
/-!
# The grids of steps

Next to the multiples of a number of milliseconds, the starts of periods of the calendar are a grid
of instants.  Those of a step between two instants are listed in ascending order, up to a number of
them.
-/

namespace PoolWatch

open PoolWatch.Numeric

namespace TimeStep

/-! ## Starts of periods -/

section

open Calendar

variable {months count offset lo hi index t : Int}

theorem monthInstant?_eq_some {month : Int} :
    monthInstant? offset month = some t ↔
      (firstYear ≤ month / 12 ∧ month / 12 ≤ lastYear) ∧ inRange t ∧
        firstDay month * day - offset = t := by
  unfold monthInstant? firstDay
  dsimp only
  split_ifs with hyear hrange
  · simp only [hyear, true_and, Option.some.injEq]
    refine ⟨fun h => ⟨h ▸ hrange, h⟩, And.right⟩
  · simp only [false_iff, not_and]
    intro _ ht h
    exact hrange (h ▸ ht)
  · simp [hyear]

/-- The instant at which a period of so many months begins, also beyond the calendar. -/
def periodStart (months offset index : Int) : Int := firstDay (index * months) * day - offset

theorem periodStart_lt_periodStart (hmonths : 0 < months) {i j : Int} :
    periodStart months offset i < periodStart months offset j ↔ i < j := by
  have hday : 0 < day := by decide
  rw [periodStart, periodStart, Int.sub_lt_sub_right_iff, Int.mul_lt_mul_right hday,
    firstDay_lt_firstDay, Int.mul_lt_mul_right hmonths]

theorem periodStart_le_periodStart (hmonths : 0 < months) {i j : Int} :
    periodStart months offset i ≤ periodStart months offset j ↔ i ≤ j := by
  rw [← Int.not_lt, periodStart_lt_periodStart hmonths, Int.not_lt]

/-- The starts of the periods whose number is a multiple of a count. -/
def starts (months count offset t : Int) : Prop :=
  ∃ index, count ∣ index ∧ monthInstant? offset (index * months) = some t

theorem periodStart_le_of_starts (hmonths : 0 < months) (hcount : count ∣ index)
    (ht : starts months count offset t) (hlt : periodStart months offset index < t) :
    periodStart months offset (index + count) ≤ t := by
  obtain ⟨later, hlater, hstart⟩ := ht
  obtain rfl : periodStart months offset later = t := (monthInstant?_eq_some.1 hstart).2.2
  have hafter := (periodStart_lt_periodStart hmonths).1 hlt
  have := Int.le_of_dvd (by omega) (Int.dvd_sub hlater hcount)
  exact (periodStart_le_periodStart hmonths).2 (by omega)

theorem monthInstant?_of_le (hmonths : 0 < months) (hyear : firstYear * 12 ≤ index * months)
    (hfirst : firstInstant ≤ periodStart months offset index)
    (ht : starts months count offset t) (hle : periodStart months offset index ≤ t) :
    monthInstant? offset (index * months) = some (periodStart months offset index) := by
  obtain ⟨later, -, hstart⟩ := ht
  obtain ⟨⟨-, hlast⟩, hrange, rfl⟩ := monthInstant?_eq_some.1 hstart
  have hindex : index ≤ later := (periodStart_le_periodStart hmonths).1 hle
  have hmonth : index * months ≤ later * months := Int.mul_le_mul_of_nonneg_right hindex hmonths.le
  exact monthInstant?_eq_some.2 ⟨⟨by omega, by omega⟩,
    inRange_iff.2 ⟨hfirst, hle.trans (inRange_iff.1 hrange).2⟩, rfl⟩

theorem index_lt_of_monthInstant? (hmonths : months = 1 ∨ months = 12)
    (h : monthInstant? offset (index * months) = some t) :
    index * months < (lastYear + 1) * 12 ∧ index < (lastYear + 1) * 12 / months := by
  have hlast := (monthInstant?_eq_some.1 h).1.2
  obtain rfl | rfl := hmonths <;> omega

/-! One round either stops, or passes a start before the domain, or takes a start. -/

section

variable {fuel room : Nat} {s : Int} {ts : List Int}

theorem periodInstants_stop (hmonth : checkInstant (index * months) = .ok (index * months))
    (h : ∀ s, monthInstant? offset (index * months) = some s → hi < s) :
    periodInstants months count offset lo hi (fuel + 1) (room + 1) index = .ok [] := by
  rw [periodInstants]
  refine bind_eq_ok_iff.2 ⟨_, hmonth, ?_⟩
  cases hinstant : monthInstant? offset (index * months) with
  | none => rfl
  | some s => exact if_pos (h s hinstant)

theorem periodInstants_pass (hmonth : checkInstant (index * months) = .ok (index * months))
    (hnext : checkInstant (index + count) = .ok (index + count))
    (hs : monthInstant? offset (index * months) = some s) (hhi : ¬ hi < s) (hlo : ¬ lo ≤ s)
    (hrest : periodInstants months count offset lo hi fuel (room + 1) (index + count) = .ok ts) :
    periodInstants months count offset lo hi (fuel + 1) (room + 1) index = .ok ts := by
  rw [periodInstants]
  refine bind_eq_ok_iff.2 ⟨_, hmonth, ?_⟩
  rw [hs]
  exact (if_neg hhi).trans (bind_eq_ok_iff.2 ⟨_, hnext, (if_neg hlo).trans hrest⟩)

theorem periodInstants_take (hmonth : checkInstant (index * months) = .ok (index * months))
    (hnext : checkInstant (index + count) = .ok (index + count))
    (hs : monthInstant? offset (index * months) = some s) (hhi : ¬ hi < s) (hlo : lo ≤ s)
    (hrest : periodInstants months count offset lo hi fuel room (index + count) = .ok ts) :
    periodInstants months count offset lo hi (fuel + 1) (room + 1) index = .ok (s :: ts) := by
  rw [periodInstants]
  refine bind_eq_ok_iff.2 ⟨_, hmonth, ?_⟩
  rw [hs]
  exact (if_neg hhi).trans (bind_eq_ok_iff.2 ⟨_, hnext, (if_pos hlo).trans
    (bind_eq_ok_iff.2 ⟨ts, hrest, rfl⟩)⟩)

end

/-- After every period of the grid that begins in the calendar by an instant, the next one begins
in a month whose number has 64 bits. -/
def NextFits (months count offset hi : Int) : Prop :=
  ∀ index s, count ∣ index → monthInstant? offset (index * months) = some s → s ≤ hi →
    (index + count) * months ≤ signedMax

theorem nextFits_of_le (hmonths : months = 1 ∨ months = 12)
    (hfits : count * months ≤ signedMax) : NextFits months count offset hi := by
  intro index s hdvd hs _
  have hlast := (index_lt_of_monthInstant? hmonths hs).1
  -- a count is not longer than the time from the year zero to a later period of the grid
  by_cases hlater : 0 < index
  · have hle := Int.le_of_dvd hlater hdvd
    obtain rfl | rfl := hmonths <;> simp only [lastYear, signedMax] at * <;> omega
  · obtain rfl | rfl := hmonths <;> omega

/-- What holds of the number of a period in every round: it is on the grid and not before the
calendar, and its month has a number of 64 bits. -/
structure InReach (months count offset index : Int) : Prop where
  grid : count ∣ index
  low : firstYear * 12 ≤ index * months
  high : index * months ≤ signedMax
  first : firstInstant ≤ periodStart months offset index

theorem InReach.next (h : InReach months count offset index) (hmonths : 0 < months)
    (hcount : 0 < count) (hfits : (index + count) * months ≤ signedMax) :
    InReach months count offset (index + count) := by
  have hstep : 0 < count * months := Int.mul_pos hcount hmonths
  have hlow := h.low
  have hlater : periodStart months offset index ≤ periodStart months offset (index + count) :=
    (periodStart_le_periodStart hmonths).2 (by omega)
  refine ⟨Int.dvd_add h.grid (Int.dvd_refl count), ?_, hfits, h.first.trans hlater⟩
  rw [Int.add_mul]
  omega

theorem periodInstants_lists (lo : Int) (hmonths : months = 1 ∨ months = 12)
    (hcount : 0 < count) (hnextFits : NextFits months count offset hi) (fuel : Nat) :
    ∀ room index, ((lastYear + 1) * 12 / months - index).toNat < fuel →
      InReach months count offset index →
      ∃ ts, periodInstants months count offset lo hi fuel room index = .ok ts ∧
        Lists (starts months count offset) (max lo (periodStart months offset index)) hi room
          ts := by
  have hmin : signedMin ≤ firstYear * 12 := by decide
  have hfirstYear : firstYear ≤ 0 := by decide
  have hpos : 0 < months := by omega
  -- the list is from the later of the domain and the period on, so passing a period that began
  -- before the domain leaves it as it is
  induction fuel with
  | zero => exact fun _ _ hfuel => absurd hfuel (Nat.not_lt_zero _)
  | succ fuel ih =>
    intro room index hfuel hreach
    cases room with
    | zero => exact ⟨[], by rw [periodInstants], .nil_of_no_room⟩
    | succ room =>
      have hlow := hreach.low
      have hmonth := checkInstant_of_le (n := index * months) (by omega) hreach.high
      by_cases hstop : ∀ s, monthInstant? offset (index * months) = some s → hi < s
      · refine ⟨[], periodInstants_stop hmonth hstop, .nil fun t hle hhi ht => ?_⟩
        have hbegun := (le_max_right _ _).trans hle
        have := hstop _ (monthInstant?_of_le hpos hlow hreach.first ht hbegun)
        omega
      · obtain ⟨s, hs, hhi⟩ : ∃ s, monthInstant? offset (index * months) = some s ∧ ¬ hi < s := by
          simpa using hstop
        obtain rfl : periodStart months offset index = s := (monthInstant?_eq_some.1 hs).2.2
        have hindex := (index_lt_of_monthInstant? hmonths hs).2
        have hlater := hnextFits index _ hreach.grid hs (Int.not_lt.1 hhi)
        have hsum : signedMin ≤ index + count ∧ index + count ≤ signedMax := by
          obtain rfl | rfl := hmonths <;> simp only [signedMin, signedMax] at * <;> omega
        have hnext := checkInstant_of_le hsum.1 hsum.2
        have hafter : periodStart months offset index <
            periodStart months offset (index + count) :=
          (periodStart_lt_periodStart hpos).2 (by omega)
        have hrest (room : Nat) :=
          ih room (index + count) (by omega) (hreach.next hpos hcount hlater)
        by_cases hlo : lo ≤ periodStart months offset index
        · obtain ⟨ts, hts, hlists⟩ := hrest room
          rw [max_eq_right hlo]
          refine ⟨_, periodInstants_take hmonth hnext hs hhi hlo hts,
            hlists.cons ⟨index, hreach.grid, hs⟩ (by omega) (by omega) fun t hlt ht => ?_⟩
          have := periodStart_le_of_starts hpos hreach.grid ht hlt
          omega
        · obtain ⟨ts, hts, hlists⟩ := hrest (room + 1)
          refine ⟨ts, periodInstants_pass hmonth hnext hs hhi hlo hts,
            hlists.skip (by omega) fun t hle ht => ?_⟩
          have := periodStart_le_of_starts hpos hreach.grid ht (by omega)
          omega

theorem periodInstants_started (lo : Int) (hmonths : months = 1 ∨ months = 12) (hcount : 0 < count)
    (hnextFits : NextFits months count offset hi) (hgrid : count ∣ index)
    (hstart : (monthInstant? offset (index * months)).isSome) :
    ∃ ts, periodInstants months count offset lo hi (periodFuel months index) maxInstants index =
        .ok ts ∧
      Lists (starts months count offset) (max lo (periodStart months offset index)) hi maxInstants
        ts := by
  obtain ⟨s, hs⟩ := Option.isSome_iff_exists.1 hstart
  obtain ⟨⟨hfirst, -⟩, hrange, rfl⟩ := monthInstant?_eq_some.1 hs
  have hlast := (index_lt_of_monthInstant? hmonths hs).1
  have hend : (lastYear + 1) * 12 ≤ signedMax := by decide
  exact periodInstants_lists lo hmonths hcount hnextFits (periodFuel months index) maxInstants index
    (Nat.lt_succ_self _) ⟨hgrid, by omega, by omega, (inRange_iff.1 hrange).1⟩

theorem periodInstants_lists_from {period : Int} (hmonths : months = 1 ∨ months = 12)
    (hcount : 0 < count) (hnextFits : NextFits months count offset hi)
    (hbegun : periodStart months offset period ≤ lo)
    (hstart : (monthInstant? offset (period / count * count * months)).isSome) :
    ∃ ts, periodInstants months count offset lo hi (periodFuel months (period / count * count))
        maxInstants (period / count * count) = .ok ts ∧
      Lists (starts months count offset) lo hi maxInstants ts := by
  have hpos : 0 < months := by omega
  have hle : periodStart months offset (period / count * count) ≤
      periodStart months offset period :=
    (periodStart_le_periodStart hpos).2 (Int.ediv_mul_le period hcount.ne')
  obtain ⟨ts, hts, hlists⟩ := periodInstants_started lo hmonths hcount hnextFits
    (Int.dvd_mul_left _ _) hstart
  rw [max_eq_left (hle.trans hbegun)] at hlists
  exact ⟨ts, hts, hlists⟩

end

end TimeStep

def Axis.localMoment (a : Axis) (t : Int) : Moment := Moment.ofLocal (t + a.offsetMillis)

theorem Axis.moment?_of_exact {a : Axis} {t : Int}
    (h : Axis.instant? (Float.ofInt t / 1000) = some t) :
    a.moment? (Float.ofInt t / 1000) = some (a.localMoment t) :=
  congrArg _ h

theorem Axis.localDay_bounds (a : Axis) (t : Int) :
    Calendar.firstDay (a.localMoment t).date.monthIndex ≤ (t + a.offsetMillis) / Calendar.day ∧
      (t + a.offsetMillis) / Calendar.day <
        Calendar.firstDay ((a.localMoment t).date.monthIndex + 1) := by
  have hvalid := Calendar.dateOfDay_isValid ((t + a.offsetMillis) / Calendar.day)
  have hbegun := hvalid.firstDay_le
  have hends := hvalid.toDay_lt
  rw [Calendar.toDay_dateOfDay] at hbegun hends
  exact ⟨hbegun, hends⟩

namespace TimeStep

/-! ## The instants of a step -/

section

open Calendar

variable {a : Axis} {lo hi : Int}

theorem moderate_offset (h : a.utcOffset.natAbs < 86400) : Moderate a.offsetMillis := by
  constructor <;> simp only [Axis.offsetMillis, second, signedMin, signedMax] <;> omega

theorem instants_millis_lists {step : Int} (hoffset : a.utcOffset.natAbs < 86400)
    (hlo : inRange lo) (hhi : inRange hi) (hpos : 0 < step) (hle : step ≤ signedMax) :
    ∃ ts, (TimeStep.millis step).instants a lo hi = .ok ts ∧
      Lists (localMultiples step 0 a.offsetMillis) lo hi maxInstants ts :=
  gridInstants_lists (stepFits_zero hpos hle) ⟨by decide, by decide⟩ (moderate_offset hoffset)
    (moderate_of_inRange hlo) (moderate_of_inRange hhi)

theorem instants_weeks_lists (hoffset : a.utcOffset.natAbs < 86400) (hlo : inRange lo)
    (hhi : inRange hi) :
    ∃ ts, TimeStep.weeks.instants a lo hi = .ok ts ∧
      Lists (localMultiples week firstSunday a.offsetMillis) lo hi maxInstants ts :=
  gridInstants_lists stepFits_week ⟨by decide, by decide⟩ (moderate_offset hoffset)
    (moderate_of_inRange hlo) (moderate_of_inRange hhi)

theorem periods_begun (a : Axis) (t : Int) :
    periodStart 1 a.offsetMillis (a.localMoment t).date.monthIndex ≤ t ∧
      periodStart 12 a.offsetMillis (a.localMoment t).date.year ≤ t := by
  obtain ⟨hmonth, -⟩ := a.localDay_bounds t
  have hyear : firstDay ((a.localMoment t).date.year * 12) ≤
      firstDay (a.localMoment t).date.monthIndex :=
    firstDay_le_firstDay.2 (by unfold Date.monthIndex; omega)
  unfold periodStart
  rw [Int.mul_one, day_eq] at *
  constructor <;> omega

theorem instants_months_lists {count : Int} (hcount : 0 < count)
    (hnextFits : NextFits 1 count a.offsetMillis hi)
    (hexact : Axis.instant? (Float.ofInt lo / 1000) = some lo)
    (hstart : (monthInstant? a.offsetMillis
      ((a.localMoment lo).date.monthIndex / count * count)).isSome) :
    ∃ ts, (TimeStep.months count).instants a lo hi = .ok ts ∧
      Lists (starts 1 count a.offsetMillis) lo hi maxInstants ts := by
  unfold instants
  simp only [Axis.moment?_of_exact hexact]
  refine periodInstants_lists_from (.inl rfl) hcount hnextFits (periods_begun a lo).1 ?_
  rwa [Int.mul_one]

theorem instants_years_lists {count : Int} (hcount : 0 < count)
    (hnextFits : NextFits 12 count a.offsetMillis hi)
    (hexact : Axis.instant? (Float.ofInt lo / 1000) = some lo)
    (hstart : (monthInstant? a.offsetMillis
      ((a.localMoment lo).date.year / count * count * 12)).isSome) :
    ∃ ts, (TimeStep.years count).instants a lo hi = .ok ts ∧
      Lists (starts 12 count a.offsetMillis) lo hi maxInstants ts := by
  unfold instants
  simp only [Axis.moment?_of_exact hexact]
  exact periodInstants_lists_from (.inr rfl) hcount hnextFits (periods_begun a lo).2 hstart

end

end TimeStep

end PoolWatch
