import PoolWatch.Proofs.Axis.Instants
import PoolWatch.Proofs.Axis.Pitch
import PoolWatch.Proofs.Numeric.FloatOrder
/-!
# Domains beyond the calendar

The times of a domain become instants by a cast that stops at the ends of 64 bits.  Near those ends
the sums that are made for the instants of a step may leave 64 bits, and the number of instants does
not matter for that.  What is said here is which sums these are.  A list that is returned is
ascending, within the domain and short, and in the calendar nothing overflows.
-/

namespace PoolWatch

open PoolWatch.Numeric Calendar

theorem Axis.inRange_of_instant? {time : Float} {t : Int} (h : Axis.instant? time = some t) :
    inRange t := by
  unfold Axis.instant? at h
  dsimp only at h
  split_ifs at h with hfinite hrange
  exact Option.some.inj h ▸ hrange

namespace TimeStep

/-- The list is ascending, between two instants, and not longer than the room. -/
structure Within (lo hi : Int) (room : Nat) (ts : List Int) : Prop where
  ascending : ts.Pairwise (· < ·)
  bounds : ∀ t ∈ ts, lo ≤ t ∧ t ≤ hi
  length_le : ts.length ≤ room

theorem within_nil {lo hi : Int} {room : Nat} : Within lo hi room [] :=
  ⟨.nil, by simp, Nat.zero_le _⟩

theorem Lists.within {grid : Int → Prop} {lo lo' hi : Int} {room : Nat} {ts : List Int}
    (h : Lists grid lo' hi room ts) (hle : lo ≤ lo') : Within lo hi room ts where
  ascending := h.ascending
  bounds t ht := ⟨hle.trans (h.sound t ht).1, (h.sound t ht).2.1⟩
  length_le := h.length_le

/-! ## Periods of the calendar -/

theorem offset_bounds {a : Axis} (h : a.utcOffset.natAbs < 86400) :
    -day < a.offsetMillis ∧ a.offsetMillis < day := by
  simp only [Axis.offsetMillis, second, day_eq]
  omega

theorem firstInstant_eq : firstInstant = firstDay (firstYear * 12) * day := by decide

theorem lastInstant_eq : lastInstant = firstDay ((lastYear + 1) * 12) * day - 1 := by decide

theorem monthIndex_bounds {a : Axis} (hoffset : a.utcOffset.natAbs < 86400) {time : Float}
    {m : Moment} (h : a.moment? time = some m) :
    firstYear * 12 - 1 ≤ m.date.monthIndex ∧ m.date.monthIndex ≤ (lastYear + 1) * 12 := by
  obtain ⟨t, ht, rfl⟩ := Option.map_eq_some_iff.1 h
  obtain ⟨hfirst, hlast⟩ := inRange_iff.1 (Axis.inRange_of_instant? ht)
  obtain ⟨hbegun, hends⟩ := a.localDay_bounds t
  have hbefore := firstDay_lt_succ (firstYear * 12 - 1)
  obtain ⟨hwest, heast⟩ := offset_bounds hoffset
  rw [firstInstant_eq] at hfirst
  rw [lastInstant_eq] at hlast
  rw [Int.sub_add_cancel] at hbefore
  rw [day_eq] at *
  constructor
  · have hlt : firstDay (firstYear * 12 - 1) <
        firstDay ((a.localMoment t).date.monthIndex + 1) := by omega
    exact Int.lt_add_one_iff.1 (firstDay_lt_firstDay.1 hlt)
  · refine firstDay_le_firstDay.1 (hbegun.trans ?_)
    omega

section

variable {months count offset lo hi period : Int}

theorem isSigned_start (hmonths : months = 1 ∨ months = 12) (hcount : 0 < count)
    (hfits : count * months ≤ signedMax) (hlow : firstYear * 12 - 12 ≤ period * months)
    (hhigh : period * months ≤ (lastYear + 1) * 12) :
    IsSigned (period / count * count * months) := by
  have hle := Int.ediv_mul_le period hcount.ne'
  have hlt := Int.lt_ediv_add_one_mul_self period hcount
  rw [Int.add_mul, Int.one_mul] at hlt
  -- a long count reaches from the first year of the calendar beyond the year zero
  have hlong : -count ≤ period → -count ≤ period / count * count := fun h => by
    have hdiv : -1 ≤ period / count := Int.le_ediv_of_mul_le hcount (by omega)
    have := Int.mul_le_mul_of_nonneg_right hdiv hcount.le
    omega
  generalize period / count * count = start at *
  simp only [IsSigned, firstYear, lastYear, signedMin, signedMax] at *
  obtain rfl | rfl := hmonths <;> omega

theorem exists_periodInstants (lo hi : Int) (hmonths : months = 1 ∨ months = 12)
    (hcount : 0 < count) (hfits : count * months ≤ signedMax)
    (hlow : firstYear * 12 - 12 ≤ period * months)
    (hhigh : period * months ≤ (lastYear + 1) * 12) :
    ∃ ts, periodInstants months count offset lo hi (periodFuel months (period / count * count))
        maxInstants (period / count * count) = .ok ts ∧ Within lo hi maxInstants ts := by
  have hstart := isSigned_start hmonths hcount hfits hlow hhigh
  cases hinstant : monthInstant? offset (period / count * count * months) with
  | none =>
    refine ⟨[], periodInstants_stop (checkInstant_of_le hstart.1 hstart.2) fun s hs => ?_,
      within_nil⟩
    cases hinstant.symm.trans hs
  | some s =>
    have hnextFits : NextFits months count offset hi := nextFits_of_le hmonths hfits
    obtain ⟨ts, hts, hlists⟩ := periodInstants_started lo hmonths hcount hnextFits
      (Int.dvd_mul_left _ _) (Option.isSome_iff_exists.2 ⟨s, hinstant⟩)
    exact ⟨ts, hts, hlists.within (le_max_left _ _)⟩

/-! A run of a count of years whose months are too many for a number of 64 bits. -/

variable {fuel room : Nat} {index s : Int} {ts : List Int}

theorem isSigned_of_periodInstants
    (h : periodInstants months count offset lo hi (fuel + 1) (room + 1) index = .ok ts) :
    IsSigned (index * months) := by
  rw [periodInstants, bind_checkInstant_eq_ok_iff] at h
  exact h.1

theorem exists_periodInstants_next
    (h : periodInstants months count offset lo hi (fuel + 1) (room + 1) index = .ok ts)
    (hs : monthInstant? offset (index * months) = some s) (hle : s ≤ hi) :
    ∃ room' rest, room ≤ room' ∧
      periodInstants months count offset lo hi fuel room' (index + count) = .ok rest := by
  rw [periodInstants, bind_checkInstant_eq_ok_iff, hs] at h
  dsimp only at h
  rw [if_neg (Int.not_lt.2 hle), bind_checkInstant_eq_ok_iff] at h
  obtain ⟨-, -, h⟩ := h
  split at h
  · obtain ⟨rest, hrest, -⟩ := bind_eq_ok_iff.1 h
    exact ⟨room, rest, le_rfl, hrest⟩
  · exact ⟨room + 1, ts, Nat.le_succ room, h⟩

theorem monthInstant?_yearZero (hlow : -day < offset) (hhigh : offset < day) :
    monthInstant? offset (0 * 12) = some (periodStart 12 offset 0) := by
  have hfirst : firstInstant ≤ firstDay (0 * 12) * day - day := by decide
  have hlast : firstDay (0 * 12) * day + day ≤ lastInstant := by decide
  refine monthInstant?_eq_some.2 ⟨by decide, inRange_iff.2 ⟨?_, ?_⟩, rfl⟩
  · unfold periodStart
    omega
  · unfold periodStart
    omega

theorem long_years_eq_ok_iff (hlong : signedMax < count * 12) (hcount : count ≤ signedMax)
    (hlow : -day < offset) (hhigh : offset < day) {year : Int} (hfirst : firstYear ≤ year + 1)
    (hlast : year ≤ lastYear + 1) :
    periodInstants 12 count offset lo hi (periodFuel 12 (year / count * count)) maxInstants
        (year / count * count) = .ok ts ↔
      ts = [] ∧ 0 ≤ year ∧ hi < periodStart 12 offset 0 := by
  simp only [firstYear, lastYear, signedMax] at hfirst hlast hlong hcount
  have hstart := monthInstant?_yearZero hlow hhigh
  by_cases hyear : 0 ≤ year
  · have hindex : year / count * count = 0 := by
      rw [Int.ediv_eq_zero_of_lt hyear (by omega), Int.zero_mul]
    have hfuel : periodFuel 12 0 = 262142 + 1 + 1 := by decide
    have hstop (hbefore : hi < periodStart 12 offset 0) :
        periodInstants 12 count offset lo hi (262142 + 1 + 1) maxInstants 0 = .ok [] := by
      refine periodInstants_stop (checkInstant_of_le (by decide) (by decide)) fun s hs => ?_
      exact Option.some.inj (hstart.symm.trans hs) ▸ hbefore
    rw [hindex, hfuel]
    constructor
    · intro h
      by_cases hbefore : hi < periodStart 12 offset 0
      · exact ⟨(Except.ok.inj ((hstop hbefore).symm.trans h)).symm, hyear, hbefore⟩
      · -- the next month is the count after January of the year zero
        obtain ⟨room', rest, hroom, hrest⟩ :=
          exists_periodInstants_next h hstart (Int.not_lt.1 hbefore)
        obtain ⟨room, rfl⟩ := Nat.exists_eq_add_of_lt ((by decide : 0 < 999).trans_le hroom)
        have := (isSigned_of_periodInstants hrest).2
        simp only [signedMax] at this
        omega
    · rintro ⟨rfl, -, hbefore⟩
      exact hstop hbefore
  · have hindex : year / count = -1 := by
      have hge : -1 ≤ year / count := Int.le_ediv_of_mul_le (by omega) (by omega)
      have hneg : year / count < 0 := Int.ediv_lt_of_lt_mul (by omega) (by omega)
      omega
    refine iff_of_false (fun h => ?_) fun h => hyear h.2.1
    have := (isSigned_of_periodInstants h).1
    rw [hindex] at this
    simp only [signedMin] at this
    omega

end

/-! ## The steps of an axis -/

/-- A step of at least one, in 64 bits or for months in 32. -/
def IsProper : TimeStep → Prop
  | .millis step => 1 ≤ step ∧ step ≤ signedMax
  | .weeks => True
  | .months count => 1 ≤ count ∧ count < 4294967296
  | .years count => 1 ≤ count ∧ count ≤ signedMax

instance : DecidablePred IsProper
  | .millis step => inferInstanceAs (Decidable (1 ≤ step ∧ step ≤ signedMax))
  | .weeks => .isTrue trivial
  | .months count => inferInstanceAs (Decidable (1 ≤ count ∧ count < 4294967296))
  | .years count => inferInstanceAs (Decidable (1 ≤ count ∧ count ≤ signedMax))

theorem isProper_of_mem_ladder : ∀ s ∈ ladder, s.1.IsProper := by decide

theorem niceCount_bounds (raw : Float) : 1 ≤ niceCount raw ∧ niceCount raw ≤ signedMax :=
  ⟨le_max_right _ _, max_le (Parts.toSigned_le _ _) (by decide)⟩

theorem isProper_choose (span : Float) : (choose span).IsProper := by
  unfold choose
  dsimp only
  split
  · exact niceCount_bounds _
  · exact niceCount_bounds _
  · rename_i below above rest hbelow habove
    have hmemBelow := (List.takeWhile_sublist _).mem (List.mem_of_getLast? hbelow)
    have hmemAbove := (List.dropWhile_sublist _).mem (habove ▸ List.mem_cons_self)
    split
    · exact isProper_of_mem_ladder _ hmemBelow
    · exact isProper_of_mem_ladder _ hmemAbove

/-- No sum leaves 64 bits that is made for the instants of a step between two others.  The months of
a count of years have a number of 64 bits, unless the first instant is not in the calendar, or the
last one is before the year zero and the first one is not. -/
def Survives (a : Axis) (lo hi : Int) : TimeStep → Prop
  | .millis step => GridFits step 0 (lo + a.offsetMillis) (hi + a.offsetMillis)
  | .weeks => GridFits week firstSunday (lo + a.offsetMillis) (hi + a.offsetMillis)
  | .months _ => True
  | .years count =>
    count * 12 ≤ signedMax ∨ ∀ m, a.moment? (Float.ofInt lo / 1000) = some m →
      0 ≤ m.date.year ∧ hi < periodStart 12 a.offsetMillis 0

section

variable {a : Axis} {lo hi count : Int} {ts : List Int}

theorem year_bounds (hoffset : a.utcOffset.natAbs < 86400) {time : Float} {m : Moment}
    (h : a.moment? time = some m) : firstYear ≤ m.date.year + 1 ∧ m.date.year ≤ lastYear + 1 := by
  obtain ⟨hlow, hhigh⟩ := monthIndex_bounds hoffset h
  obtain ⟨t, -, rfl⟩ := Option.map_eq_some_iff.1 h
  have hmonth := Axis.month_lt a t
  simp only [Date.monthIndex, Axis.localMoment] at *
  omega

theorem exists_instants_months (hoffset : a.utcOffset.natAbs < 86400) (lo hi : Int)
    (hcount : 1 ≤ count ∧ count < 4294967296) :
    ∃ ts, (TimeStep.months count).instants a lo hi = .ok ts ∧ Within lo hi maxInstants ts := by
  unfold instants
  dsimp only
  cases hm : a.moment? (Float.ofInt lo / 1000) with
  | none => exact ⟨[], rfl, within_nil⟩
  | some m =>
    obtain ⟨hlow, hhigh⟩ := monthIndex_bounds hoffset hm
    have hfits : count * 1 ≤ signedMax := by
      simp only [signedMax]
      omega
    have hearly : firstYear * 12 - 12 ≤ m.date.monthIndex * 1 := by omega
    have hlate : m.date.monthIndex * 1 ≤ (lastYear + 1) * 12 := by omega
    exact exists_periodInstants lo hi (.inl rfl) hcount.1 hfits hearly hlate

theorem exists_instants_years (hoffset : a.utcOffset.natAbs < 86400) (lo hi : Int)
    (hcount : 1 ≤ count) (hfits : count * 12 ≤ signedMax) :
    ∃ ts, (TimeStep.years count).instants a lo hi = .ok ts ∧ Within lo hi maxInstants ts := by
  unfold instants
  dsimp only
  cases hm : a.moment? (Float.ofInt lo / 1000) with
  | none => exact ⟨[], rfl, within_nil⟩
  | some m =>
    obtain ⟨hlow, hhigh⟩ := year_bounds hoffset hm
    exact exists_periodInstants lo hi (.inr rfl) hcount hfits (by omega) (by omega)

theorem instants_long_years_eq_ok_iff (hoffset : a.utcOffset.natAbs < 86400)
    (hcount : count ≤ signedMax) (hlong : signedMax < count * 12) :
    (TimeStep.years count).instants a lo hi = .ok ts ↔
      ts = [] ∧ ∀ m, a.moment? (Float.ofInt lo / 1000) = some m →
        0 ≤ m.date.year ∧ hi < periodStart 12 a.offsetMillis 0 := by
  unfold instants
  dsimp only
  cases hm : a.moment? (Float.ofInt lo / 1000) with
  | none => simp [eq_comm]
  | some m =>
    obtain ⟨hlow, hhigh⟩ := offset_bounds hoffset
    obtain ⟨hfirst, hlast⟩ := year_bounds hoffset hm
    simp only [Option.some.injEq, forall_eq']
    exact long_years_eq_ok_iff hlong hcount hlow hhigh hfirst hlast

variable {step : TimeStep}

theorem exists_instants_iff (hproper : step.IsProper) (hoffset : a.utcOffset.natAbs < 86400)
    (hlo : signedMin ≤ lo) (hhi : hi ≤ signedMax) :
    (∃ ts, step.instants a lo hi = .ok ts) ↔ step.Survives a lo hi := by
  cases step with
  | millis step => exact exists_gridInstants_iff hproper.1 hlo hhi
  | weeks => exact exists_gridInstants_iff (by decide) hlo hhi
  | months count =>
    exact iff_of_true ((exists_instants_months hoffset lo hi hproper).imp fun _ h => h.1) trivial
  | years count =>
    by_cases hfits : count * 12 ≤ signedMax
    · exact iff_of_true
        ((exists_instants_years hoffset lo hi hproper.1 hfits).imp fun _ h => h.1) (.inl hfits)
    · simp only [instants_long_years_eq_ok_iff hoffset hproper.2 (Int.not_le.1 hfits),
        exists_eq_left, Survives, hfits, false_or]

theorem within_of_instants (hproper : step.IsProper) (hoffset : a.utcOffset.natAbs < 86400)
    (h : step.instants a lo hi = .ok ts) : Within lo hi maxInstants ts := by
  cases step with
  | millis step => exact (lists_of_gridInstants hproper.1 h).within le_rfl
  | weeks => exact (lists_of_gridInstants (by decide) h).within le_rfl
  | months count =>
    obtain ⟨ts', hts', hwithin⟩ := exists_instants_months hoffset lo hi hproper
    exact Except.ok.inj (hts'.symm.trans h) ▸ hwithin
  | years count =>
    by_cases hfits : count * 12 ≤ signedMax
    · obtain ⟨ts', hts', hwithin⟩ := exists_instants_years hoffset lo hi hproper.1 hfits
      exact Except.ok.inj (hts'.symm.trans h) ▸ hwithin
    · obtain ⟨rfl, -⟩ :=
        (instants_long_years_eq_ok_iff hoffset hproper.2 (Int.not_le.1 hfits)).1 h
      exact within_nil

/-- In the calendar a step survives unless the months of its years are too many to count. -/
theorem survives_of_inRange (hproper : step.IsProper) (hoffset : a.utcOffset.natAbs < 86400)
    (hlo : inRange lo) (hhi : inRange hi)
    (hyears : ∀ count, step = .years count → count * 12 ≤ signedMax) : step.Survives a lo hi := by
  have hmoderateLo := moderate_of_inRange hlo
  have hmoderateHi := moderate_of_inRange hhi
  cases step with
  | millis step =>
    exact gridFits_of_moderate (stepFits_zero hproper.1 hproper.2) ⟨by decide, by decide⟩
      (moderate_offset hoffset) hmoderateLo hmoderateHi
  | weeks =>
    exact gridFits_of_moderate stepFits_week ⟨by decide, by decide⟩ (moderate_offset hoffset)
      hmoderateLo hmoderateHi
  | months count => exact trivial
  | years count => exact .inl (hyears count rfl)

end

end TimeStep

namespace Axis

open TimeStep

variable {a : Axis} {lo hi : Float} {range : Float32 × Float32} {ticks : List Tick}

theorem timeTicks_eq_ok_iff (hlo : lo.isFinite) (hhi : hi.isFinite) (hlt : lo < hi) :
    a.timeTicks (lo, hi) range = .ok ticks ↔
      ∃ ts, (TimeStep.choose ((hi - lo) * 1000)).instants a ((parts (lo * 1000)).toSigned .up)
          ((parts (hi * 1000)).toSigned .down) = .ok ts ∧
        Tick.thin a.minPitch (ts.map (a.timeTick (lo, hi) range)) = ticks := by
  have hle : lo ≤ hi := float_le_of_lt hlt
  have hnot : ¬ hi ≤ lo := fun h => not_float_lt_of_le h hlt
  have hordered : ordered (lo, hi) = (lo, hi) := if_pos hle
  unfold timeTicks
  rw [hordered]
  dsimp only
  rw [if_pos ⟨hlo, hhi⟩, if_neg hnot, map_eq_ok_iff]

/-- The ticks of a domain of times are found if and only if the chosen step survives between the
domain's ends, which the cast to 64 bits has moved.  Whatever a step returns is ascending, within
these ends and no more than a thousand instants, and every tick stands at one of them.  In the
calendar a step survives unless the months of its years are too many to count. -/
theorem timeTicks_iff_survives (a : Axis) (hoffset : a.utcOffset.natAbs ≤ 86399) {lo hi : Float}
    (hlo : lo.isFinite) (hhi : hi.isFinite) (hlt : lo < hi) (range : Float32 × Float32) :
    let first := (parts (lo * 1000)).toSigned .up
    let last := (parts (hi * 1000)).toSigned .down
    let step := TimeStep.choose ((hi - lo) * 1000)
    ((∃ ticks, a.timeTicks (lo, hi) range = .ok ticks) ↔ step.Survives a first last) ∧
      (∀ ts, step.instants a first last = .ok ts → Within first last 1000 ts) ∧
      (∀ ticks, a.timeTicks (lo, hi) range = .ok ticks → ∀ tick ∈ ticks,
        ∃ t, first ≤ t ∧ t ≤ last ∧ a.timeTick (lo, hi) range t = tick) ∧
      (inRange first → inRange last →
        (∀ count, step = .years count → count * 12 ≤ signedMax) → step.Survives a first last) := by
  intro first last step
  have hbelow : a.utcOffset.natAbs < 86400 := Nat.lt_succ_of_le hoffset
  have hproper : step.IsProper := isProper_choose _
  have hwithin (ts : List Int) (h : step.instants a first last = .ok ts) :
      Within first last maxInstants ts := within_of_instants hproper hbelow h
  refine ⟨?_, hwithin, fun ticks hticks tick htick => ?_,
    survives_of_inRange hproper hbelow⟩
  · rw [← exists_instants_iff hproper hbelow (Parts.le_toSigned _ _) (Parts.toSigned_le _ _)]
    simp only [timeTicks_eq_ok_iff hlo hhi hlt]
    exact ⟨fun ⟨_, ts, h, _⟩ => ⟨ts, h⟩, fun ⟨ts, h⟩ => ⟨_, ts, h, rfl⟩⟩
  · obtain ⟨ts, hts, rfl⟩ := (timeTicks_eq_ok_iff hlo hhi hlt).1 hticks
    obtain ⟨t, ht, rfl⟩ := List.mem_map.1 ((Tick.thin_sublist _ _).mem htick)
    obtain ⟨hge, hle⟩ := (hwithin ts hts).bounds t ht
    exact ⟨t, hge, hle, rfl⟩

theorem timeTicks_of_minute_survive :
    let a := standard.withOffset 3600
    let step := TimeStep.choose ((60 - 0) * 1000)
    step = .millis 5000 ∧ step.Survives a 0 60000 ∧
      ∃ ticks, a.timeTicks (0, 60) (0, 60) = .ok ticks ∧
        ∀ tick ∈ ticks, ∃ t, 0 ≤ t ∧ t ≤ 60000 ∧ a.timeTick (0, 60) (0, 60) t = tick := by
  intro a step
  have hstep : step = .millis 5000 := by decide +kernel
  have hfirst : (parts ((0 : Float) * 1000)).toSigned .up = 0 := by decide +kernel
  have hlast : (parts ((60 : Float) * 1000)).toSigned .down = 60000 := by decide +kernel
  have h := @timeTicks_iff_survives a (by decide) 0 60 (by decide +kernel) (by decide +kernel)
    (by decide +kernel) (0, 60)
  rw [hfirst, hlast] at h
  obtain ⟨hiff, -, hticks, hcalendar⟩ := h
  have hsurvives : step.Survives a 0 60000 := by
    refine hcalendar (by decide) (by decide) fun count hyears => ?_
    cases hstep.symm.trans hyears
  obtain ⟨ticks, h⟩ := hiff.2 hsurvives
  exact ⟨hstep, hsurvives, ticks, h, hticks ticks h⟩

/-- Three hundred million years from now both ends of a domain become the last number of 64 bits.
It is no multiple of the fifteen seconds that are chosen, and the next one does not fit. -/
theorem timeTicks_overflow_at_end :
    let lo : Float := 1e16
    let hi : Float := 1e16 + 100
    lo.isFinite ∧ hi.isFinite ∧ lo < hi ∧ TimeStep.choose ((hi - lo) * 1000) = .millis 15000 ∧
      (parts (lo * 1000)).toSigned .up = signedMax ∧
      (parts (hi * 1000)).toSigned .down = signedMax ∧
      standard.timeTicks (lo, hi) (0, 400) = .error .instant := by
  decide +kernel

end Axis

end PoolWatch
