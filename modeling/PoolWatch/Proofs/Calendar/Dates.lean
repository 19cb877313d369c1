import Mathlib.Data.List.GetD
import Mathlib.Order.Monotone.Basic
import PoolWatch.Calendar
/-!
# Days and dates

A year begins where the one before it ends, and so does a month.  So every day has one date, and
every date of the Gregorian calendar is that of one day.
-/

namespace PoolWatch

namespace Calendar

/-! ## Instants -/

theorem minute_eq : minute = 60000 := rfl

theorem hour_eq : hour = 3600000 := rfl

theorem day_eq : day = 86400000 := rfl

theorem inRange_iff {t : Int} : inRange t ↔ firstInstant ≤ t ∧ t ≤ lastInstant := by
  simp only [inRange, Bool.and_eq_true, decide_eq_true_eq]

/-! ## Years -/

def yearLength (leap : Bool) : Nat := if leap then 366 else 365

theorem daysBeforeYear_succ (year : Int) :
    daysBeforeYear (year + 1) = daysBeforeYear year + yearLength (isLeap year) := by
  -- each quotient grows by one at the years that its divisor divides
  have hfour : (year + 1 + 3) / 4 = (year + 3) / 4 + if year % 4 = 0 then 1 else 0 := by
    split <;> omega
  have hcentury : (year + 1 + 99) / 100 = (year + 99) / 100 + if year % 100 = 0 then 1 else 0 := by
    split <;> omega
  have hcycle : (year + 1 + 399) / 400 = (year + 399) / 400 + if year % 400 = 0 then 1 else 0 := by
    split <;> omega
  simp only [daysBeforeYear, yearLength, isLeap, Bool.and_eq_true, Bool.or_eq_true, beq_iff_eq,
    bne_iff_ne, ne_eq, hfour, hcentury, hcycle]
  split_ifs <;> omega

theorem daysBeforeYear_spread (year : Int) :
    146097 * year - 396 ≤ 400 * daysBeforeYear year ∧
      400 * daysBeforeYear year ≤ 146097 * year + 699 := by
  unfold daysBeforeYear
  omega

theorem yearOfDay_bounds (day : Int) :
    daysBeforeYear (yearOfDay day) ≤ day - yearZero ∧
      day - yearZero < daysBeforeYear (yearOfDay day + 1) := by
  generalize hguess : (day - yearZero) * 400 / 146097 = guess
  have hbelow := (daysBeforeYear_spread (guess - 1)).2
  have habove := (daysBeforeYear_spread (guess + 1 + 1)).1
  have hyear : yearOfDay day = if day - yearZero < daysBeforeYear guess then guess - 1
      else if daysBeforeYear (guess + 1) ≤ day - yearZero then guess + 1 else guess := by
    rw [← hguess]
    rfl
  rw [hyear]
  split_ifs with hearly hlate
  · rw [Int.sub_add_cancel]
    omega
  · omega
  · omega

/-! ## Months -/

def monthLength (leap : Bool) (month : Nat) : Nat :=
  [31, if leap then 29 else 28, 31, 30, 31, 30, 31, 31, 30, 31, 30, 31].getD month 0

theorem length_monthStarts (leap : Bool) : (monthStarts leap).length = 12 := by
  cases leap <;> rfl

theorem monthStarts_pairwise (leap : Bool) : (monthStarts leap).Pairwise (· < ·) := by
  cases leap <;> decide

theorem monthStarts_succ (leap : Bool) :
    ∀ month < 11, (monthStarts leap).getD (month + 1) 0 =
      (monthStarts leap).getD month 0 + monthLength leap month := by
  cases leap <;> decide

theorem monthStarts_december (leap : Bool) :
    (monthStarts leap).getD 11 0 + monthLength leap 11 = yearLength leap := by
  cases leap <;> rfl

theorem monthLength_pos (leap : Bool) : ∀ month < 12, 0 < monthLength leap month := by
  cases leap <;> decide

theorem lt_countP_iff {starts : List Nat} {i start rest : Nat} (h : starts.Pairwise (· < ·))
    (hstart : starts[i]? = some start) : i < starts.countP (· ≤ rest) ↔ start ≤ rest := by
  induction starts generalizing i with
  | nil => simp at hstart
  | cons first starts ih =>
    obtain ⟨hfirst, hrest⟩ := List.pairwise_cons.1 h
    cases i with
    | zero =>
      obtain rfl : first = start := by simpa using hstart
      have hnone (hlt : rest < first) : starts.countP (· ≤ rest) = 0 := by
        refine List.countP_eq_zero.2 fun x hx => ?_
        have := hfirst x hx
        simp only [decide_eq_true_eq]
        omega
      by_cases hle : first ≤ rest
      · simp [hle]
      · simp [hle, hnone (Nat.lt_of_not_le hle)]
    | succ i =>
      rw [List.getElem?_cons_succ] at hstart
      have hlt := hfirst start (List.mem_of_getElem? hstart)
      have hih := ih hrest hstart
      rw [List.countP_cons]
      split
      next => omega
      next hle =>
        have : ¬ first ≤ rest := by simpa using hle
        omega

theorem monthStartDay_succ (year : Int) {month : Nat} (h : month < 11) :
    monthStartDay year (month + 1) =
      monthStartDay year month + monthLength (isLeap year) month := by
  rw [monthStartDay, monthStartDay, monthStarts_succ _ month h]
  omega

theorem monthStartDay_december (year : Int) :
    monthStartDay (year + 1) 0 = monthStartDay year 11 + monthLength (isLeap year) 11 := by
  have hjanuary : (monthStarts (isLeap (year + 1))).getD 0 0 = 0 := by
    cases isLeap (year + 1) <;> rfl
  have hend := monthStarts_december (isLeap year)
  rw [monthStartDay, monthStartDay, hjanuary, daysBeforeYear_succ]
  omega

/-- The first day of a month, counted from January of the year zero. -/
def firstDay (index : Int) : Int := monthStartDay (index / 12) (index % 12).toNat

theorem firstDay_index (year : Int) {month : Nat} (h : month < 12) :
    firstDay (year * 12 + month) = monthStartDay year month := by
  have hyear : (year * 12 + month) / 12 = year := by omega
  have hmonth : ((year * 12 + month) % 12).toNat = month := by omega
  rw [firstDay, hyear, hmonth]

theorem firstDay_succ (year : Int) {month : Nat} (h : month < 12) :
    firstDay (year * 12 + month + 1) =
      firstDay (year * 12 + month) + monthLength (isLeap year) month := by
  rw [firstDay_index year h]
  obtain hbefore | rfl : month < 11 ∨ month = 11 := by omega
  · rw [← monthStartDay_succ year hbefore, ← firstDay_index year (Nat.succ_lt_succ hbefore)]
    congr 1
    omega
  · rw [← monthStartDay_december, ← firstDay_index (year + 1) (Nat.zero_lt_succ 11)]
    congr 1
    omega

theorem firstDay_lt_succ (index : Int) : firstDay index < firstDay (index + 1) := by
  have hmonth : (index % 12).toNat < 12 := by omega
  have hindex : index / 12 * 12 + ((index % 12).toNat : Nat) = index := by omega
  have hsucc := firstDay_succ (index / 12) hmonth
  have hpos := monthLength_pos (isLeap (index / 12)) _ hmonth
  rw [hindex] at hsucc
  omega

theorem firstDay_lt_firstDay {i j : Int} : firstDay i < firstDay j ↔ i < j :=
  (strictMono_int_of_lt_succ firstDay_lt_succ).lt_iff_lt

theorem firstDay_le_firstDay {i j : Int} : firstDay i ≤ firstDay j ↔ i ≤ j :=
  (strictMono_int_of_lt_succ firstDay_lt_succ).le_iff_le

end Calendar

/-! ## Dates -/

namespace Date

open Calendar

structure IsValid (d : Date) : Prop where
  month_lt : d.month < 12
  day_pos : 1 ≤ d.day
  day_le : d.day ≤ monthLength (isLeap d.year) d.month

/-- The number of the month, counted from January of the year zero. -/
def monthIndex (d : Date) : Int := d.year * 12 + d.month

def toDay (d : Date) : Int := firstDay d.monthIndex + (d.day - 1)

theorem IsValid.firstDay_le {d : Date} (h : d.IsValid) : firstDay d.monthIndex ≤ d.toDay := by
  have := h.day_pos
  unfold toDay
  omega

theorem IsValid.toDay_lt {d : Date} (h : d.IsValid) : d.toDay < firstDay (d.monthIndex + 1) := by
  have hsucc := firstDay_succ d.year h.month_lt
  have := h.day_le
  unfold toDay monthIndex
  omega

theorem toDay_injective {d e : Date} (hd : d.IsValid) (he : e.IsValid) (h : d.toDay = e.toDay) :
    d = e := by
  have hle := firstDay_lt_firstDay.1 (hd.firstDay_le.trans_lt (h ▸ he.toDay_lt))
  have hge := firstDay_lt_firstDay.1 (he.firstDay_le.trans_lt (h ▸ hd.toDay_lt))
  have hindex : d.monthIndex = e.monthIndex := by omega
  have := hd.month_lt
  have := he.month_lt
  have := hd.day_pos
  have := he.day_pos
  obtain ⟨year, month, day⟩ := d
  obtain ⟨year', month', day'⟩ := e
  simp only [toDay, hindex] at h
  simp only [monthIndex] at *
  obtain rfl : year = year' := by omega
  obtain rfl : month = month' := by omega
  obtain rfl : day = day' := by omega
  rfl

end Date

namespace Calendar

theorem month_bounds (leap : Bool) {rest : Nat} (h : rest < yearLength leap) :
    let month := (monthStarts leap).countP (· ≤ rest) - 1
    month < 12 ∧ (monthStarts leap).getD month 0 ≤ rest ∧
      rest < (monthStarts leap).getD month 0 + monthLength leap month := by
  intro month
  have hstart {i : Nat} (hi : i < 12) :
      i < (monthStarts leap).countP (· ≤ rest) ↔ (monthStarts leap).getD i 0 ≤ rest := by
    have hlength : i < (monthStarts leap).length := by rwa [length_monthStarts]
    rw [List.getD_eq_getElem _ _ hlength]
    exact lt_countP_iff (monthStarts_pairwise leap) (List.getElem?_eq_getElem hlength)
  have hpos : 0 < (monthStarts leap).countP (· ≤ rest) := by
    refine (hstart (by decide)).2 ?_
    cases leap <;> exact Nat.zero_le rest
  have hcount : (monthStarts leap).countP (· ≤ rest) ≤ 12 :=
    length_monthStarts leap ▸ List.countP_le_length
  have hlt : month < 12 := by omega
  refine ⟨hlt, (hstart hlt).1 (by omega), ?_⟩
  obtain hbefore | hlast : month < 11 ∨ month = 11 := by omega
  · rw [← monthStarts_succ leap month hbefore, ← Nat.not_le, ← hstart (by omega)]
    omega
  · rw [hlast, monthStarts_december]
    exact h

theorem dateOfDay_spec (day : Int) : (dateOfDay day).IsValid ∧ (dateOfDay day).toDay = day := by
  obtain ⟨hfrom, hto⟩ := yearOfDay_bounds day
  rw [daysBeforeYear_succ] at hto
  obtain ⟨rest, hrest⟩ := Int.eq_ofNat_of_zero_le (Int.sub_nonneg_of_le hfrom)
  have hlt : rest < yearLength (isLeap (yearOfDay day)) := by omega
  obtain ⟨hmonth, hstart, hend⟩ := month_bounds _ hlt
  have htoNat : (day - yearZero - daysBeforeYear (yearOfDay day)).toNat = rest := by omega
  simp only [dateOfDay, htoNat]
  refine ⟨⟨hmonth, Nat.succ_pos _, ?_⟩, ?_⟩
  · dsimp only
    omega
  · simp only [Date.toDay, Date.monthIndex, firstDay_index _ hmonth, monthStartDay]
    omega

theorem dateOfDay_isValid (day : Int) : (dateOfDay day).IsValid := (dateOfDay_spec day).1

theorem toDay_dateOfDay (day : Int) : (dateOfDay day).toDay = day := (dateOfDay_spec day).2

theorem dateOfDay_toDay {d : Date} (h : d.IsValid) : dateOfDay d.toDay = d :=
  Date.toDay_injective (dateOfDay_isValid _) h (toDay_dateOfDay _)

theorem dateOfDay_firstDay (index : Int) :
    dateOfDay (firstDay index) = ⟨index / 12, (index % 12).toNat, 1⟩ := by
  have hmonth : (index % 12).toNat < 12 := by omega
  have hvalid : (⟨index / 12, (index % 12).toNat, 1⟩ : Date).IsValid :=
    ⟨hmonth, le_rfl, monthLength_pos _ _ hmonth⟩
  have hindex : (⟨index / 12, (index % 12).toNat, 1⟩ : Date).monthIndex = index := by
    simp only [Date.monthIndex]
    omega
  have hday := dateOfDay_toDay hvalid
  rw [Date.toDay, hindex] at hday
  simpa using hday

example : dateOfDay 0 = ⟨1970, 0, 1⟩ := by decide

end Calendar

end PoolWatch
