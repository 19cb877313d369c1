import PoolWatch.Axis.Label
import PoolWatch.Numeric.Checked
import PoolWatch.Numeric.Ten
/-!
# Steps of axes

The distance of ticks on a time axis is taken from a ladder of calendar steps, or is one, two or
five times a power of ten. The instants of a step lie on a grid of local time: multiples of a
number of milliseconds, Sundays, firsts of months, or New Year's days.
-/

namespace PoolWatch

open PoolWatch.Numeric

inductive TimeStep where
  | millis (step : Int)
  | weeks
  | months (count : Int)
  | years (count : Int)
  deriving DecidableEq, Repr

/-- One, two or five times a power of ten, closest to `raw`. -/
def niceStep (raw : Float) : Float :=
  if 0 < raw ∧ raw.isFinite then
    let base := tenPower (tenLog raw)
    let error := raw / base
    let factor : Float :=
      if Float.sqrt 50 ≤ error then 10
      else if Float.sqrt 10 ≤ error then 5
      else if Float.sqrt 2 ≤ error then 2
      else 1
    factor * base
  else 1

namespace TimeStep

def targetTicks : Float := 10

def maxInstants : Nat := 1000

def week : Int := 7 * Calendar.day
def month : Int := 30 * Calendar.day
def year : Int := 365 * Calendar.day

def ladder : List (TimeStep × Int) :=
  let millis (n : Int) : TimeStep × Int := (.millis n, n)
  [millis Calendar.second, millis (5 * Calendar.second), millis (15 * Calendar.second),
    millis (30 * Calendar.second), millis Calendar.minute, millis (5 * Calendar.minute),
    millis (15 * Calendar.minute), millis (30 * Calendar.minute), millis Calendar.hour,
    millis (3 * Calendar.hour), millis (6 * Calendar.hour), millis (12 * Calendar.hour),
    millis Calendar.day, millis (2 * Calendar.day), (.weeks, week), (.months 1, month),
    (.months 3, 3 * month), (.years 1, year)]

def niceCount (raw : Float) : Int := max ((parts (niceStep raw)).toSigned .nearest) 1

/-- The step for a span in milliseconds: of the two steps of the ladder around a tenth of it the
nearer one in ratio, and a nice number of milliseconds or years beyond the ladder's ends. -/
def choose (span : Float) : TimeStep :=
  let target := span / targetTicks
  let reaches (s : TimeStep × Int) : Bool := Float.ofInt s.2 ≤ target
  match (ladder.takeWhile reaches).getLast?, ladder.dropWhile reaches with
  | _, [] => .years (niceCount (target / Float.ofInt year))
  | none, _ :: _ => .millis (niceCount target)
  | some below, above :: _ =>
    if target / Float.ofInt below.2 < Float.ofInt above.2 / target then below.1 else above.1

/-- Sunday the 28th of December 1969 in milliseconds. -/
def firstSunday : Int := -4 * Calendar.day

def every (step offset last : Int) : (room : Nat) → (instant : Int) →
    Except Overflow (List Int)
  | 0, _ => .ok []
  | room + 1, instant =>
    if instant ≤ last then do
      let utc ← checkInstant (instant - offset)
      let next ← checkInstant (instant + step)
      return utc :: (← every step offset last room next)
    else .ok []

def firstMultiple (step origin first : Int) : Except Overflow Int := do
  let distance ← checkInstant (first - origin)
  let below ← checkInstant (distance / step * step)
  let instant ← checkInstant (below + origin)
  if instant < first then checkInstant (instant + step) else return instant

/-- The instants between `lo` and `hi` on the local grid of multiples of `step` away from
`origin`. -/
def gridInstants (step origin offset lo hi : Int) : Except Overflow (List Int) := do
  let first ← checkInstant (lo + offset)
  let instant ← firstMultiple step origin first
  let last ← checkInstant (hi + offset)
  every step offset last maxInstants instant

/-- The instant of local midnight on the first of a month, counted from January of the year
zero, if it is in the calendar. -/
def monthInstant? (offset month : Int) : Option Int :=
  let year := month / 12
  if Calendar.firstYear ≤ year ∧ year ≤ Calendar.lastYear then
    let instant := Calendar.monthStartDay year (month % 12).toNat * Calendar.day - offset
    if Calendar.inRange instant then some instant else none
  else none

/-- The instants between `lo` and `hi` at which periods begin: those with the numbers `index`,
`index + count`, …, each of `months` months. -/
def periodInstants (months count offset lo hi : Int) : (fuel room : Nat) → (index : Int) →
    Except Overflow (List Int)
  | 0, _, _ => .ok []
  | _ + 1, 0, _ => .ok []
  | fuel + 1, room + 1, index => do
    let month ← checkInstant (index * months)
    match monthInstant? offset month with
    | none => return []
    | some instant =>
      if hi < instant then return []
      else
        let next ← checkInstant (index + count)
        if lo ≤ instant then
          return instant :: (← periodInstants months count offset lo hi fuel room next)
        else periodInstants months count offset lo hi fuel (room + 1) next

def periodFuel (months index : Int) : Nat :=
  ((Calendar.lastYear + 1) * 12 / months - index).toNat + 1

def instants (step : TimeStep) (a : Axis) (lo hi : Int) : Except Overflow (List Int) :=
  let offset := a.offsetMillis
  match step with
  | .millis step => gridInstants step 0 offset lo hi
  | .weeks => gridInstants week firstSunday offset lo hi
  | .months count =>
    match a.moment? (Float.ofInt lo / 1000) with
    | none => .ok []
    | some m =>
      let index := (m.date.year * 12 + m.date.month) / count * count
      periodInstants 1 count offset lo hi (periodFuel 1 index) maxInstants index
  | .years count =>
    match a.moment? (Float.ofInt lo / 1000) with
    | none => .ok []
    | some m =>
      let index := m.date.year / count * count
      periodInstants 12 count offset lo hi (periodFuel 12 index) maxInstants index

end TimeStep

end PoolWatch
