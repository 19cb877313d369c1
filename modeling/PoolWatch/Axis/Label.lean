import PoolWatch.Calendar
import PoolWatch.Numeric.Parts
/-!
# Labels of time axes

A time is labelled at the finest calendar unit that it is not aligned to: half past twelve as a
time of day, a midnight as a day, the first of a month as a month.
-/

namespace PoolWatch

open PoolWatch.Numeric

/-- The finest calendar unit that a time is not aligned to. -/
inductive Granularity where
  | millisecond
  | second
  | minute
  | hour
  | day
  | week
  | month
  | year
  deriving DecidableEq, Repr

/-- The granularity of a moment. Weeks begin on Sunday. -/
def Moment.granularity (m : Moment) : Granularity :=
  if m.millisecond ≠ 0 then .millisecond
  else if m.second ≠ 0 then .second
  else if m.minute ≠ 0 then .minute
  else if m.hour ≠ 0 then .hour
  else if m.date.day ≠ 1 then if m.weekday ≠ 0 then .day else .week
  else if m.date.month ≠ 0 then .month
  else .year

def padded (width n : Nat) : String :=
  let digits := toString n
  String.ofList (List.replicate (width - digits.length) '0') ++ digits

def yearText (year : Int) : String :=
  if year < 0 then "-" ++ padded 4 year.natAbs
  else if year ≤ 9999 then padded 4 year.natAbs
  else "+" ++ padded 4 year.natAbs

def Moment.text (m : Moment) : Granularity → String
  | .millisecond => padded 2 m.second ++ "." ++ padded 3 m.millisecond
  | .second => padded 2 m.hour ++ ":" ++ padded 2 m.minute ++ ":" ++ padded 2 m.second
  | .minute | .hour => padded 2 m.hour ++ ":" ++ padded 2 m.minute
  | .day => Calendar.weekdayNames.getD m.weekday "" ++ " " ++ padded 2 m.date.day
  | .week => Calendar.monthShortNames.getD m.date.month "" ++ " " ++ padded 2 m.date.day
  | .month => Calendar.monthNames.getD m.date.month ""
  | .year => yearText m.date.year

structure Axis where
  /-- Seconds east of Greenwich of the time that labels show. -/
  utcOffset : Int
  minPitch : Float32

namespace Axis

def defaultPitch : Float32 := 40.0

def standard : Axis := ⟨0, defaultPitch⟩

def withOffset (a : Axis) (seconds : Int) : Axis := { a with utcOffset := seconds }

def withPitch (a : Axis) (pitch : Float32) : Axis := { a with minPitch := greater32 pitch 0.0 }

def offsetMillis (a : Axis) : Int := a.utcOffset * Calendar.second

def instant? (time : Float) : Option Int :=
  if time.isFinite then
    let instant := (parts (time * 1000)).toSigned .nearest
    if Calendar.inRange instant then some instant else none
  else none

def moment? (a : Axis) (time : Float) : Option Moment :=
  (instant? time).map fun instant => Moment.ofLocal (instant + a.offsetMillis)

def granularity (a : Axis) (time : Float) : Granularity :=
  match a.moment? time with
  | some m => m.granularity
  | none => .year

def label (a : Axis) (time : Float) : String :=
  match a.moment? time with
  | some m => m.text m.granularity
  | none => ""

end Axis

end PoolWatch
