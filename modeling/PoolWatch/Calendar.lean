/-!
# The calendar

Days are numbered from the first of January 1970, and the leap year rule extends to all years.
An instant is a number of milliseconds.
-/

namespace PoolWatch

/-- A calendar date; months are counted from zero. -/
structure Date where
  year : Int
  month : Nat
  day : Nat
  deriving DecidableEq, Repr

namespace Calendar

def isLeap (year : Int) : Bool :=
  year % 4 == 0 && (year % 100 != 0 || year % 400 == 0)

def daysBeforeYear (year : Int) : Int :=
  365 * year + (year + 3) / 4 - (year + 99) / 100 + (year + 399) / 400

def monthStarts (leap : Bool) : List Nat :=
  if leap then [0, 31, 60, 91, 121, 152, 182, 213, 244, 274, 305, 335]
  else [0, 31, 59, 90, 120, 151, 181, 212, 243, 273, 304, 334]

/-- The number of the day on which the year zero begins. -/
def yearZero : Int := -719528

def monthStartDay (year : Int) (month : Nat) : Int :=
  yearZero + daysBeforeYear year + ((monthStarts (isLeap year)).getD month 0 : Nat)

/-- The year of a day. An even spread of the days of 400 years misses it by at most one. -/
def yearOfDay (day : Int) : Int :=
  let days := day - yearZero
  let guess := days * 400 / 146097
  if days < daysBeforeYear guess then guess - 1
  else if daysBeforeYear (guess + 1) ≤ days then guess + 1
  else guess

def dateOfDay (day : Int) : Date :=
  let year := yearOfDay day
  let rest := (day - yearZero - daysBeforeYear year).toNat
  let starts := monthStarts (isLeap year)
  let month := starts.countP (· ≤ rest) - 1
  ⟨year, month, rest - starts.getD month 0 + 1⟩

def weekday (day : Int) : Nat := ((day + 4) % 7).toNat

def weekdayNames : List String := ["Sun", "Mon", "Tue", "Wed", "Thu", "Fri", "Sat"]

def monthNames : List String :=
  ["January", "February", "March", "April", "May", "June", "July", "August", "September",
    "October", "November", "December"]

def monthShortNames : List String :=
  ["Jan", "Feb", "Mar", "Apr", "May", "Jun", "Jul", "Aug", "Sep", "Oct", "Nov", "Dec"]

/-! ## Instants -/

def second : Int := 1000
def minute : Int := 60 * second
def hour : Int := 60 * minute
def day : Int := 24 * hour

def firstYear : Int := -262143

def lastYear : Int := 262142

def firstInstant : Int := monthStartDay firstYear 0 * day

def lastInstant : Int := monthStartDay (lastYear + 1) 0 * day - 1

def inRange (instant : Int) : Bool := firstInstant ≤ instant && instant ≤ lastInstant

end Calendar

structure Moment where
  date : Date
  weekday : Nat
  hour : Nat
  minute : Nat
  second : Nat
  millisecond : Nat
  deriving DecidableEq, Repr

def Moment.ofLocal (millis : Int) : Moment :=
  let day := millis / Calendar.day
  let rest := (millis % Calendar.day).toNat
  { date := Calendar.dateOfDay day
    weekday := Calendar.weekday day
    hour := rest / 3600000
    minute := rest / 60000 % 60
    second := rest / 1000 % 60
    millisecond := rest % 1000 }

end PoolWatch
