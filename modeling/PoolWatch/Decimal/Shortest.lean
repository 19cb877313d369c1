import PoolWatch.Numeric.Parts
/-!
# The fewest digits that read back

The reals that round to a binary number form an interval around it. Of the decimals in that
interval the search takes one on the coarsest grid of powers of ten, and of two neighbours on
that grid the nearer one.
-/

namespace PoolWatch.Decimal

open PoolWatch.Numeric

structure Digits where
  digits : Nat
  exponent : Int
  deriving DecidableEq, Repr

inductive Tie where
  | up
  | even
  deriving DecidableEq, Repr

/-- The interval of reals that round to `mantissa * 2 ^ exponent`. Its ends are counted in
quarters of the last place, and belong to it when the mantissa is even. -/
structure Interval where
  low : Nat
  middle : Nat
  high : Nat
  closed : Bool
  quarter : Int

/-- The interval of a positive number. Just above a power of two the gap below is half as
wide. -/
def Interval.ofNumber (f : Format) (mantissa : Nat) (exponent : Int) : Interval where
  low :=
    if mantissa = f.hidden ∧ f.lastPlace < exponent then 4 * mantissa - 1
    else 4 * mantissa - 2
  middle := 4 * mantissa
  high := 4 * mantissa + 2
  closed := mantissa % 2 == 0
  quarter := exponent - 2

namespace Interval

def scaled (i : Interval) (power : Int) (quarters : Nat) : Nat :=
  quarters * Nat.pow 2 i.quarter.toNat * Nat.pow 10 (-power).toNat

def step (i : Interval) (power : Int) : Nat :=
  Nat.pow 10 power.toNat * Nat.pow 2 (-i.quarter).toNat

def holds (i : Interval) (power : Int) (digits : Nat) : Bool :=
  let point := digits * i.step power
  let low := i.scaled power i.low
  let high := i.scaled power i.high
  if i.closed then decide (low ≤ point ∧ point ≤ high) else decide (low < point ∧ point < high)

/-- The multiple of `10 ^ power` in the interval that is nearest to the middle. -/
def candidate? (i : Interval) (tie : Tie) (power : Int) : Option Nat :=
  let step := i.step power
  let middle := i.scaled power i.middle
  let below := middle / step
  let above := below + 1
  match i.holds power below, i.holds power above with
  | true, true =>
    let toBelow := middle - below * step
    let toAbove := above * step - middle
    if toBelow < toAbove then some below
    else if toAbove < toBelow then some above
    else match tie with
      | .up => some above
      | .even => some (if below % 2 = 0 then below else above)
  | true, false => some below
  | false, true => some above
  | false, false => none

def search (i : Interval) (tie : Tie) : (fuel : Nat) → (power : Int) → Digits
  | 0, power => ⟨i.scaled power i.middle / i.step power, power⟩
  | fuel + 1, power =>
    match i.candidate? tie power with
    | some digits => ⟨digits, power⟩
    | none => i.search tie fuel (power - 1)

end Interval

def powerAbove (mantissa : Nat) (exponent : Int) : Int :=
  (mantissa.log2 + exponent + 1) * 30103 / 100000 + 1

/-- The shortest decimal that reads back as the positive number `mantissa * 2 ^ exponent`. -/
def shortest (f : Format) (tie : Tie) (mantissa : Nat) (exponent : Int) : Digits :=
  let top := powerAbove mantissa exponent
  (Interval.ofNumber f mantissa exponent).search tie (top - min exponent 0).toNat top

end PoolWatch.Decimal
