import PoolWatch.Numeric.Parts
/-!
# Powers of ten

The logarithm and the power of the machine are good to the last places, but how they round there
is not said. They are taken where they are as good as that, so what is found differs from the
exact exponent and power by rounding only.
-/

namespace PoolWatch.Numeric

/-- The number `mantissa * 2 ^ exponent` begins at the power of ten, up to the rounding of a
logarithm just below it, and ends before the next one. -/
def beginsAt (mantissa : Nat) (exponent power : Int) : Bool :=
  let number := mantissa * Nat.pow 2 exponent.toNat * Nat.pow 10 (-power).toNat
  let ten := Nat.pow 10 power.toNat * Nat.pow 2 (-exponent).toNat
  ten * (Nat.pow 2 40 - 1) ≤ number * Nat.pow 2 40 && number < 10 * ten

def tenExponents : List Int := (List.range 633).map fun (k : Nat) => 308 - (k : Int)

def tenLog (x : Float) : Int :=
  let machine := (parts (Float.log10 x)).toSigned .down
  match parts x with
  | .finite false mantissa exponent =>
    if mantissa = 0 ∨ beginsAt mantissa exponent machine then machine
    else (tenExponents.find? (beginsAt mantissa exponent)).getD machine
  | _ => machine

def nearestTen (power : Int) : Float := Float.ofScientific 1 (power < 0) power.natAbs

/-- The float nearest to a power of ten, and the ones next to it. -/
def nearTen (power : Int) : List Float :=
  let bits := (nearestTen power).toBits
  [nearestTen power, Float.ofBits (bits + 1), Float.ofBits (bits - 1)]

def tenPower (power : Int) : Float :=
  let machine := Float.pow 10 (Float.ofInt power)
  ((nearTen power).find? (· == machine)).getD (nearestTen power)

end PoolWatch.Numeric
