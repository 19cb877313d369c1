import PoolWatch.Decimal.Shortest
/-!
# Decimal notation

Texts of numbers: with the fewest digits that read back and no exponent, or with a fixed number
of places.
-/

namespace PoolWatch.Decimal

open PoolWatch.Numeric

def zeros (n : Nat) : String := String.ofList (List.replicate n '0')

/-- `digits * 10 ^ exponent` written without an exponent, and without a point when it is
whole. -/
def positional (d : Digits) : String :=
  let text := toString d.digits
  if 0 ≤ d.exponent then
    text ++ zeros d.exponent.toNat
  else
    let places := (-d.exponent).toNat
    if places < text.length then
      String.ofList (text.toList.take (text.length - places)) ++ "." ++
        String.ofList (text.toList.drop (text.length - places))
    else
      "0." ++ zeros (places - text.length) ++ text

def sign (negative : Bool) : String := if negative then "-" else ""

def plain (f : Format) : Parts → String
  | .nan => "NaN"
  | .infinite negative => sign negative ++ "inf"
  | .finite negative mantissa exponent =>
    sign negative ++
      if mantissa = 0 then "0" else positional (shortest f .up mantissa exponent)

def pointed (places units : Nat) : String :=
  let text := toString units
  let text := zeros (places + 1 - text.length) ++ text
  if places = 0 then text
  else
    String.ofList (text.toList.take (text.length - places)) ++ "." ++
      String.ofList (text.toList.drop (text.length - places))

/-- A number with a fixed count of places. The exact value is rounded, a tie goes to the even
neighbour, and the sign of zero is kept. -/
def fixed (places : Nat) : Parts → String
  | .nan => "NaN"
  | .infinite negative => sign negative ++ "inf"
  | .finite negative mantissa exponent =>
    sign negative ++
      pointed places
        (roundDiv (mantissa * Nat.pow 2 exponent.toNat * Nat.pow 10 places)
          (Nat.pow 2 (-exponent).toNat))

end PoolWatch.Decimal
