/-!
# Floating point numbers taken apart

A binary floating point number is read as a sign, a whole mantissa and a power of two, and a
scaled mantissa is rounded back to the nearest number of a format. Rounding to whole numbers,
casts that stop at the ends of the 64-bit ranges and narrowing to single precision are exact
integer arithmetic on these parts.
-/

namespace PoolWatch.Numeric

/-- A floating point number taken apart. A finite one stands for `mantissa * 2 ^ exponent`,
negated when `negative` holds. -/
inductive Parts where
  | nan
  | infinite (negative : Bool)
  | finite (negative : Bool) (mantissa : Nat) (exponent : Int)
  deriving DecidableEq, Repr

structure Format where
  fractionBits : Nat
  exponentBits : Nat

def binary64 : Format := ⟨52, 11⟩

def binary32 : Format := ⟨23, 8⟩

namespace Format

def hidden (f : Format) : Nat := Nat.pow 2 f.fractionBits

def fieldCount (f : Format) : Nat := Nat.pow 2 f.exponentBits

/-- The power of two of the last place of the smallest numbers. -/
def lastPlace (f : Format) : Int :=
  2 - Nat.pow 2 (f.exponentBits - 1) - f.fractionBits

def infinity (f : Format) : Nat := (f.fieldCount - 1) * f.hidden

def decode (f : Format) (bits : Nat) : Parts :=
  let fraction := bits % f.hidden
  let field := bits / f.hidden % f.fieldCount
  let negative := bits / f.hidden / f.fieldCount % 2 == 1
  if field = f.fieldCount - 1 then
    if fraction = 0 then .infinite negative else .nan
  else if field = 0 then
    .finite negative fraction f.lastPlace
  else
    .finite negative (f.hidden + fraction) (f.lastPlace + field - 1)

end Format

/-- The quotient of two whole numbers rounded to the nearest, a tie to the even neighbour. -/
def roundDiv (num den : Nat) : Nat :=
  let q := num / den
  let r := 2 * (num % den)
  if den < r ∨ (r = den ∧ q % 2 = 1) then q + 1 else q

namespace Format

/-- The bits of the number nearest to `mantissa * 2 ^ exponent`, a tie to the even neighbour.
A value beyond the largest number becomes infinity. -/
def nearest (f : Format) (mantissa : Nat) (exponent : Int) : Nat :=
  if mantissa = 0 then 0 else
  let place := max f.lastPlace (exponent + mantissa.log2 - f.fractionBits)
  let scaled :=
    if place ≤ exponent then mantissa * Nat.pow 2 (exponent - place).toNat
    else roundDiv mantissa (Nat.pow 2 (place - exponent).toNat)
  min f.infinity ((place - f.lastPlace).toNat * f.hidden + scaled)

end Format

def parts (x : Float) : Parts := binary64.decode x.toBits.toNat

def parts32 (x : Float32) : Parts := binary32.decode x.toBits.toNat

def narrow (x : Float) : Float32 :=
  match parts x with
  | .nan => Float32.ofBits 0x7fc00000
  | .infinite negative => Float32.ofBits (if negative then 0xff800000 else 0x7f800000)
  | .finite negative m e =>
    let bits := binary32.nearest m e
    Float32.ofBits (UInt32.ofNat (if negative then 0x80000000 + bits else bits))

/-! ## Whole numbers -/

/-- How a number is brought to a whole one. `nearest` takes a half away from zero. -/
inductive Rounding where
  | down
  | up
  | nearest
  deriving DecidableEq, Repr

def Rounding.quotient (r : Rounding) (num : Int) (den : Nat) : Int :=
  match r with
  | .down => num / den
  | .up => -(-num / den)
  | .nearest =>
    if num < 0 then -((2 * -num + den) / (2 * den)) else (2 * num + den) / (2 * den)

def signedMax : Int := 0x7fffffffffffffff

def signedMin : Int := -0x8000000000000000

def unsignedMax : Nat := 0xffffffffffffffff

namespace Parts

def whole? (r : Rounding) : Parts → Option Int
  | .finite negative m e =>
    let num : Int := m * Nat.pow 2 e.toNat
    some (r.quotient (if negative then -num else num) (Nat.pow 2 (-e).toNat))
  | _ => none

/-- The signed 64-bit number that a value rounds to, stopping at the ends of the range.
What is not a number counts as zero. -/
def toSigned (r : Rounding) (p : Parts) : Int :=
  match p with
  | .nan => 0
  | .infinite negative => if negative then signedMin else signedMax
  | .finite .. => max signedMin (min ((p.whole? r).getD 0) signedMax)

def toUnsigned (r : Rounding) (p : Parts) : Nat :=
  match p with
  | .nan => 0
  | .infinite negative => if negative then 0 else unsignedMax
  | .finite .. => min ((p.whole? r).getD 0).toNat unsignedMax

theorem toSigned_le (r : Rounding) (p : Parts) : p.toSigned r ≤ signedMax := by
  unfold toSigned signedMax signedMin
  split
  · decide
  · split <;> decide
  · omega

theorem le_toSigned (r : Rounding) (p : Parts) : signedMin ≤ p.toSigned r := by
  unfold toSigned signedMax signedMin
  split
  · decide
  · split <;> decide
  · omega

theorem toUnsigned_le (r : Rounding) (p : Parts) : p.toUnsigned r ≤ unsignedMax := by
  unfold toUnsigned unsignedMax
  split
  · decide
  · split <;> decide
  · omega

end Parts

/-! ## Lesser and greater -/

/-- The lesser of two numbers. What is not a number gives way to the other one, and of two
equal numbers the second is taken, which matters for the two zeros. -/
def lesser (x y : Float) : Float :=
  if y.isNaN || x < y then x else y

def greater (x y : Float) : Float :=
  if y.isNaN || y < x then x else y

def lesser32 (x y : Float32) : Float32 :=
  if y.isNaN || x < y then x else y

def greater32 (x y : Float32) : Float32 :=
  if y.isNaN || y < x then x else y

/-- The sum in order. The neutral start is the negative zero, so that a sum of negative zeros
stays one. -/
def sum (xs : List Float) : Float :=
  xs.foldl (· + ·) (-0.0)

end PoolWatch.Numeric
