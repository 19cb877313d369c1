import PoolWatch.Json.Text
/-!
# Numbers of JSON texts

A number without fraction and exponent is whole when it fits 64 bits. Every other one is a
floating point number: as many digits as fit 64 bits are gathered, further ones only move the
point, and the result is scaled by a power of ten.
-/

namespace PoolWatch.Json

open PoolWatch.Numeric

inductive Number where
  | whole (value : Int)
  | amount (value : Float)

def isDigit (octet : UInt8) : Bool := 0x30 ≤ octet && octet ≤ 0x39

def digitValue (octet : UInt8) : Nat := octet.toNat - 0x30

def spanDigits (text : List UInt8) : List UInt8 × List UInt8 :=
  (text.takeWhile isDigit, text.dropWhile isDigit)

/-- Appends digits to a significand while it fits 64 bits. The count is of those appended. -/
def gather (significand : Nat) : List UInt8 → Nat × Nat
  | [] => (significand, 0)
  | d :: digits =>
    let more := significand * 10 + digitValue d
    if unsignedMax < more then (significand, 0)
    else
      let (value, count) := gather more digits
      (value, count + 1)

def powerOfTen (n : Nat) : Float := Float.ofScientific 1 false n

def scaleDown : (fuel : Nat) → Float → Int → Float × Int
  | 0, x, exponent => (x, exponent)
  | fuel + 1, x, exponent =>
    if exponent < -308 ∧ ¬x == 0 then scaleDown fuel (x / powerOfTen 308) (exponent + 308)
    else (x, exponent)

/-- The number `significand * 10 ^ exponent`. One beyond the largest number is a problem. -/
def scale (significand : Nat) (exponent : Int) : Except Problem Float :=
  let (x, exponent) := scaleDown (exponent.natAbs / 308) (Float.ofNat significand) exponent
  if exponent.natAbs ≤ 308 then
    if 0 ≤ exponent then
      let y := x * powerOfTen exponent.toNat
      if y.isInf then .error .numberOutOfRange else .ok y
    else .ok (x / powerOfTen exponent.natAbs)
  else if x == 0 then .ok x
  else .error .numberOutOfRange

def digitsValue (digits : List UInt8) : Nat :=
  digits.foldl (fun n d => n * 10 + digitValue d) 0

def largestExponent : Nat := 0x7fffffff

def readExponent (significand : Nat) (exponent : Int) : Reader Float := fun text =>
  let (negative, text) := match text with
    | 0x2b :: rest => (false, rest)
    | 0x2d :: rest => (true, rest)
    | _ => (false, text)
  match spanDigits text with
  | ([], []) => .error .endOfValue
  | ([], _ :: _) => .error .invalidNumber
  | (digits, rest) =>
    let power := digitsValue digits
    if largestExponent < power then
      if significand ≠ 0 ∧ ¬negative then .error .numberOutOfRange else .ok (0.0, rest)
    else
      match scale significand (if negative then exponent - power else exponent + power) with
      | .error problem => .error problem
      | .ok x => .ok (x, rest)

def readTail (significand : Nat) (exponent : Int) : Reader Float := fun text =>
  match text with
  | 0x65 :: rest => readExponent significand exponent rest
  | 0x45 :: rest => readExponent significand exponent rest
  | _ =>
    match scale significand exponent with
    | .error problem => .error problem
    | .ok x => .ok (x, text)

def readFraction (significand : Nat) (exponent : Int) : Reader Float := fun text =>
  match spanDigits text with
  | ([], []) => .error .endOfValue
  | ([], _ :: _) => .error .invalidNumber
  | (digits, rest) =>
    let (significand, count) := gather significand digits
    readTail significand (exponent - count) rest

/-- A whole number in its place, or the floating point number it counts as: a negative zero,
or one below the signed range. -/
def wholeNumber (negative : Bool) (n : Nat) : Number :=
  if negative then
    if 0 < n ∧ signedMin ≤ -n then .whole (-n) else .amount (-Float.ofNat n)
  else .whole n

def readUnsigned (negative : Bool) : Reader Number := fun text =>
  let amount (r : Except Problem (Float × List UInt8)) : Except Problem (Number × List UInt8) :=
    r.map fun (x, rest) => (.amount (if negative then -x else x), rest)
  match spanDigits text with
  | ([], []) => .error .endOfValue
  | ([], _ :: _) => .error .invalidNumber
  | (0x30 :: _ :: _, _) => .error .invalidNumber
  | (digits, rest) =>
    let (significand, count) := gather 0 digits
    let dropped : Int := digits.length - count
    match rest with
    | 0x2e :: rest => amount (readFraction significand dropped rest)
    | 0x65 :: rest => amount (readExponent significand dropped rest)
    | 0x45 :: rest => amount (readExponent significand dropped rest)
    | _ =>
      if count = digits.length then .ok (wholeNumber negative significand, rest)
      else amount (readTail significand dropped rest)

def readNumber : Reader Number := fun text =>
  match text with
  | 0x2d :: rest => readUnsigned true rest
  | _ => readUnsigned false text

/-! ## Numbers that are passed over -/

def passExponent (text : List UInt8) : Except Problem (List UInt8) :=
  let text := match text with
    | 0x2b :: rest => rest
    | 0x2d :: rest => rest
    | _ => text
  match spanDigits text with
  | ([], _) => .error .invalidNumber
  | (_, rest) => .ok rest

def passTail (text : List UInt8) : Except Problem (List UInt8) :=
  match text with
  | 0x65 :: rest => passExponent rest
  | 0x45 :: rest => passExponent rest
  | _ => .ok text

/-- Passes over a number after its sign. Its size is not looked at. -/
def passUnsigned (text : List UInt8) : Except Problem (List UInt8) :=
  match spanDigits text with
  | ([], _) => .error .invalidNumber
  | (0x30 :: _ :: _, _) => .error .invalidNumber
  | (_, 0x2e :: rest) =>
    match spanDigits rest with
    | ([], _) => .error .invalidNumber
    | (_, rest) => passTail rest
  | (_, rest) => passTail rest

end PoolWatch.Json
