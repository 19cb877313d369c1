import PoolWatch.Json.Problem
import PoolWatch.Text.Utf8
/-!
# Strings and literals of JSON texts

Readers take octets off the front of a text and give the rest back, or the first problem. A
string is read octet by octet: a state says what the next octet means, and the octets that the
string stands for are decoded when its closing quote is met.
-/

namespace PoolWatch.Json

open PoolWatch.Text

abbrev Reader (α : Type) := List UInt8 → Except Problem (α × List UInt8)

def isSpace (octet : UInt8) : Bool :=
  octet == 0x20 || octet == 0x0a || octet == 0x0d || octet == 0x09

def skipSpace (text : List UInt8) : List UInt8 := text.dropWhile isSpace

def octets (word : String) : List UInt8 := word.toList.map fun c => UInt8.ofNat c.toNat

def expectOctets : List UInt8 → List UInt8 → Except Problem (List UInt8)
  | [], rest => .ok rest
  | _ :: _, [] => .error .endOfValue
  | a :: awaited, b :: rest =>
    if a = b then expectOctets awaited rest else .error .expectedLiteral

def hexDigit? (octet : UInt8) : Option Nat :=
  let n := octet.toNat
  if 0x30 ≤ n ∧ n ≤ 0x39 then some (n - 0x30)
  else if 0x41 ≤ n ∧ n ≤ 0x46 then some (n - 0x37)
  else if 0x61 ≤ n ∧ n ≤ 0x66 then some (n - 0x57)
  else none

def shortEscape? (octet : UInt8) : Option UInt8 :=
  if octet = 0x22 then some 0x22
  else if octet = 0x5c then some 0x5c
  else if octet = 0x2f then some 0x2f
  else if octet = 0x62 then some 0x08
  else if octet = 0x66 then some 0x0c
  else if octet = 0x6e then some 0x0a
  else if octet = 0x72 then some 0x0d
  else if octet = 0x74 then some 0x09
  else none

/-- What the next octet of a string means. A leading surrogate waits for its trailing one; the
digits of an escape are kept with their value, or none once one of them is no digit. -/
inductive StringState where
  | plain
  | escape
  | digits (lead : Option Nat) (count : Nat) (value : Option Nat)
  | awaitBackslash (lead : Nat)
  | awaitLetter (lead : Nat)
  deriving DecidableEq

inductive StringStep where
  | close
  | next (state : StringState) (octets : List UInt8)

/-- The octets of the code point that four digits stand for. A trailing surrogate needs a
leading one before it. -/
def finishEscape (lead : Option Nat) (code : Nat) : Except Problem StringStep :=
  match lead with
  | none =>
    if 0xdc00 ≤ code ∧ code ≤ 0xdfff then .error .loneSurrogate
    else if 0xd800 ≤ code ∧ code ≤ 0xdbff then .ok (.next (.awaitBackslash code) [])
    else .ok (.next .plain (String.utf8EncodeChar (Char.ofNat code)))
  | some lead =>
    if 0xdc00 ≤ code ∧ code ≤ 0xdfff then
      .ok (.next .plain (String.utf8EncodeChar
        (Char.ofNat (0x10000 + (lead - 0xd800) * 0x400 + (code - 0xdc00)))))
    else .error .loneSurrogate

def StringState.step (state : StringState) (octet : UInt8) : Except Problem StringStep :=
  match state with
  | .plain =>
    if octet = 0x22 then .ok .close
    else if octet = 0x5c then .ok (.next .escape [])
    else if octet < 0x20 then .error .controlCharacter
    else .ok (.next .plain [octet])
  | .escape =>
    if octet = 0x75 then .ok (.next (.digits none 0 (some 0)) [])
    else match shortEscape? octet with
      | some o => .ok (.next .plain [o])
      | none => .error .invalidEscape
  | .digits lead count value =>
    let value := do return (← value) * 16 + (← hexDigit? octet)
    if count < 3 then .ok (.next (.digits lead (count + 1) value) [])
    else match value with
      | some code => finishEscape lead code
      | none => .error .invalidEscape
  | .awaitBackslash lead =>
    if octet = 0x5c then .ok (.next (.awaitLetter lead) []) else .error .unpairedSurrogate
  | .awaitLetter lead =>
    if octet = 0x75 then .ok (.next (.digits (some lead) 0 (some 0)) [])
    else .error .unpairedSurrogate

def stringOctets (state : StringState) : Reader (List UInt8)
  | [] => .error .endOfString
  | octet :: rest =>
    match state.step octet with
    | .error problem => .error problem
    | .ok .close => .ok ([], rest)
    | .ok (.next state read) =>
      match stringOctets state rest with
      | .error problem => .error problem
      | .ok (more, rest) => .ok (read ++ more, rest)

def readString : Reader String := fun text =>
  match stringOctets .plain text with
  | .error problem => .error problem
  | .ok (octets, rest) =>
    match decodeUtf8 octets with
    | none => .error .invalidCodePoint
    | some chars => .ok (String.ofList chars, rest)

/-! ## Strings that are passed over -/

/-- What the next octet means in a string whose value is not wanted. -/
inductive PassState where
  | plain
  | escape
  | digits (count : Nat) (valid : Bool)
  deriving DecidableEq

def passString : PassState → List UInt8 → Except Problem (List UInt8)
  | _, [] => .error .endOfString
  | .plain, octet :: rest =>
    if octet = 0x22 then .ok rest
    else if octet = 0x5c then passString .escape rest
    else if octet < 0x20 then .error .controlCharacter
    else passString .plain rest
  | .escape, octet :: rest =>
    if octet = 0x75 then passString (.digits 0 true) rest
    else if (shortEscape? octet).isSome then passString .plain rest
    else .error .invalidEscape
  | .digits count valid, octet :: rest =>
    let valid := valid && (hexDigit? octet).isSome
    if count < 3 then passString (.digits (count + 1) valid) rest
    else if valid then passString .plain rest
    else .error .invalidEscape

end PoolWatch.Json
