import PoolWatch.Decimal.Notation
import PoolWatch.Text.Quoted
/-!
# Problems of JSON texts

Why a text is refused: it is not JSON, or a value in it is not of the awaited kind. The wording
is in one function.
-/

namespace PoolWatch.Json

open PoolWatch.Numeric PoolWatch.Decimal PoolWatch.Text

inductive Found where
  | null
  | flag (value : Bool)
  | whole (value : Int)
  | amount (value : Float)
  | text (value : String)
  | list
  | object
  deriving DecidableEq

inductive Problem where
  | endOfValue
  | endOfList
  | endOfObject
  | endOfString
  | expectedValue
  | expectedLiteral
  | expectedColon
  | expectedCommaOrBracket
  | expectedCommaOrBrace
  | trailingComma
  | trailingCharacters
  | keyNotString
  | invalidNumber
  | numberOutOfRange
  | invalidEscape
  | loneSurrogate
  | unpairedSurrogate
  | invalidCodePoint
  | controlCharacter
  | wrongType (found : Found) (expected : String)
  | wrongValue (found : Found) (expected : String)
  | wrongLength (count : Nat) (expected : String)
  | missingField (name : String)
  | duplicateField (name : String)
  deriving DecidableEq

def exponentMark (power : Int) : String :=
  "e" ++ (if power < 0 then "-" else "+") ++ toString power.natAbs

/-- Digits in positional notation with a point, or with an exponent when the first digit stands
more than fifteen places before or five places after the point. -/
def amountDigits (d : Digits) : String :=
  let digits := toString d.digits
  let leading := d.exponent + digits.length - 1
  if -5 ≤ leading ∧ leading ≤ 15 then
    positional d ++ (if 0 ≤ d.exponent then ".0" else "")
  else
    let rest := String.ofList (digits.toList.drop 1)
    String.ofList (digits.toList.take 1) ++ (if rest.isEmpty then "" else "." ++ rest) ++
      exponentMark leading

def amountText (x : Float) : String :=
  match parts x with
  | .nan => "NaN"
  | .infinite negative => sign negative ++ "inf"
  | .finite negative mantissa exponent =>
    sign negative ++
      if mantissa = 0 then "0.0" else amountDigits (shortest binary64 .even mantissa exponent)

def Found.describe : Found → String
  | .null => "null"
  | .flag value => "boolean `" ++ (if value then "true" else "false") ++ "`"
  | .whole value => "integer `" ++ toString value ++ "`"
  | .amount value => "floating point `" ++ amountText value ++ "`"
  | .text value => "string " ++ quoted value
  | .list => "sequence"
  | .object => "map"

def Problem.message : Problem → String
  | .endOfValue => "EOF while parsing a value"
  | .endOfList => "EOF while parsing a list"
  | .endOfObject => "EOF while parsing an object"
  | .endOfString => "EOF while parsing a string"
  | .expectedValue => "expected value"
  | .expectedLiteral => "expected ident"
  | .expectedColon => "expected `:`"
  | .expectedCommaOrBracket => "expected `,` or `]`"
  | .expectedCommaOrBrace => "expected `,` or `\x7d`"
  | .trailingComma => "trailing comma"
  | .trailingCharacters => "trailing characters"
  | .keyNotString => "key must be a string"
  | .invalidNumber => "invalid number"
  | .numberOutOfRange => "number out of range"
  | .invalidEscape => "invalid escape"
  | .loneSurrogate => "lone leading surrogate in hex escape"
  | .unpairedSurrogate => "unexpected end of hex escape"
  | .invalidCodePoint => "invalid unicode code point"
  | .controlCharacter => "control character (\\u0000-\\u001F) found while parsing a string"
  | .wrongType found expected => "invalid type: " ++ found.describe ++ ", expected " ++ expected
  | .wrongValue found expected => "invalid value: " ++ found.describe ++ ", expected " ++ expected
  | .wrongLength count expected =>
    "invalid length " ++ toString count ++ ", expected " ++ expected
  | .missingField name => "missing field `" ++ name ++ "`"
  | .duplicateField name => "duplicate field `" ++ name ++ "`"

end PoolWatch.Json
