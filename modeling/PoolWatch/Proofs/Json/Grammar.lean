import PoolWatch.Json.Record
/-!
# The grammar of JSON texts

Which texts spell a string, a number, a list or a record, and which texts are JSON at all.  A text
does not count the white space around it.  Nothing here looks at the readers, but that a number is
scaled as they scale it.
-/

namespace PoolWatch.Json

open PoolWatch.Numeric

abbrev Spelling (α : Type) := α → List UInt8 → Prop

def Blank (w : List UInt8) : Prop := ∀ octet ∈ w, isSpace octet = true

/-! ## Strings -/

/-- Four hexadecimal digits and the number that they stand for. -/
inductive SpellsHex : Spelling Nat where
  | digits {a b c d : UInt8} {p q r s : Nat} : hexDigit? a = some p → hexDigit? b = some q →
      hexDigit? c = some r → hexDigit? d = some s →
      SpellsHex (((p * 16 + q) * 16 + r) * 16 + s) [a, b, c, d]

/-- A character of a string stands for itself or is escaped: by a letter, by its code point, or by
two surrogates. -/
inductive SpellsChar : Spelling Char where
  | plain {c : Char} : c ≠ '"' → c ≠ '\\' → 0x20 ≤ c.toNat →
      SpellsChar c (String.utf8EncodeChar c)
  | short {letter octet : UInt8} : shortEscape? letter = some octet →
      SpellsChar (Char.ofNat octet.toNat) [0x5c, letter]
  | code {c : Char} {s : List UInt8} : SpellsHex c.toNat s → SpellsChar c (0x5c :: 0x75 :: s)
  | pair {c : Char} {lead trail : Nat} {s t : List UInt8} : SpellsHex lead s →
      SpellsHex trail t → 0xd800 ≤ lead → lead ≤ 0xdbff → 0xdc00 ≤ trail → trail ≤ 0xdfff →
      c.toNat = 0x10000 + (lead - 0xd800) * 0x400 + (trail - 0xdc00) →
      SpellsChar c (0x5c :: 0x75 :: s ++ 0x5c :: 0x75 :: t)

inductive SpellsChars : Spelling (List Char) where
  | nil : SpellsChars [] []
  | cons {c : Char} {cs : List Char} {s t : List UInt8} : SpellsChar c s → SpellsChars cs t →
      SpellsChars (c :: cs) (s ++ t)

def SpellsString : Spelling String := fun value s =>
  ∃ body, SpellsChars value.toList body ∧ s = 0x22 :: (body ++ [0x22])

/-- The rest of a string after its opening quote, whatever its octets and escapes stand for. -/
inductive StringRest : List UInt8 → Prop where
  | close : StringRest [0x22]
  | plain {octet : UInt8} {s : List UInt8} : octet ≠ 0x22 → octet ≠ 0x5c → 0x20 ≤ octet →
      StringRest s → StringRest (octet :: s)
  | short {letter octet : UInt8} {s : List UInt8} : shortEscape? letter = some octet →
      StringRest s → StringRest (0x5c :: letter :: s)
  | code {code : Nat} {s t : List UInt8} : SpellsHex code s → StringRest t →
      StringRest (0x5c :: 0x75 :: s ++ t)

/-! ## Numbers -/

structure DigitRun where
  octets : List UInt8
  ne_nil : octets ≠ []
  isDigit_of_mem : ∀ octet ∈ octets, isDigit octet = true

/-- Digits of which the first is no zero, or a lone zero. -/
structure WholeRun extends DigitRun where
  no_leading_zero : ∀ d ds, octets ≠ 0x30 :: d :: ds

structure Exponent where
  capital : Bool
  sign : Option Bool
  run : DigitRun

namespace Exponent

def letter (x : Exponent) : UInt8 := if x.capital then 0x45 else 0x65

def signText (x : Exponent) : List UInt8 :=
  match x.sign with
  | none => []
  | some negative => if negative then [0x2d] else [0x2b]

def text (x : Exponent) : List UInt8 := x.letter :: (x.signText ++ x.run.octets)

/-- Scales a number by a power of ten and by the exponent.  An exponent beyond all bounds leaves
zero or takes the number out of range. -/
def scale (x : Exponent) (significand : Nat) (exponent : Int) : Except Problem Float :=
  let power := digitsValue x.run.octets
  let negative := x.sign == some true
  if largestExponent < power then
    if significand ≠ 0 ∧ ¬negative then .error .numberOutOfRange else .ok 0.0
  else Json.scale significand (if negative then exponent - power else exponent + power)

end Exponent

structure Numeral where
  negative : Bool
  whole : WholeRun
  fraction : Option DigitRun
  exponent : Option Exponent

def fractionText : Option DigitRun → List UInt8
  | none => []
  | some run => 0x2e :: run.octets

def exponentText : Option Exponent → List UInt8
  | none => []
  | some x => x.text

def scaleBy : Option Exponent → Nat → Int → Except Problem Float
  | none => scale
  | some x => x.scale

namespace Numeral

def unsignedText (n : Numeral) : List UInt8 :=
  n.whole.octets ++ (fractionText n.fraction ++ exponentText n.exponent)

def text (n : Numeral) : List UInt8 :=
  if n.negative then 0x2d :: n.unsignedText else n.unsignedText

/-- The digits that are gathered as one number, and the power of ten that it is scaled by before
the exponent is looked at. -/
def significand (n : Numeral) : Nat × Int :=
  let whole := gather 0 n.whole.octets
  let dropped : Int := n.whole.octets.length - whole.2
  match n.fraction with
  | none => (whole.1, dropped)
  | some run => ((gather whole.1 run.octets).1, dropped - (gather whole.1 run.octets).2)

/-- The number that a numeral stands for, if it is in range. -/
def number (n : Numeral) : Except Problem Number :=
  if n.fraction.isNone ∧ n.exponent.isNone ∧ n.significand.2 = 0 then
    .ok (wholeNumber n.negative n.significand.1)
  else
    (scaleBy n.exponent n.significand.1 n.significand.2).map fun x =>
      .amount (if n.negative then -x else x)

end Numeral

def Number.toFloat : Number → Float
  | .whole n => Float.ofInt n
  | .amount x => x

def SpellsAmount : Spelling Float := fun x s =>
  ∃ n : Numeral, s = n.text ∧ n.number.map Number.toFloat = .ok x

/-- A count is spelled by digits alone: it has no sign, no fraction and no exponent. -/
def SpellsCount : Spelling Nat := fun n s =>
  ∃ run : WholeRun, s = run.octets ∧ digitsValue run.octets = n ∧ n ≤ unsignedMax

/-! ## Brackets -/

def Bracket.opening : Bracket → UInt8
  | .square => 0x5b
  | .curly => 0x7b

/-- What leads to an item in brackets: white space, and a comma unless the item is the first. -/
def Lead (first : Bool) (s : List UInt8) : Prop :=
  if first then Blank s else ∃ w w', Blank w ∧ Blank w' ∧ s = w ++ 0x2c :: w'

/-- Items between brackets, from the opening bracket or from the end of an item up to the closing
bracket. -/
inductive Items {α : Type} (b : Bracket) (item : Spelling α) : Bool → Spelling (List α) where
  | close {first : Bool} {w : List UInt8} : Blank w → Items b item first [] (w ++ [b.closing])
  | item {first : Bool} {lead s rest : List UInt8} {v : α} {vs : List α} : Lead first lead →
      item v s → Items b item false vs rest → Items b item first (v :: vs) (lead ++ s ++ rest)

def SpellsList {α : Type} (item : Spelling α) : Spelling (List α) := fun vs s =>
  ∃ items, Items .square item true vs items ∧ s = 0x5b :: items

/-! ## Any JSON text -/

/-- The name of an item in curly brackets, with its colon. -/
inductive Name : Bracket → List UInt8 → Prop where
  | none : Name .square []
  | name {s w : List UInt8} : StringRest s → Blank w → Name .curly (0x22 :: s ++ w ++ [0x3a])

inductive Form where
  | value
  | rest (b : Bracket) (first : Bool)

/-- The texts that are JSON, whatever they stand for. -/
inductive Written : Form → List UInt8 → Prop where
  | word {word : String} : word ∈ ["null", "true", "false"] → Written .value (octets word)
  | number (n : Numeral) : Written .value n.text
  | string {s : List UInt8} : StringRest s → Written .value (0x22 :: s)
  | brackets (b : Bracket) {s : List UInt8} : Written (.rest b true) s →
      Written .value (b.opening :: s)
  | close {b : Bracket} {first : Bool} {w : List UInt8} : Blank w →
      Written (.rest b first) (w ++ [b.closing])
  | item {b : Bracket} {first : Bool} {lead name w s rest : List UInt8} : Lead first lead →
      Name b name → Blank w → Written .value s → Written (.rest b false) rest →
      Written (.rest b first) (lead ++ name ++ w ++ s ++ rest)

/-! ## Records -/

def SpellsFlag : Spelling Bool := fun value s => s = octets (if value then "true" else "false")

def SpellsOptionalText : Spelling (Option String)
  | none, s => s = octets "null"
  | some value, s => SpellsString value s

section

variable {ε : Type} (element : Spelling ε)

def Kind.Spells : (k : Kind) → Spelling (k.Value ε)
  | .text => SpellsString
  | .count => SpellsCount
  | .amount => SpellsAmount
  | .flag => SpellsFlag
  | .optionalText => SpellsOptionalText
  | .list => SpellsList element

structure Member where
  name : String
  value : List UInt8

def SpellsMember : Spelling Member := fun m s =>
  ∃ name w w', SpellsString m.name name ∧ Blank w ∧ Blank w' ∧
    s = name ++ w ++ 0x3a :: w' ++ m.value

namespace Field

def Missing (f : Field) (members : List Member) : Prop := ∀ m ∈ members, m.name ≠ f.name

/-- One member is called by the name of the field, and it spells the value. -/
def Given (f : Field) (v : f.kind.Value ε) (members : List Member) : Prop :=
  ∃ m, members.filter (·.name = f.name) = [m] ∧ f.kind.Spells element v m.value

end Field

/-- The members give each field its value once.  A field that may be left out can be missing. -/
def Carries : (fields : List Field) → Row ε fields → List Member → Prop
  | [], (), _ => True
  | f :: fields, (v, row), members =>
    (f.Given element v members ∨ f.Missing members ∧ f.absent? ε = some v) ∧
      Carries fields row members

/-- The items spell the fields in order.  Only fields that may be left out can be missing, and only
at the end. -/
def Lists : (fields : List Field) → Row ε fields → List (List UInt8) → Prop
  | [], (), items => items = []
  | f :: fields, (v, row), [] => f.absent? ε = some v ∧ Lists fields row []
  | f :: fields, (v, row), item :: items => f.kind.Spells element v item ∧ Lists fields row items

/-- A record is spelled by an object, in which members that are no fields may be any JSON, or by a
list of its fields. -/
inductive Shape.Spells (shape : Shape) : Spelling (Row ε shape.fields) where
  | object {row : Row ε shape.fields} {members : List Member} {s : List UInt8} :
      Items .curly SpellsMember true members s → Carries element shape.fields row members →
      (∀ m ∈ members, m.name ∉ shape.fields.map (·.name) → Written .value m.value) →
      Spells shape row (0x7b :: s)
  | list {row : Row ε shape.fields} {items : List (List UInt8)} {s : List UInt8} :
      Items .square Eq true items s → Lists element shape.fields row items →
      Spells shape row (0x5b :: s)

end

end PoolWatch.Json
