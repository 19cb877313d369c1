import PoolWatch.Json.Pass
/-!
# Records read from JSON texts

A record is described by its fields in order. It is written as an object, whose members may
come in any order and among others, or as a list of its fields in order. The first problem in
reading order is the one reported.
-/

namespace PoolWatch.Json

inductive Kind where
  | text
  | count
  | amount
  | flag
  | optionalText
  | list
  deriving DecidableEq

def Kind.Value (ε : Type) : Kind → Type
  | .text => String
  | .count => Nat
  | .amount => Float
  | .flag => Bool
  | .optionalText => Option String
  | .list => List ε

/-- A field of a record. One that is not `required` may be left out. -/
structure Field where
  name : String
  kind : Kind
  required : Bool := true
  deriving DecidableEq

structure Shape where
  name : String
  fields : List Field

def Shape.title (s : Shape) : String := "struct " ++ s.name

def Row (ε : Type) : List Field → Type
  | [] => Unit
  | f :: fields => f.kind.Value ε × Row ε fields

/-- The values of a record's fields that have been read so far. -/
def Slots (ε : Type) : List Field → Type
  | [] => Unit
  | f :: fields => Option (f.kind.Value ε) × Slots ε fields

/-- The value of a field that was left out, if it may be. -/
def Field.absent? (ε : Type) (f : Field) : Option (f.kind.Value ε) :=
  if f.required then none
  else match f.kind with
    | .text => some ("" : String)
    | .optionalText => some (none : Option String)
    | _ => none

/-! ## Values -/

def mismatch (expected : String) (text : List UInt8) : Problem :=
  match text with
  | [] => .endOfValue
  | octet :: rest =>
    let literal (word : String) (found : Found) : Problem :=
      match expectOctets (octets word) rest with
      | .error problem => problem
      | .ok _ => .wrongType found expected
    if octet = 0x6e then literal "ull" .null
    else if octet = 0x74 then literal "rue" (.flag true)
    else if octet = 0x66 then literal "alse" (.flag false)
    else if octet = 0x2d ∨ isDigit octet then
      match readNumber text with
      | .error problem => problem
      | .ok (.whole n, _) => .wrongType (.whole n) expected
      | .ok (.amount x, _) => .wrongType (.amount x) expected
    else if octet = 0x22 then
      match readString rest with
      | .error problem => problem
      | .ok (s, _) => .wrongType (.text s) expected
    else if octet = 0x5b then .wrongType .list expected
    else if octet = 0x7b then .wrongType .object expected
    else .expectedValue

def readText : Reader String := fun text =>
  match skipSpace text with
  | 0x22 :: rest => readString rest
  | text => .error (mismatch "a string" text)

def readNumeral (expected : String) : Reader Number := fun text =>
  match skipSpace text with
  | [] => .error .endOfValue
  | octet :: rest =>
    if octet = 0x2d ∨ isDigit octet then readNumber (octet :: rest)
    else .error (mismatch expected (octet :: rest))

def readCount : Reader Nat := fun text =>
  match readNumeral "u64" text with
  | .error problem => .error problem
  | .ok (.whole n, rest) =>
    if n < 0 then .error (.wrongValue (.whole n) "u64") else .ok (n.toNat, rest)
  | .ok (.amount x, _) => .error (.wrongType (.amount x) "u64")

def readAmount : Reader Float := fun text =>
  match readNumeral "f64" text with
  | .error problem => .error problem
  | .ok (.whole n, rest) => .ok (Float.ofInt n, rest)
  | .ok (.amount x, rest) => .ok (x, rest)

def readFlag : Reader Bool := fun text =>
  match skipSpace text with
  | [] => .error .endOfValue
  | octet :: rest =>
    if octet = 0x74 then (expectOctets (octets "rue") rest).map (true, ·)
    else if octet = 0x66 then (expectOctets (octets "alse") rest).map (false, ·)
    else .error (mismatch "a boolean" (octet :: rest))

def readOptionalText : Reader (Option String) := fun text =>
  match skipSpace text with
  | 0x6e :: rest => (expectOctets (octets "ull") rest).map (none, ·)
  | text => (readText text).map fun (s, rest) => (some s, rest)

/-! ## Lists -/

/-- Finds the next item of a list: the text at it, or none at the closing bracket. -/
def nextItem (first : Bool) (text : List UInt8) : Except Problem (Option (List UInt8)) :=
  match skipSpace text with
  | [] => .error .endOfList
  | octet :: rest =>
    if octet = 0x5d then .ok none
    else if first then .ok (some (octet :: rest))
    else if octet = 0x2c then
      match skipSpace rest with
      | [] => .error .endOfValue
      | octet :: rest =>
        if octet = 0x5d then .error .trailingComma else .ok (some (octet :: rest))
    else .error .expectedCommaOrBracket

def closeList (text : List UInt8) : Except Problem (List UInt8) :=
  match skipSpace text with
  | [] => .error .endOfList
  | octet :: rest =>
    if octet = 0x5d then .ok rest
    else if octet = 0x2c then
      match skipSpace rest with
      | 0x5d :: _ => .error .trailingComma
      | _ => .error .trailingCharacters
    else .error .trailingCharacters

def readItems {α : Type} (item : Reader α) : (fuel : Nat) → (first : Bool) → Reader (List α)
  | 0, _, _ => .error .endOfList
  | fuel + 1, first, text =>
    match nextItem first text with
    | .error problem => .error problem
    | .ok none => (closeList text).map ([], ·)
    | .ok (some text) =>
      match item text with
      | .error problem => .error problem
      | .ok (a, rest) =>
        match readItems item fuel false rest with
        | .error problem => .error problem
        | .ok (more, rest) => .ok (a :: more, rest)

def readList {α : Type} (item : Reader α) : Reader (List α) := fun text =>
  match skipSpace text with
  | 0x5b :: rest => readItems item (rest.length + 1) true rest
  | text => .error (mismatch "a sequence" text)

/-! ## Fields -/

def Kind.read {ε : Type} (element : Reader ε) : (k : Kind) → Reader (k.Value ε)
  | .text => readText
  | .count => readCount
  | .amount => readAmount
  | .flag => readFlag
  | .optionalText => readOptionalText
  | .list => readList element

def Slots.empty {ε : Type} : (fields : List Field) → Slots ε fields
  | [] => ()
  | _ :: fields => (none, Slots.empty fields)

def Slots.toRow {ε : Type} : {fields : List Field} → Slots ε fields → Except Problem (Row ε fields)
  | [], () => .ok ()
  | f :: _, (value, slots) =>
    match value.or (f.absent? ε) with
    | none => .error (.missingField f.name)
    | some v =>
      match slots.toRow with
      | .error problem => .error problem
      | .ok row => .ok (v, row)

def readColon (text : List UInt8) : Except Problem (List UInt8) :=
  match skipSpace text with
  | [] => .error .endOfObject
  | octet :: rest => if octet = 0x3a then .ok rest else .error .expectedColon

/-- Reads the value of the member called `name`, at its colon. A member that is no field is
passed over. -/
def Slots.readMember {ε : Type} (element : Reader ε) (name : String) :
    {fields : List Field} → Slots ε fields → Reader (Slots ε fields)
  | [], (), text =>
    match readColon text with
    | .error problem => .error problem
    | .ok text => (passValue text).map ((), ·)
  | f :: _, (value, slots), text =>
    if f.name = name then
      match value with
      | some _ => .error (.duplicateField name)
      | none =>
        match readColon text with
        | .error problem => .error problem
        | .ok text => (f.kind.read element text).map fun (v, rest) => ((some v, slots), rest)
    else (slots.readMember element name text).map fun (slots, rest) => ((value, slots), rest)

def nextMember (first : Bool) (text : List UInt8) : Except Problem (Option (List UInt8)) :=
  match skipSpace text with
  | [] => .error .endOfObject
  | octet :: rest =>
    if octet = 0x7d then .ok none
    else if first then
      if octet = 0x22 then .ok (some rest) else .error .keyNotString
    else if octet = 0x2c then
      match skipSpace rest with
      | [] => .error .endOfValue
      | octet :: rest =>
        if octet = 0x22 then .ok (some rest)
        else if octet = 0x7d then .error .trailingComma
        else .error .keyNotString
    else .error .expectedCommaOrBrace

def readMembers {ε : Type} (element : Reader ε) {fields : List Field} :
    (fuel : Nat) → (first : Bool) → Slots ε fields → Reader (Slots ε fields)
  | 0, _, _, _ => .error .endOfObject
  | fuel + 1, first, slots, text =>
    match nextMember first text with
    | .error problem => .error problem
    | .ok none => .ok (slots, (skipSpace text).drop 1)
    | .ok (some text) =>
      match readString text with
      | .error problem => .error problem
      | .ok (name, text) =>
        match slots.readMember element name text with
        | .error problem => .error problem
        | .ok (slots, text) => readMembers element fuel false slots text

def readRow {ε : Type} (element : Reader ε) (title : String) :
    (fields : List Field) → (index : Nat) → Reader (Row ε fields)
  | [], _, text => .ok ((), text)
  | f :: fields, index, text =>
    match nextItem (index == 0) text with
    | .error problem => .error problem
    | .ok none =>
      match f.absent? ε with
      | none => .error (.wrongLength index title)
      | some v =>
        (readRow element title fields (index + 1) text).map fun (row, rest) => ((v, row), rest)
    | .ok (some text) =>
      match f.kind.read element text with
      | .error problem => .error problem
      | .ok (v, text) =>
        (readRow element title fields (index + 1) text).map fun (row, rest) => ((v, row), rest)

def Shape.read {ε : Type} (element : Reader ε) (shape : Shape) : Reader (Row ε shape.fields) :=
  fun text =>
    match skipSpace text with
    | 0x7b :: rest =>
      match readMembers element (rest.length + 1) true (Slots.empty shape.fields) rest with
      | .error problem => .error problem
      | .ok (slots, rest) => slots.toRow.map (·, rest)
    | 0x5b :: rest =>
      match readRow element s!"{shape.title} with {shape.fields.length} elements" shape.fields 0
        rest with
      | .error problem => .error problem
      | .ok (row, rest) => (closeList rest).map (row, ·)
    | text => .error (mismatch shape.title text)

/-- Reads a whole text: one value, and nothing but white space after it. -/
def readAll {α : Type} (value : Reader α) (text : List UInt8) : Except Problem α :=
  match value text with
  | .error problem => .error problem
  | .ok (a, rest) =>
    match skipSpace rest with
    | [] => .ok a
    | _ :: _ => .error .trailingCharacters

end PoolWatch.Json
