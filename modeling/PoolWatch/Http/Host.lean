import PoolWatch.Text.AsciiForm
import PoolWatch.Text.Utf8
/-!
# Hosts

Who a URL addresses: an address of four octets, one of eight groups, or a name. A name that ends
in a number is an address of four octets, or none at all.
-/

namespace PoolWatch.Http

inductive Host where
  | address (value : UInt32)
  | groups (values : List UInt16)
  | name (text : String)
  deriving DecidableEq, Repr

/-! ## Numbers -/

def hexadecimal? (c : Char) : Option Nat :=
  if c.isDigit then some (c.toNat - '0'.toNat)
  else if 'a' ≤ c.toLower ∧ c.toLower ≤ 'f' then some (c.toLower.toNat - 'a'.toNat + 10)
  else none

def digits? (base : Nat) (text : List Char) : Option Nat :=
  text.foldlM
    (fun n c => do
      let digit ← hexadecimal? c
      if digit < base then some (n * base + digit) else none)
    0

def natural? (text : List Char) : Option Nat :=
  if text.isEmpty then none else digits? 10 text

def splitAt (separator : Char) : List Char → List (List Char)
  | [] => [[]]
  | c :: rest =>
    match splitAt separator rest with
    | [] => [[c]]
    | part :: parts => if c = separator then [] :: part :: parts else (c :: part) :: parts

namespace Host

/-! ## Addresses of four octets -/

/-- A number of an address: decimal, octal after a zero, hexadecimal after a zero and an x. -/
def number? : List Char → Option Nat
  | '0' :: 'x' :: digits => digits? 16 digits
  | '0' :: 'X' :: digits => digits? 16 digits
  | '0' :: digit :: digits => digits? 8 (digit :: digits)
  | text => natural? text

def parts (text : List Char) : List (List Char) :=
  let parts := splitAt '.' text
  if parts.getLast? = some [] then parts.dropLast else parts

def endsInNumber (text : List Char) : Bool :=
  match (parts text).getLast? with
  | none => false
  | some part => !part.isEmpty && (part.all Char.isDigit || (number? part).isSome)

/-- The address whose first octets are the given ones and whose remaining octets are a number. -/
def addressOf (octets : List Nat) (rest : Nat) : Option UInt32 :=
  if octets.all (· < 256) && rest < Nat.pow 256 (4 - octets.length) then
    some (UInt32.ofNat (octets.foldl (fun n octet => n * 256 + octet) 0 *
      Nat.pow 256 (4 - octets.length) + rest))
  else none

def address? (text : List Char) : Option UInt32 := do
  let numbers ← (parts text).mapM number?
  if 4 < numbers.length then none
  else addressOf numbers.dropLast (← numbers.getLast?)

/-! ## Addresses of eight groups -/

def group? (text : List Char) : Option Nat :=
  if text.isEmpty || 4 < text.length then none else digits? 16 text

def octet? : List Char → Option Nat
  | '0' :: _ :: _ => none
  | text => (natural? text).filter (· < 256)

def pointed? (text : List Char) : Option (List Nat) :=
  match (splitAt '.' text).mapM octet? with
  | some [a, b, c, d] => some [a * 256 + b, c * 256 + d]
  | _ => none

/-- Groups with colons between them. The last two can be written as four octets. -/
def groupsOf? : List (List Char) → Option (List Nat)
  | [] => some []
  | [last] => if last.contains '.' then pointed? last else (group? last).map ([·])
  | part :: parts => do return (← group? part) :: (← groupsOf? parts)

def groupList? (text : List Char) : Option (List Nat) :=
  if text.isEmpty then some [] else groupsOf? (splitAt ':' text)

def gap? : List Char → Option (List Char × List Char)
  | [] => none
  | ':' :: ':' :: rest => some ([], rest)
  | c :: rest => (gap? rest).map fun (front, back) => (c :: front, back)

/-- The eight groups of a text. Two colons stand for the groups of zero that are missing, at least
one. -/
def eightGroups? (text : List Char) : Option (List Nat) :=
  match gap? text with
  | none => (groupList? text).filter (·.length = 8)
  | some (front, back) => do
    if front.contains '.' then none
    let front ← groupList? front
    let back ← groupList? back
    if 7 < front.length + back.length then none
    else some (front ++ List.replicate (8 - front.length - back.length) 0 ++ back)

/-! ## Reading -/

def isForbidden (c : Char) : Bool :=
  c ≤ ' ' || '\x7f' ≤ c || "#/:<>?@[\\]^|%".toList.contains c

/-- The octets of a text in UTF-8, those that are percent-encoded among them. -/
def decoded : List Char → List UInt8
  | [] => []
  | '%' :: high :: low :: rest =>
    match hexadecimal? high, hexadecimal? low with
    | some h, some l => UInt8.ofNat (16 * h + l) :: decoded rest
    | _, _ => 0x25 :: decoded (high :: low :: rest)
  | c :: rest => String.utf8EncodeChar c ++ decoded rest

/-- The host that a text in a URL stands for. Names are of ASCII characters, or of others that
stand for them. -/
def ofText? : List Char → Option Host
  | '[' :: rest =>
    if rest.getLast? = some ']' then
      (eightGroups? rest.dropLast).map fun values => .groups (values.map UInt16.ofNat)
    else none
  | text => do
    let text := (← Text.decodeUtf8 (decoded text)).flatMap Text.asciiForm
    if text.isEmpty || text.any isForbidden then none
    else if endsInNumber text then (address? text).map .address
    else some (.name (String.ofList text))

/-! ## Writing -/

def pointedText (value : UInt32) : String :=
  let n := value.toNat
  ".".intercalate ([n / 16777216, n / 65536 % 256, n / 256 % 256, n % 256].map toString)

def zeroRun (values : List UInt16) : Nat := (values.takeWhile (· = 0)).length

/-- Where the longest run of zeros starts, the first one of several, and its length. -/
def longestRun : List UInt16 → Nat × Nat
  | [] => (0, 0)
  | value :: values =>
    let (start, length) := longestRun values
    let here := zeroRun (value :: values)
    if 0 < here && length ≤ here then (0, here) else (start + 1, length)

def colonText (values : List UInt16) : String :=
  ":".intercalate (values.map fun value => String.ofList (Nat.toDigits 16 value.toNat))

def groupsText (values : List UInt16) : String :=
  let (start, length) := longestRun values
  if length < 2 then colonText values
  else colonText (values.take start) ++ "::" ++ colonText (values.drop (start + length))

def text : Host → String
  | .address value => pointedText value
  | .groups values => groupsText values
  | .name text => text

def inUrl : Host → String
  | .groups values => "[" ++ groupsText values ++ "]"
  | host => host.text

end Host

end PoolWatch.Http
