import PoolWatch.Json.Number
/-!
# Values that are passed over

A member that nobody asked for is still checked to be JSON. The brackets that are open are kept
in a list, so that a value may be nested to any depth.
-/

namespace PoolWatch.Json

inductive Bracket where
  | square
  | curly
  deriving DecidableEq

namespace Bracket

def ofOpening? (octet : UInt8) : Option Bracket :=
  if octet = 0x5b then some .square else if octet = 0x7b then some .curly else none

def closing : Bracket → UInt8
  | .square => 0x5d
  | .curly => 0x7d

def unclosed : Bracket → Problem
  | .square => .endOfList
  | .curly => .endOfObject

def unseparated : Bracket → Problem
  | .square => .expectedCommaOrBracket
  | .curly => .expectedCommaOrBrace

end Bracket

def passScalar (octet : UInt8) (rest : List UInt8) : Except Problem (List UInt8) :=
  if octet = 0x6e then expectOctets (octets "ull") rest
  else if octet = 0x74 then expectOctets (octets "rue") rest
  else if octet = 0x66 then expectOctets (octets "alse") rest
  else if octet = 0x2d then passUnsigned rest
  else if isDigit octet then passUnsigned (octet :: rest)
  else if octet = 0x22 then passString .plain rest
  else .error .expectedValue

def passKey (text : List UInt8) : Except Problem (List UInt8) :=
  match skipSpace text with
  | [] => .error .endOfObject
  | octet :: rest =>
    if octet = 0x22 then
      match passString .plain rest with
      | .error problem => .error problem
      | .ok rest =>
        match skipSpace rest with
        | [] => .error .endOfObject
        | octet :: rest => if octet = 0x3a then .ok rest else .error .expectedColon
    else .error .keyNotString

def Bracket.enter (b : Bracket) (text : List UInt8) : Except Problem (List UInt8) :=
  match b with
  | .square => .ok text
  | .curly => passKey text

/-- What comes next: an item, or what follows an opening bracket (`fresh`) or an item. -/
inductive Awaited where
  | item
  | more (fresh : Bool)

def passFrom : (fuel : Nat) → Awaited → List Bracket → List UInt8 →
    Except Problem (List UInt8)
  | 0, _, _, _ => .error .endOfValue
  | fuel + 1, .item, brackets, text =>
    match skipSpace text with
    | [] => .error .endOfValue
    | octet :: rest =>
      match Bracket.ofOpening? octet with
      | some b => passFrom fuel (.more true) (b :: brackets) rest
      | none =>
        match passScalar octet rest with
        | .error problem => .error problem
        | .ok rest => passFrom fuel (.more false) brackets rest
  | _ + 1, .more _, [], text => .ok text
  | fuel + 1, .more fresh, b :: brackets, text =>
    match skipSpace text with
    | [] => .error b.unclosed
    | octet :: rest =>
      if octet = b.closing then passFrom fuel (.more false) brackets rest
      else if fresh then
        match b.enter (octet :: rest) with
        | .error problem => .error problem
        | .ok rest => passFrom fuel .item (b :: brackets) rest
      else if octet = 0x2c then
        match b.enter rest with
        | .error problem => .error problem
        | .ok rest => passFrom fuel .item (b :: brackets) rest
      else .error b.unseparated

/-- Passes over one value. Every octet is looked at in at most two steps. -/
def passValue (text : List UInt8) : Except Problem (List UInt8) :=
  passFrom (2 * text.length + 2) .item [] text

end PoolWatch.Json
