import PoolWatch.Fetch
import PoolWatch.Http.Chunks
import PoolWatch.Http.Request
import PoolWatch.Text.Blank
/-!
# Answers

The octets of a connection, from the status line to the end, as what came of a request. The head
says how the body is framed: by its length, in chunks, or by the end of the connection.
-/

namespace PoolWatch.Http

/-! ## Bodies -/

inductive Framing where
  | empty
  | chunked
  | length (octets : Nat)
  | untilEnd
  deriving DecidableEq, Repr

def hasBody (code : Nat) : Bool := [101, 204, 304].all (code ≠ ·)

def longestBody : Nat := 0xfffffffffffffffd

def members? (list : String) : Option (List (List Char)) :=
  if list.toList.all (· ≤ '~') then some ((splitAt ',' list.toList).map Text.trimmed) else none

def endsChunked (encodings : String) : Bool :=
  match (members? encodings).bind List.getLast? with
  | some last => last.map Char.toLower = "chunked".toList
  | none => false

def agreedLength? (lists : List String) : Option Nat := do
  let members ← lists.mapM members?
  match ← members.flatten.mapM natural? with
  | length :: others => if others.all (· = length) then some length else none
  | [] => none

/-- How the body behind a head is framed; none, if the head makes no sense. -/
def Head.framing? (head : Head) : Option Framing :=
  if !hasBody head.code then some .empty
  else
    match (head.values "transfer-encoding").getLast?, head.values "content-length" with
    | some encodings, _ =>
      if head.minor = 0 then none
      else some (if endsChunked encodings then .chunked else .untilEnd)
    | none, [] => some .untilEnd
    | none, lengths => ((agreedLength? lengths).filter (· ≤ longestBody)).map .length

def Framing.body? : Framing → List UInt8 → Option (List UInt8)
  | .empty, _ => some []
  | .chunked, text => chunks? extensionRoom text
  | .length octets, text => if text.length < octets then none else some (text.take octets)
  | .untilEnd, text => some text

/-! ## Exchanges -/

def isPreliminary (code : Nat) : Bool := code / 100 = 1 && code != 101

/-- What came of a request, given the octets of the connection. -/
def exchangeOf (text : List UInt8) : Exchange :=
  match h : Head.read? text with
  | none => .unreachable "the answer is not understood"
  | some (head, rest) =>
    if isPreliminary head.code then
      have := Head.length_lt_of_read? h
      exchangeOf rest
    else
      match head.framing? with
      | none => .unreachable "the length of the answer is not understood"
      | some framing =>
        match framing.body? rest with
        | some body => .answered head.code body
        | none => .broken head.code "the connection was closed inside the body"
termination_by text.length

def exchangeAt {m : Type → Type} [Pure m] (url : String) (ask : Endpoint → m Exchange) :
    m Exchange :=
  match Endpoint.ofUrl? url with
  | some e => ask e
  | none => pure (.unreachable "the URL cannot be requested")

end PoolWatch.Http
