import PoolWatch.Http.Host
/-!
# URLs

What an HTTP URL says of a request: the host, the service there, the login, and the target, which
is the path and query asked for. Blanks around a URL and line breaks in it do not count, a
backslash is a slash, segments of dots are worked off, and what cannot stand in a target as it is
gets encoded as a percent sign and two digits for each octet.
-/

namespace PoolWatch.Http

/-! ## Octets -/

def isReserved (octet : UInt8) : Bool :=
  octet ≤ 0x20 || 0x7f ≤ octet || octet == 0x22 || octet == 0x3c || octet == 0x3e

def isReservedInPath (octet : UInt8) : Bool :=
  isReserved octet || octet == 0x60 || octet == 0x7b || octet == 0x7d

def isReservedInQuery (octet : UInt8) : Bool :=
  isReserved octet || octet == 0x27

def percentEncoded (octet : UInt8) : List Char :=
  '%' :: [octet.toNat / 16, octet.toNat % 16].map fun digit => (Nat.digitChar digit).toUpper

def encoded (reserved : UInt8 → Bool) (text : List Char) : List Char :=
  (text.flatMap String.utf8EncodeChar).flatMap fun octet =>
    if reserved octet then percentEncoded octet else [Char.ofNat octet.toNat]

/-! ## Paths -/

def isSlash (c : Char) : Bool := c = '/' || c = '\\'

def segmentsFrom (begun : List Char) : List Char → List (List Char)
  | [] => [begun.reverse]
  | c :: rest =>
    if isSlash c then begun.reverse :: segmentsFrom [] rest else segmentsFrom (c :: begun) rest

/-- The segments of a path. A slash at its start parts nothing. -/
def segments : List Char → List (List Char)
  | [] => [[]]
  | c :: rest => if isSlash c then segmentsFrom [] rest else segmentsFrom [] (c :: rest)

/-- The spelling of a segment in which its dots are told: lower case. -/
def dots (segment : List Char) : String := String.ofList (segment.map Char.toLower)

def isSelf (segment : List Char) : Bool := [".", "%2e"].contains (dots segment)

def isParent (segment : List Char) : Bool :=
  ["..", ".%2e", "%2e.", "%2e%2e"].contains (dots segment)

def isDrive : List Char → Bool
  | [letter, mark] => letter.isAlpha && (mark = ':' || mark = '|')
  | _ => false

/-- The folder that a segment leads to from a folder. Folders are lists of names, the innermost
first. No segment leads out of the root or of a drive. -/
def enter (folder : List (List Char)) (segment : List Char) : List (List Char) :=
  if isParent segment then
    match folder with
    | [] => []
    | name :: outer => if isDrive name then folder else outer
  else if isSelf segment then folder
  else segment :: folder

def spelled (folder : List (List Char)) (name : List Char) : List Char :=
  folder.reverse.flatMap ('/' :: ·) ++ '/' :: name

/-- The path that some segments lead to from a folder. Only the last one can be a name in the
folder, the others are folders. -/
def resolve (folder : List (List Char)) : List (List Char) → List Char
  | [] => spelled folder []
  | [last] =>
    if isParent last || isSelf last then spelled (enter folder last) [] else spelled folder last
  | segment :: segments => resolve (enter folder segment) segments

/-- What a request asks for, given what follows the authority of a URL. A fragment stays
behind. -/
def target (resource : List Char) : String :=
  let sent := resource.takeWhile (· ≠ '#')
  let path := segments (sent.takeWhile (· ≠ '?'))
  let query := sent.dropWhile (· ≠ '?')
  String.ofList
    (resolve [] (path.map (encoded isReservedInPath)) ++ encoded isReservedInQuery query)

/-! ## Endpoints -/

structure Endpoint where
  host : Host
  service : UInt16
  login : Option (List UInt8)
  target : String
  deriving DecidableEq, Repr

namespace Endpoint

def defaultService : UInt16 := 80

def service? (text : List Char) : Option UInt16 :=
  if text.isEmpty then some defaultService
  else ((natural? text).filter (· < UInt16.size)).map UInt16.ofNat

def login? (text : List Char) : Option (List UInt8) :=
  if text.isEmpty || text = [':'] then none
  else
    let user := text.takeWhile (· ≠ ':')
    let password := (text.dropWhile (· ≠ ':')).drop 1
    some (Host.decoded user ++ 0x3a :: Host.decoded password)

def significant (url : String) : List Char :=
  let isBlank (c : Char) : Bool := c ≤ ' '
  let inner := ((url.toList.dropWhile isBlank).reverse.dropWhile isBlank).reverse
  inner.filter fun c => !(c = '\t' || c = '\n' || c = '\r')

def endsAuthority (c : Char) : Bool := isSlash c || c = '?' || c = '#'

/-- The host of an authority and what follows it. A colon between brackets belongs to the host. -/
def hostAndRest (bracketed : Bool) : List Char → List Char × List Char
  | [] => ([], [])
  | c :: rest =>
    if c = ':' && !bracketed then ([], c :: rest)
    else
      let (host, rest) := hostAndRest (c = '[' || (bracketed && c ≠ ']')) rest
      (c :: host, rest)

/-- The endpoint of a URL whose scheme is `http`. How many slashes stand in front of the authority
does not matter. -/
def ofUrl? (url : String) : Option Endpoint :=
  let scheme := "http:".toList
  let text := significant url
  if (text.take scheme.length).map Char.toLower = scheme then do
    let text := (text.drop scheme.length).dropWhile isSlash
    let authority := text.takeWhile (!endsAuthority ·)
    let server := (authority.reverse.takeWhile (· ≠ '@')).reverse
    let (name, rest) := hostAndRest false server
    let host ← Host.ofText? name
    let service ← service? (rest.drop 1)
    return {
      host
      service
      login := login? (authority.take (authority.length - server.length - 1))
      target := Http.target (text.dropWhile (!endsAuthority ·)) }
  else none

def authority (e : Endpoint) : String :=
  if e.service = defaultService then e.host.inUrl else e.host.inUrl ++ ":" ++ toString e.service

end Endpoint

end PoolWatch.Http
