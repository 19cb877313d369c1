import PoolWatch.Outcome
import PoolWatch.Report
/-!
# Fetches

One request to the backend ends in a report or in an error. An answer that the login is no longer
valid also ends the session, until the next login.
-/

namespace PoolWatch

structure Session where
  valid : Bool := true
  deriving DecidableEq, Repr

def Session.reset (_ : Session) : Session := ⟨true⟩

def Session.invalidate (_ : Session) : Session := ⟨false⟩

inductive StatusClass where
  | ok
  | authExpired
  | failed
  deriving DecidableEq, Repr

def StatusClass.ofCode (code : Nat) : StatusClass :=
  if 200 ≤ code ∧ code < 300 then .ok
  else if code = 401 ∨ code = 403 then .authExpired
  else .failed

def reasonPhrases : List (Nat × String) :=
  [(100, "Continue"), (101, "Switching Protocols"), (102, "Processing"), (200, "OK"),
    (201, "Created"), (202, "Accepted"), (203, "Non Authoritative Information"),
    (204, "No Content"), (205, "Reset Content"), (206, "Partial Content"),
    (207, "Multi-Status"), (208, "Already Reported"), (226, "IM Used"),
    (300, "Multiple Choices"), (301, "Moved Permanently"), (302, "Found"), (303, "See Other"),
    (304, "Not Modified"), (305, "Use Proxy"), (307, "Temporary Redirect"),
    (308, "Permanent Redirect"), (400, "Bad Request"), (401, "Unauthorized"),
    (402, "Payment Required"), (403, "Forbidden"), (404, "Not Found"),
    (405, "Method Not Allowed"), (406, "Not Acceptable"),
    (407, "Proxy Authentication Required"), (408, "Request Timeout"), (409, "Conflict"),
    (410, "Gone"), (411, "Length Required"), (412, "Precondition Failed"),
    (413, "Payload Too Large"), (414, "URI Too Long"), (415, "Unsupported Media Type"),
    (416, "Range Not Satisfiable"), (417, "Expectation Failed"), (418, "I'm a teapot"),
    (421, "Misdirected Request"), (422, "Unprocessable Entity"), (423, "Locked"),
    (424, "Failed Dependency"), (425, "Too Early"), (426, "Upgrade Required"),
    (428, "Precondition Required"), (429, "Too Many Requests"),
    (431, "Request Header Fields Too Large"), (451, "Unavailable For Legal Reasons"),
    (500, "Internal Server Error"), (501, "Not Implemented"), (502, "Bad Gateway"),
    (503, "Service Unavailable"), (504, "Gateway Timeout"),
    (505, "HTTP Version Not Supported"), (506, "Variant Also Negotiates"),
    (507, "Insufficient Storage"), (508, "Loop Detected"), (510, "Not Extended"),
    (511, "Network Authentication Required")]

def statusText (code : Nat) : String :=
  toString code ++ " " ++ (reasonPhrases.lookup code).getD "<unknown status code>"

inductive Exchange where
  | unreachable (text : String)
  | broken (code : Nat) (text : String)
  | answered (code : Nat) (body : List UInt8)
  deriving DecidableEq

/-- Takes an answer. Only the body of a success is looked at; a rejection ends the session. -/
def Session.answered (s : Session) (code : Nat) (body : Outcome (List Report.Group)) :
    Outcome (List Report.Group) × Session :=
  match StatusClass.ofCode code with
  | .ok => (body, s)
  | .authExpired =>
    (.failure (.authExpired ("backend answered " ++ statusText code)), s.invalidate)
  | .failed => (.failure (.network ("backend answered " ++ statusText code)), s)

def decodeReport (body : List UInt8) : Outcome (List Report.Group) :=
  match Report.parse body with
  | .ok groups => .success groups
  | .error problem => .failure (.decode problem.message)

namespace Exchange

def fetch (s : Session) : Exchange → Outcome (List Report.Group) × Session
  | .unreachable text => (.failure (.network text), s)
  | .broken code text => s.answered code (.failure (.network text))
  | .answered code body => s.answered code (decodeReport body)

def outcome (e : Exchange) : Outcome (List Report.Group) := (e.fetch {}).1

end Exchange

def FetchError.ofPanic : Option String → FetchError
  | some text => .internal ("fetch panicked: " ++ text)
  | none => .internal "fetch panicked"

/-- A fetch comes to its end, or breaks down. -/
inductive Attempt where
  | ended (e : Exchange)
  | panicked (words : Option String)
  deriving DecidableEq

namespace Attempt

def fetch (s : Session) : Attempt → Outcome (List Report.Group) × Session
  | .ended e => e.fetch s
  | .panicked words => (.failure (.ofPanic words), s)

def outcome (a : Attempt) : Outcome (List Report.Group) := (a.fetch {}).1

end Attempt

/-- After how many milliseconds each fetch of a program ends, and how, or that it never does. -/
abbrev Attempts := Nat → Option (Nat × Attempt)

end PoolWatch
