import PoolWatch.Numeric.Parts
import PoolWatch.Poller.Policy
import PoolWatch.Text.Blank
import PoolWatch.Text.Quoted
/-!
# Settings

Everything that is set comes from environment variables. A variable that is missing or blank is
not set and leaves its default; the first one with a bad value is reported.
-/

namespace PoolWatch

open PoolWatch.Text

structure Settings where
  url : String := "http://127.0.0.1:8000/api/workstations"
  refreshMillis : Nat := 30000
  maxPoints : Nat := 200
  historyCapacity : Nat := 2048
  timeoutMillis : Nat := 10000
  chartPath : Option String := none
  overlap : Overlap := .lastCompletion
  refresh : Refresh := .keepStale
  deriving DecidableEq, Repr

inductive SettingsError where
  | notNumber (var value : String)
  | zero (var : String)
  | unknownChoice (var value expected : String)
  deriving DecidableEq, Repr

namespace SettingsError

def message : SettingsError → String
  | .notNumber var value => var ++ ": expected a number, got " ++ quoted value
  | .zero var => var ++ " must be greater than zero"
  | .unknownChoice var value expected =>
    var ++ ": unknown value " ++ quoted value ++ ", expected one of " ++ expected

def record : SettingsError → String
  | .notNumber var value =>
    "InvalidNumber \x7b var: " ++ quoted var ++ ", value: " ++ quoted value ++ " \x7d"
  | .zero var => "Zero \x7b var: " ++ quoted var ++ " \x7d"
  | .unknownChoice var value expected =>
    "UnknownChoice \x7b var: " ++ quoted var ++ ", value: " ++ quoted value ++ ", expected: " ++
      quoted expected ++ " \x7d"

end SettingsError

namespace Settings

def digit? (c : Char) : Option Nat :=
  if '0' ≤ c ∧ c ≤ '9' then some (c.toNat - '0'.toNat) else none

def digitsFrom? (value : Nat) : List Char → Option Nat
  | [] => some value
  | c :: cs => do digitsFrom? (value * 10 + (← digit? c)) cs

def numeral? (text : List Char) : Option Nat :=
  let digits := match text with
    | '+' :: rest => rest
    | _ => text
  if digits.isEmpty then none
  else (digitsFrom? 0 digits).filter (· ≤ Numeric.unsignedMax)

abbrev Source := String → Option String

def Source.get? (source : Source) (var : String) : Option String :=
  (source var).filter fun value => !value.toList.all isBlank

def positive (source : Source) (var : String) (default : Nat) : Except SettingsError Nat :=
  match source.get? var with
  | none => .ok default
  | some value =>
    match numeral? (trimmed value.toList) with
    | none => .error (.notNumber var value)
    | some 0 => .error (.zero var)
    | some n => .ok n

def choice {α : Type} (source : Source) (var : String) (default : α)
    (choices : List (String × α)) : Except SettingsError α :=
  match source.get? var with
  | none => .ok default
  | some value =>
    match choices.lookup value with
    | some a => .ok a
    | none => .error (.unknownChoice var value (", ".intercalate (choices.map (·.1))))

def overlapNames : List (String × Overlap) :=
  [("last-completion", .lastCompletion), ("last-issued", .lastIssued)]

def refreshNames : List (String × Refresh) :=
  [("keep-stale", .keepStale), ("reset-to-loading", .resetToLoading)]

def varNames : List String :=
  ["GPU_POOL_URL", "GPU_POOL_REFRESH_MS", "GPU_POOL_MAX_POINTS", "GPU_POOL_HISTORY",
    "GPU_POOL_TIMEOUT_MS", "GPU_POOL_CHART", "GPU_POOL_OVERLAP", "GPU_POOL_REFRESH_STYLE"]

def load (source : Source) : Except SettingsError Settings := do
  let default : Settings := {}
  let refreshMillis ← positive source "GPU_POOL_REFRESH_MS" default.refreshMillis
  let maxPoints ← positive source "GPU_POOL_MAX_POINTS" default.maxPoints
  let historyCapacity ← positive source "GPU_POOL_HISTORY" default.historyCapacity
  let timeoutMillis ← positive source "GPU_POOL_TIMEOUT_MS" default.timeoutMillis
  let overlap ← choice source "GPU_POOL_OVERLAP" default.overlap overlapNames
  let refresh ← choice source "GPU_POOL_REFRESH_STYLE" default.refresh refreshNames
  return {
    url := (source.get? "GPU_POOL_URL").getD default.url
    refreshMillis, maxPoints, historyCapacity, timeoutMillis
    chartPath := source.get? "GPU_POOL_CHART"
    overlap, refresh }

def policy (s : Settings) : Policy := ⟨s.overlap, s.refresh⟩

end Settings

end PoolWatch
