import PoolWatch.Http.Host
import PoolWatch.Http.Line
/-!
# Heads

The head of an answer: a status line, fields with a name and a value, and an empty line.
-/

namespace PoolWatch.Http

/-! ## Fields -/

def mostFields : Nat := 100

def longestName : Nat := 0xffff

def field? (line : List UInt8) : Option (String × String) :=
  let name := line.takeWhile isToken
  match line.dropWhile isToken with
  | 0x3a :: value =>
    if name.isEmpty || longestName < name.length || !value.all isText then none
    else some (String.ofList ((latin name).map Char.toLower), String.ofList (latin (inner value)))
  | _ => none

/-- The lines up to an empty one, and what follows it; none, if there are more than so many. -/
def lines? (most : Nat) (text : List UInt8) : Option (List (List UInt8) × List UInt8) :=
  match line? text, most with
  | none, _ => none
  | some ([], rest), _ => some ([], rest)
  | some _, 0 => none
  | some (line, rest), most + 1 => (lines? most rest).map fun (lines, rest) => (line :: lines, rest)

theorem length_lt_of_lines? {most : Nat} {text rest : List UInt8} {lines : List (List UInt8)}
    (h : lines? most text = some (lines, rest)) : rest.length < text.length := by
  fun_induction lines? most text generalizing lines with
  | case1 => simp at h
  | case2 _ _ _ hl =>
    obtain ⟨-, rfl⟩ := Prod.mk.injEq .. ▸ Option.some.inj h
    exact length_lt_of_line? hl
  | case3 => simp at h
  | case4 _ _ _ _ _ hl ih =>
    obtain ⟨⟨_, _⟩, h', heq⟩ := Option.map_eq_some_iff.1 h
    obtain ⟨-, rfl⟩ := Prod.mk.injEq .. ▸ heq
    exact Nat.lt_trans (ih h') (length_lt_of_line? hl)

/-! ## Heads -/

structure Head where
  minor : Nat
  code : Nat
  fields : List (String × String)
  deriving DecidableEq, Repr

/-- The version and the code of a status line. A code has three digits, the first of them not
zero; the reason behind it says nothing. -/
def status? (line : List UInt8) : Option (Nat × Nat) :=
  let minor? : Option Nat := match String.ofList (latin (line.take 9)) with
    | "HTTP/1.0 " => some 0
    | "HTTP/1.1 " => some 1
    | _ => none
  let code := latin ((line.drop 9).take 3)
  let reason := line.drop 12
  if code.length = 3 && [none, some 0x20].contains reason.head? && reason.all isText then
    match minor?, natural? code with
    | some minor, some code => if 100 ≤ code then some (minor, code) else none
    | _, _ => none
  else none

def longestHead : Nat := 417792

def Head.read? (text : List UInt8) : Option (Head × List UInt8) := do
  let (line, rest) ← line? (afterEmptyLines text)
  let (minor, code) ← status? line
  let (lines, rest) ← lines? mostFields rest
  let fields ← lines.mapM field?
  if (line :: lines).flatten.length ≤ longestHead then some (⟨minor, code, fields⟩, rest)
  else none

theorem Head.length_lt_of_read? {text rest : List UInt8} {head : Head}
    (h : Head.read? text = some (head, rest)) : rest.length < text.length := by
  simp only [Head.read?, bind, Option.bind_eq_some_iff, Prod.exists] at h
  obtain ⟨_, afterStatus, hl, _, _, _, _, afterFields, hf, _, _, h⟩ := h
  split at h
  · obtain ⟨-, rfl⟩ := Prod.mk.injEq .. ▸ Option.some.inj h
    have := length_afterEmptyLines_le text
    have := length_lt_of_line? hl
    have := length_lt_of_lines? hf
    omega
  · simp at h

def Head.values (head : Head) (name : String) : List String :=
  head.fields.filterMap fun field => if field.1 = name then some field.2 else none

end PoolWatch.Http
