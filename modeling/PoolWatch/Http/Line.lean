/-!
# Lines

The lines of a text of octets. In a head a line ends with a line feed, in front of which a
carriage return does not count. In a body only both together end a line.
-/

namespace PoolWatch.Http

/-! ## Octets -/

def isSpace (octet : UInt8) : Bool := octet == 0x20 || octet == 0x09

def isText (octet : UInt8) : Bool := octet == 0x09 || (0x20 ≤ octet && octet != 0x7f)

def isToken (octet : UInt8) : Bool :=
  let c := Char.ofNat octet.toNat
  c.isAlphanum || "!#$%&'*+-.^_`|~".toList.contains c

def latin (octets : List UInt8) : List Char := octets.map fun octet => Char.ofNat octet.toNat

def inner (octets : List UInt8) : List UInt8 :=
  ((octets.dropWhile isSpace).reverse.dropWhile isSpace).reverse

/-! ## Lines -/

def withoutReturn : List UInt8 → List UInt8
  | 0x0d :: line => line
  | line => line

def lineFrom? (begun : List UInt8) : List UInt8 → Option (List UInt8 × List UInt8)
  | [] => none
  | octet :: rest =>
    if octet = 0x0a then some ((withoutReturn begun).reverse, rest)
    else lineFrom? (octet :: begun) rest

def line? (text : List UInt8) : Option (List UInt8 × List UInt8) := lineFrom? [] text

theorem length_lt_of_lineFrom? {begun text line rest : List UInt8}
    (h : lineFrom? begun text = some (line, rest)) : rest.length < text.length := by
  fun_induction lineFrom? begun text with
  | case1 => simp at h
  | case2 =>
    obtain ⟨-, rfl⟩ := Prod.mk.injEq .. ▸ Option.some.inj h
    simp only [List.length_cons]
    omega
  | case3 _ _ _ _ ih =>
    have := ih h
    simp only [List.length_cons]
    omega

theorem length_lt_of_line? {text line rest : List UInt8} (h : line? text = some (line, rest)) :
    rest.length < text.length :=
  length_lt_of_lineFrom? h

def afterEmptyLines : List UInt8 → List UInt8
  | 0x0a :: rest => afterEmptyLines rest
  | 0x0d :: 0x0a :: rest => afterEmptyLines rest
  | text => text

theorem length_afterEmptyLines_le (text : List UInt8) :
    (afterEmptyLines text).length ≤ text.length := by
  fun_induction afterEmptyLines text with
  | case1 _ ih =>
    simp only [List.length_cons]
    omega
  | case2 _ ih =>
    simp only [List.length_cons]
    omega
  | case3 => exact Nat.le_refl _

/-- The first line of a text that a carriage return and a line feed end, and what follows it. No
other carriage return can be in the line. -/
def strictLine? (text : List UInt8) : Option (List UInt8 × List UInt8) :=
  match text.dropWhile (· ≠ 0x0d) with
  | _ :: 0x0a :: rest => some (text.takeWhile (· ≠ 0x0d), rest)
  | _ => none

theorem length_dropWhile_le {α : Type} (p : α → Bool) (xs : List α) :
    (xs.dropWhile p).length ≤ xs.length := by
  have := congrArg List.length (List.takeWhile_append_dropWhile (p := p) (l := xs))
  rw [List.length_append] at this
  omega

theorem length_lt_of_strictLine? {text line rest : List UInt8}
    (h : strictLine? text = some (line, rest)) : rest.length < text.length := by
  have le := length_dropWhile_le (· ≠ 0x0d) text
  unfold strictLine? at h
  split at h
  · next heq =>
    obtain ⟨-, rfl⟩ := Prod.mk.injEq .. ▸ Option.some.inj h
    rw [heq] at le
    simp only [List.length_cons] at le
    omega
  · simp at h

end PoolWatch.Http
