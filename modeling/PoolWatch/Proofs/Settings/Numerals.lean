import Mathlib.Data.List.TakeWhile
import PoolWatch.Settings
/-!
# Numbers in variables

Which texts stand for a number: decimal digits, perhaps after a plus sign and between blanks, of a
value of at most 64 bits.  These are the texts that are read as that number.
-/

namespace PoolWatch

open PoolWatch.Numeric PoolWatch.Text

/-! ## Blanks at the ends -/

/-- A text is another one between blanks. -/
def IsPadded (text core : List Char) : Prop :=
  ∃ before after, (∀ c ∈ before, isBlank c = true) ∧ (∀ c ∈ after, isBlank c = true) ∧
    text = before ++ core ++ after

theorem isPadded_trimmed (text : List Char) : IsPadded text (trimmed text) := by
  obtain ⟨rest, hrest⟩ : ∃ rest, text.dropWhile isBlank = rest := ⟨_, rfl⟩
  refine ⟨text.takeWhile isBlank, (rest.reverse.takeWhile isBlank).reverse,
    fun c hc => List.mem_takeWhile_imp hc,
    fun c hc => List.mem_takeWhile_imp (List.mem_reverse.1 hc), ?_⟩
  calc text
      = text.takeWhile isBlank ++ rest := by rw [← hrest, List.takeWhile_append_dropWhile]
    _ = text.takeWhile isBlank ++ ((rest.reverse.dropWhile isBlank).reverse ++
          (rest.reverse.takeWhile isBlank).reverse) := by
        rw [← List.reverse_append, List.takeWhile_append_dropWhile, List.reverse_reverse]
    _ = text.takeWhile isBlank ++ trimmed text ++ (rest.reverse.takeWhile isBlank).reverse := by
        rw [trimmed, hrest, List.append_assoc]

theorem dropWhile_padding {before core rest : List Char}
    (hbefore : ∀ c ∈ before, isBlank c = true) (hcore : ∀ c ∈ core, isBlank c = false)
    (hne : core ≠ []) : (before ++ (core ++ rest)).dropWhile isBlank = core ++ rest := by
  rw [List.dropWhile_append_of_pos hbefore]
  obtain ⟨c, cs, rfl⟩ := List.exists_cons_of_ne_nil hne
  have hc : isBlank c = false := hcore c List.mem_cons_self
  rw [List.cons_append, List.dropWhile_cons_of_neg (by rw [hc]; exact Bool.false_ne_true)]

theorem IsPadded.trimmed_eq {text core : List Char} (h : IsPadded text core)
    (hcore : ∀ c ∈ core, isBlank c = false) (hne : core ≠ []) : trimmed text = core := by
  obtain ⟨before, after, hbefore, hafter, rfl⟩ := h
  have hafter' : ∀ c ∈ after.reverse, isBlank c = true := fun c hc =>
    hafter c (List.mem_reverse.1 hc)
  have hcore' : ∀ c ∈ core.reverse, isBlank c = false := fun c hc =>
    hcore c (List.mem_reverse.1 hc)
  have hback : (after.reverse ++ core.reverse).dropWhile isBlank = core.reverse := by
    rw [← List.append_nil core.reverse]
    exact dropWhile_padding hafter' hcore' (mt List.reverse_eq_nil_iff.1 hne)
  rw [trimmed, List.append_assoc, dropWhile_padding hbefore hcore hne, List.reverse_append, hback,
    List.reverse_reverse]

namespace Settings

/-! ## Digits -/

theorem isDigit_iff {c : Char} : c.isDigit = true ↔ '0' ≤ c ∧ c ≤ '9' := by
  rw [Char.isDigit, Bool.and_eq_true, decide_eq_true_iff, decide_eq_true_iff]
  rfl

theorem isBlank_of_isDigit {c : Char} (h : c.isDigit = true) : isBlank c = false := by
  obtain ⟨hlow, hhigh⟩ := isDigit_iff.1 h
  have hlow : 48 ≤ c.toNat := hlow
  have hhigh : c.toNat ≤ 57 := hhigh
  simp only [isBlank, Bool.or_eq_false_iff, Bool.and_eq_false_iff, decide_eq_false_iff_not]
  omega

theorem digit?_eq_some_iff {c : Char} {d : Nat} :
    digit? c = some d ↔ c.isDigit = true ∧ c.toNat - '0'.toNat = d := by
  rw [digit?, isDigit_iff, Option.ite_none_right_eq_some, Option.some.injEq]

theorem digitsFrom?_eq_some_iff {value n : Nat} {cs : List Char} :
    digitsFrom? value cs = some n ↔
      (∀ c ∈ cs, c.isDigit = true) ∧ Nat.ofDigitChars 10 cs value = n := by
  induction cs generalizing value with
  | nil => simp [digitsFrom?, Nat.ofDigitChars]
  | cons c cs ih =>
    rw [digitsFrom?, Option.bind_eq_bind, Option.bind_eq_some_iff]
    simp only [ih, digit?_eq_some_iff, List.forall_mem_cons, Nat.ofDigitChars_cons]
    constructor
    · rintro ⟨d, ⟨hc, rfl⟩, hcs, hvalue⟩
      exact ⟨⟨hc, hcs⟩, by rwa [Nat.mul_comm]⟩
    · rintro ⟨⟨hc, hcs⟩, hvalue⟩
      exact ⟨_, ⟨hc, rfl⟩, hcs, by rwa [Nat.mul_comm]⟩

/-! ## Numerals -/

/-- Decimal digits, perhaps after a plus sign. -/
structure Numeral where
  plus : Bool
  digits : List Char
  ne_nil : digits ≠ []
  isDigit_of_mem : ∀ c ∈ digits, c.isDigit = true

namespace Numeral

def chars (x : Numeral) : List Char := if x.plus then '+' :: x.digits else x.digits

def value (x : Numeral) : Nat := Nat.ofDigitChars 10 x.digits 0

theorem chars_ne_nil (x : Numeral) : x.chars ≠ [] := by
  unfold chars
  split
  · exact List.cons_ne_nil _ _
  · exact x.ne_nil

theorem isBlank_of_mem_chars (x : Numeral) : ∀ c ∈ x.chars, isBlank c = false := by
  have hdigits : ∀ c ∈ x.digits, isBlank c = false := fun c hc =>
    isBlank_of_isDigit (x.isDigit_of_mem c hc)
  unfold chars
  split
  · exact List.forall_mem_cons.2 ⟨by decide, hdigits⟩
  · exact hdigits

end Numeral

def unsigned (text : List Char) : List Char :=
  match text with
  | '+' :: rest => rest
  | _ => text

theorem unsigned_chars (x : Numeral) : unsigned x.chars = x.digits := by
  obtain ⟨plus, digits, hne, hdigits⟩ := x
  cases plus with
  | true => rfl
  | false =>
    obtain ⟨c, cs, rfl⟩ := List.exists_cons_of_ne_nil hne
    show unsigned (c :: cs) = c :: cs
    unfold unsigned
    split
    next heq =>
      obtain ⟨rfl, -⟩ := List.cons.inj heq
      exact absurd (hdigits '+' List.mem_cons_self) (by decide)
    next => rfl

theorem exists_chars_of_unsigned {text : List Char} (hne : unsigned text ≠ [])
    (hdigits : ∀ c ∈ unsigned text, c.isDigit = true) :
    ∃ x : Numeral, x.chars = text ∧ x.digits = unsigned text := by
  revert hne hdigits
  unfold unsigned
  split
  next rest =>
    intro hne hdigits
    exact ⟨⟨true, rest, hne, hdigits⟩, rfl, rfl⟩
  next =>
    intro hne hdigits
    exact ⟨⟨false, text, hne, hdigits⟩, rfl, rfl⟩

theorem numeral?_eq_some_iff {text : List Char} {n : Nat} :
    numeral? text = some n ↔ ∃ x : Numeral, x.chars = text ∧ x.value = n ∧ n ≤ unsignedMax := by
  have hread : numeral? text = some n ↔ unsigned text ≠ [] ∧
      (∀ c ∈ unsigned text, c.isDigit = true) ∧ Nat.ofDigitChars 10 (unsigned text) 0 = n ∧
        n ≤ unsignedMax := by
    show (if (unsigned text).isEmpty then none
      else (digitsFrom? 0 (unsigned text)).filter (· ≤ unsignedMax)) = some n ↔ _
    rw [Option.ite_none_left_eq_some, Option.filter_eq_some_iff, digitsFrom?_eq_some_iff,
      List.isEmpty_iff, decide_eq_true_iff, and_assoc]
  rw [hread]
  constructor
  · rintro ⟨hne, hdigits, hvalue, hfits⟩
    obtain ⟨x, hchars, hx⟩ := exists_chars_of_unsigned hne hdigits
    exact ⟨x, hchars, by rwa [Numeral.value, hx], hfits⟩
  · rintro ⟨x, rfl, hvalue, hfits⟩
    rw [unsigned_chars]
    exact ⟨x.ne_nil, x.isDigit_of_mem, hvalue, hfits⟩

/-- A text stands for a number of at most 64 bits. -/
def Spells (text : String) (n : Nat) : Prop :=
  ∃ x : Numeral, IsPadded text.toList x.chars ∧ x.value = n ∧ n ≤ unsignedMax

theorem numeral?_trimmed_eq_some_iff {text : String} {n : Nat} :
    numeral? (trimmed text.toList) = some n ↔ Spells text n := by
  rw [numeral?_eq_some_iff]
  constructor
  · rintro ⟨x, hchars, hvalue⟩
    exact ⟨x, hchars ▸ isPadded_trimmed _, hvalue⟩
  · rintro ⟨x, hpadded, hvalue⟩
    exact ⟨x, (hpadded.trimmed_eq x.isBlank_of_mem_chars x.chars_ne_nil).symm, hvalue⟩

theorem spells_toString {n : Nat} (h : n ≤ unsignedMax) : Spells (toString n) n := by
  let x : Numeral :=
    { plus := false
      digits := Nat.toDigits 10 n
      ne_nil := Nat.toDigits_ne_nil
      isDigit_of_mem := fun c hc => Nat.isDigit_of_mem_toDigits (by decide) (by decide) hc }
  have hchars : (toString n).toList = x.chars := Nat.toList_repr
  refine ⟨x, ⟨[], [], by simp, by simp, ?_⟩, Nat.ofDigitChars_ten_toDigits, h⟩
  rw [hchars, List.append_nil, List.nil_append]

end Settings

end PoolWatch
