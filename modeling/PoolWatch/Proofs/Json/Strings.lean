import Mathlib.Tactic.Simproc.ExistsAndEq
import Mathlib.Tactic.SplitIfs
import PoolWatch.Proofs.Json.Grammar
import PoolWatch.Proofs.Text.Encoding
/-!
# Strings are read as they are spelled

A string is read from a text just when the text begins with a spelling of it.  Octets that carry a
character on stand for themselves, so a character is never composed of an escape and of octets
beside it.
-/

namespace PoolWatch.Json

open PoolWatch.Text

/-! ## One step -/

section

variable {state : StringState} {octet : UInt8} {text rest os : List UInt8}

theorem stringOctets_cons_eq_ok : stringOctets state (octet :: text) = .ok (os, rest) ↔
    state.step octet = .ok .close ∧ os = [] ∧ text = rest ∨
      ∃ next read os', state.step octet = .ok (.next next read) ∧ os = read ++ os' ∧
        stringOctets next text = .ok (os', rest) := by
  rw [stringOctets]
  cases hstep : state.step octet with
  | error problem => simp
  | ok step =>
    cases step with
    | close => simp [eq_comm]
    | next next read =>
      cases hrest : stringOctets next text with
      | error problem => simp [hrest]
      | ok p =>
        obtain ⟨os', rest'⟩ := p
        simp only [hrest, Except.ok.injEq, Prod.mk.injEq, StringStep.next.injEq, reduceCtorEq,
          false_and, false_or]
        constructor
        · rintro ⟨rfl, rfl⟩
          exact ⟨_, _, _, ⟨rfl, rfl⟩, rfl, hrest⟩
        · rintro ⟨_, _, os'', ⟨rfl, rfl⟩, rfl, h⟩
          rw [hrest, Except.ok.injEq, Prod.mk.injEq] at h
          exact ⟨by rw [h.1], h.2⟩

theorem stringOctets_of_next {next : StringState} (read : List UInt8)
    (hstep : state.step octet = .ok (.next next read))
    (h : stringOctets next text = .ok (os, rest)) :
    stringOctets state (octet :: text) = .ok (read ++ os, rest) :=
  stringOctets_cons_eq_ok.2 (.inr ⟨next, read, os, hstep, rfl, h⟩)

end

/-! ## Four digits -/

section

variable {lead : Option Nat} {code : Nat} {s text rest os : List UInt8}

def withDigit (value : Option Nat) (octet : UInt8) : Option Nat :=
  value.bind fun n => (hexDigit? octet).map (n * 16 + ·)

theorem finishEscape_ne_close (lead : Option Nat) (code : Nat) :
    finishEscape lead code ≠ .ok .close := by
  unfold finishEscape
  split <;> split <;> try split
  all_goals simp

theorem stringOctets_digit {count : Nat} {value : Option Nat} {octet : UInt8} (h : count < 3) :
    stringOctets (.digits lead count value) (octet :: text) =
      stringOctets (.digits lead (count + 1) (withDigit value octet)) text := by
  have hstep : (StringState.digits lead count value).step octet =
      .ok (.next (.digits lead (count + 1) (withDigit value octet)) []) := by
    simp only [StringState.step, h, if_true, withDigit]
    cases value <;> cases hexDigit? octet <;> rfl
  rw [stringOctets, hstep]
  dsimp only
  cases stringOctets (.digits lead (count + 1) (withDigit value octet)) text <;> rfl

theorem step_last_digit {value : Option Nat} {octet : UInt8} :
    (StringState.digits lead 3 value).step octet =
      match withDigit value octet with
      | some code => finishEscape lead code
      | none => .error .invalidEscape := by
  simp only [StringState.step, withDigit]
  cases value <;> cases hexDigit? octet <;> rfl

theorem withDigits_eq_some {a b c d : UInt8} :
    withDigit (withDigit (withDigit (withDigit (some 0) a) b) c) d = some code ↔
      SpellsHex code [a, b, c, d] := by
  simp only [withDigit, Option.bind_eq_some_iff, Option.map_eq_some_iff, Option.some.injEq]
  constructor
  · rintro ⟨_, ⟨_, ⟨_, ⟨_, rfl, p, ha, rfl⟩, q, hb, rfl⟩, r, hc, rfl⟩, t, hd, rfl⟩
    rw [Nat.zero_mul, Nat.zero_add]
    exact .digits ha hb hc hd
  · intro h
    cases h with
    | @digits _ _ _ _ p q r t ha hb hc hd =>
      exact ⟨_, ⟨_, ⟨_, ⟨0, rfl, p, ha, rfl⟩, q, hb, rfl⟩, r, hc, rfl⟩, t, hd, by omega⟩

theorem exists_digit {count : Nat} {value : Option Nat} (hcount : count < 3)
    (h : stringOctets (.digits lead count value) text = .ok (os, rest)) :
    ∃ octet text', text = octet :: text' ∧
      stringOctets (.digits lead (count + 1) (withDigit value octet)) text' = .ok (os, rest) := by
  cases text with
  | nil => cases h
  | cons octet text' => exact ⟨octet, text', rfl, stringOctets_digit hcount ▸ h⟩

theorem stringOctets_digits_eq_ok :
    stringOctets (.digits lead 0 (some 0)) text = .ok (os, rest) ↔
      ∃ code s text' state read os', SpellsHex code s ∧ text = s ++ text' ∧
        finishEscape lead code = .ok (.next state read) ∧ os = read ++ os' ∧
        stringOctets state text' = .ok (os', rest) := by
  constructor
  · intro h
    obtain ⟨a, text₁, rfl, h₁⟩ := exists_digit (by decide) h
    obtain ⟨b, text₂, rfl, h₂⟩ := exists_digit (by decide) h₁
    obtain ⟨c, text₃, rfl, h₃⟩ := exists_digit (by decide) h₂
    cases text₃ with
    | nil => cases h₃
    | cons d text =>
      rw [stringOctets_cons_eq_ok, step_last_digit] at h₃
      cases hvalue : withDigit (withDigit (withDigit (withDigit (some 0) a) b) c) d with
      | none => simp [hvalue] at h₃
      | some code =>
        rw [hvalue] at h₃
        obtain ⟨hclose, -⟩ | ⟨state, read, os', hnext, hos, hrest⟩ := h₃
        · -- an escape does not end a string
          exact absurd hclose (finishEscape_ne_close lead code)
        · exact ⟨code, _, text, state, read, os', withDigits_eq_some.1 hvalue, rfl, hnext, hos,
            hrest⟩
  · rintro ⟨code, s, text', state, read, os', hs, rfl, hfinish, rfl, h⟩
    cases hs with
    | digits ha hb hc hd =>
      have hvalue := withDigits_eq_some.2 (SpellsHex.digits ha hb hc hd)
      simp only [List.cons_append, List.nil_append, stringOctets_digit, Nat.reduceAdd,
        Nat.reduceLT]
      exact stringOctets_of_next _ (by rw [step_last_digit, hvalue]; exact hfinish) h

end

/-! ## Characters -/

/-- An octet that stands for itself in a string. -/
def IsPlain (octet : UInt8) : Prop := octet ≠ 0x22 ∧ octet ≠ 0x5c ∧ 0x20 ≤ octet

theorem step_plain {octet : UInt8} (h : IsPlain octet) :
    StringState.plain.step octet = .ok (.next .plain [octet]) := by
  obtain ⟨hquote, hbackslash, hspace⟩ := h
  simp [StringState.step, hquote, hbackslash, UInt8.not_lt.2 hspace]

theorem isPlain_iff_toNat {octet : UInt8} :
    IsPlain octet ↔ octet.toNat ≠ 0x22 ∧ octet.toNat ≠ 0x5c ∧ 0x20 ≤ octet.toNat := by
  simp only [IsPlain, ne_eq, ← UInt8.toNat_inj, UInt8.le_iff_toNat_le, UInt8.reduceToNat]

theorem isPlain_of_le {octet : UInt8} (h : 0x80 ≤ octet.toNat) : IsPlain octet :=
  isPlain_iff_toNat.2 ⟨by omega, by omega, by omega⟩

section

variable {c : Char} {s text rest os : List UInt8}

theorem isPlain_of_encodeChar (hquote : c ≠ '"') (hbackslash : c ≠ '\\')
    (hspace : 0x20 ≤ c.toNat) : ∀ octet ∈ String.utf8EncodeChar c, IsPlain octet := by
  have hc := encodes_encodeChar c
  generalize String.utf8EncodeChar c = s at hc
  cases hc with
  | one ha hc =>
    have hquote : c.toNat ≠ 0x22 := fun h => hquote (Char.toNat_inj.1 h)
    have hbackslash : c.toNat ≠ 0x5c := fun h => hbackslash (Char.toNat_inj.1 h)
    rw [List.forall_mem_singleton]
    exact isPlain_iff_toNat.2 ⟨by omega, by omega, by omega⟩
  | two ha _ hb _ _ =>
    simp only [List.forall_mem_cons]
    exact ⟨isPlain_of_le (by omega), isPlain_of_le hb.1, List.forall_mem_nil _⟩
  | three ha _ hb hb' _ _ =>
    simp only [List.forall_mem_cons]
    exact ⟨isPlain_of_le (by omega), isPlain_of_le hb.1, isPlain_of_le hb'.1,
      List.forall_mem_nil _⟩
  | four ha _ hb hb' hb'' _ _ =>
    simp only [List.forall_mem_cons]
    exact ⟨isPlain_of_le (by omega), isPlain_of_le hb.1, isPlain_of_le hb'.1,
      isPlain_of_le hb''.1, List.forall_mem_nil _⟩

theorem stringOctets_append (hs : ∀ octet ∈ s, IsPlain octet)
    (h : stringOctets .plain text = .ok (os, rest)) :
    stringOctets .plain (s ++ text) = .ok (s ++ os, rest) := by
  induction s with
  | nil => exact h
  | cons octet s ih =>
    obtain ⟨hoctet, hs⟩ := List.forall_mem_cons.1 hs
    exact stringOctets_of_next [octet] (step_plain hoctet) (ih hs)

theorem finishEscape_char (hc : c.toNat < 0x10000) :
    finishEscape none c.toNat = .ok (.next .plain (String.utf8EncodeChar c)) := by
  have hvalid : c.toNat < 0xd800 ∨ 0xdfff < c.toNat ∧ c.toNat < 0x110000 := c.valid
  simp only [finishEscape]
  rw [if_neg (by omega), if_neg (by omega), Char.ofNat_toNat]

theorem finishEscape_lead {lead : Nat} (hlow : 0xd800 ≤ lead) (hhigh : lead ≤ 0xdbff) :
    finishEscape none lead = .ok (.next (.awaitBackslash lead) []) := by
  simp only [finishEscape]
  rw [if_neg (by omega), if_pos ⟨hlow, hhigh⟩]

theorem finishEscape_trail {lead trail : Nat} (hlow : 0xdc00 ≤ trail) (hhigh : trail ≤ 0xdfff)
    (hc : c.toNat = 0x10000 + (lead - 0xd800) * 0x400 + (trail - 0xdc00)) :
    finishEscape (some lead) trail = .ok (.next .plain (String.utf8EncodeChar c)) := by
  simp only [finishEscape]
  rw [if_pos ⟨hlow, hhigh⟩, ← hc, Char.ofNat_toNat]

theorem encodeChar_of_shortEscape? {letter octet : UInt8}
    (h : shortEscape? letter = some octet) :
    String.utf8EncodeChar (Char.ofNat octet.toNat) = [octet] := by
  have hlt : octet.toNat < 0x80 := by
    unfold shortEscape? at h
    split_ifs at h <;> cases h <;> decide
  exact (encodes_iff.1 (.one hlt (toNat_charOfNat (.inl (by omega))))).symm

theorem step_short {letter octet : UInt8} (h : shortEscape? letter = some octet) :
    StringState.escape.step letter = .ok (.next .plain [octet]) := by
  have hletter : letter ≠ 0x75 := by
    rintro rfl
    cases h
  simp only [StringState.step, if_neg hletter, h]

theorem toNat_lt_of_spellsHex {code : Nat} (h : SpellsHex code s) : code < 0x10000 := by
  have hdigit : ∀ {octet : UInt8} {n : Nat}, hexDigit? octet = some n → n < 16 := by
    intro octet n h
    unfold hexDigit? at h
    grind
  cases h with
  | digits ha hb hc hd =>
    have := hdigit ha
    have := hdigit hb
    have := hdigit hc
    have := hdigit hd
    omega

theorem SpellsChar.stringOctets (hc : SpellsChar c s)
    (h : stringOctets .plain text = .ok (os, rest)) :
    stringOctets .plain (s ++ text) = .ok (String.utf8EncodeChar c ++ os, rest) := by
  cases hc with
  | plain hquote hbackslash hspace =>
    exact stringOctets_append (isPlain_of_encodeChar hquote hbackslash hspace) h
  | @short letter octet hletter =>
    rw [encodeChar_of_shortEscape? hletter]
    exact stringOctets_of_next [] rfl (stringOctets_of_next _ (step_short hletter) h)
  | code hs =>
    refine stringOctets_of_next [] rfl (stringOctets_of_next [] rfl ?_)
    exact stringOctets_digits_eq_ok.2 ⟨_, _, _, _, _, _, hs, rfl,
      finishEscape_char (toNat_lt_of_spellsHex hs), rfl, h⟩
  | @pair _ lead trail s t hs ht hlow hhigh hlow' hhigh' hc =>
    refine stringOctets_of_next [] rfl (stringOctets_of_next [] rfl ?_)
    refine stringOctets_digits_eq_ok.2 ⟨_, s, 0x5c :: 0x75 :: t ++ text, _, [], _, hs,
      List.append_assoc _ _ _, finishEscape_lead hlow hhigh, rfl, ?_⟩
    refine stringOctets_of_next [] rfl (stringOctets_of_next [] rfl ?_)
    exact stringOctets_digits_eq_ok.2 ⟨_, _, _, _, _, _, ht, rfl,
      finishEscape_trail hlow' hhigh' hc, rfl, h⟩

theorem SpellsChars.stringOctets {cs : List Char} (h : SpellsChars cs s) :
    stringOctets .plain (s ++ 0x22 :: rest) = .ok (cs.flatMap String.utf8EncodeChar, rest) := by
  induction h with
  | nil => rfl
  | cons hc _ ih =>
    rw [List.append_assoc, List.flatMap_cons]
    exact hc.stringOctets ih

/-! ## What has been read -/

theorem exists_of_awaitBackslash {lead : Nat}
    (h : stringOctets (.awaitBackslash lead) text = .ok (os, rest)) :
    ∃ text', text = 0x5c :: 0x75 :: text' ∧
      stringOctets (.digits (some lead) 0 (some 0)) text' = .ok (os, rest) := by
  obtain ⟨text₁, rfl, h₁⟩ : ∃ text₁, text = 0x5c :: text₁ ∧
      stringOctets (.awaitLetter lead) text₁ = .ok (os, rest) := by
    cases text with
    | nil => cases h
    | cons octet text =>
      simp only [stringOctets_cons_eq_ok, StringState.step] at h
      split at h
      next hoctet => exact ⟨text, by rw [hoctet], by simpa using h⟩
      next => simp at h
  cases text₁ with
  | nil => cases h₁
  | cons letter text =>
    simp only [stringOctets_cons_eq_ok, StringState.step] at h₁
    split at h₁
    next hletter => exact ⟨text, by rw [hletter], by simpa using h₁⟩
    next => simp at h₁

theorem finishEscape_none {code : Nat} {state : StringState} {read : List UInt8}
    (h : finishEscape none code = .ok (.next state read)) :
    (0xd800 ≤ code ∧ code ≤ 0xdbff) ∧ state = .awaitBackslash code ∧ read = [] ∨
      (code < 0xd800 ∨ 0xdfff < code) ∧ state = .plain ∧
        read = String.utf8EncodeChar (Char.ofNat code) := by
  simp only [finishEscape] at h
  split at h
  · cases h
  next =>
    split at h
    next hlead =>
      simp only [Except.ok.injEq, StringStep.next.injEq] at h
      exact .inl ⟨hlead, h.1.symm, h.2.symm⟩
    next =>
      simp only [Except.ok.injEq, StringStep.next.injEq] at h
      exact .inr ⟨by omega, h.1.symm, h.2.symm⟩

theorem finishEscape_some {lead trail : Nat} {state : StringState} {read : List UInt8}
    (h : finishEscape (some lead) trail = .ok (.next state read)) :
    0xdc00 ≤ trail ∧ trail ≤ 0xdfff ∧ state = .plain ∧
      ∃ n, n = 0x10000 + (lead - 0xd800) * 0x400 + (trail - 0xdc00) ∧
        read = String.utf8EncodeChar (Char.ofNat n) := by
  simp only [finishEscape] at h
  split at h
  next htrail =>
    simp only [Except.ok.injEq, StringStep.next.injEq] at h
    exact ⟨htrail.1, htrail.2, h.1.symm, _, rfl, h.2.symm⟩
  · cases h

theorem exists_char_of_digits
    (h : stringOctets (.digits none 0 (some 0)) text = .ok (os, rest)) :
    ∃ c s text' os', SpellsChar c (0x5c :: 0x75 :: s) ∧ text = s ++ text' ∧
      os = String.utf8EncodeChar c ++ os' ∧ stringOctets .plain text' = .ok (os', rest) := by
  obtain ⟨code, s, text₁, state, read, os₁, hs, rfl, hfinish, rfl, h₁⟩ :=
    stringOctets_digits_eq_ok.1 h
  have hcode := toNat_lt_of_spellsHex hs
  obtain ⟨hlead, rfl, rfl⟩ | ⟨hvalid, rfl, rfl⟩ := finishEscape_none hfinish
  · obtain ⟨text₂, rfl, h₂⟩ := exists_of_awaitBackslash h₁
    obtain ⟨trail, t, text₃, state, read, os₃, ht, rfl, hfinish, rfl, h₃⟩ :=
      stringOctets_digits_eq_ok.1 h₂
    obtain ⟨hlow, hhigh, rfl, n, hn, rfl⟩ := finishEscape_some hfinish
    have hc : (Char.ofNat n).toNat = n := toNat_charOfNat (.inr (by omega))
    exact ⟨_, s ++ 0x5c :: 0x75 :: t, text₃, os₃,
      .pair hs ht hlead.1 hlead.2 hlow hhigh (hc.trans hn), by simp, rfl, h₃⟩
  · have hc : (Char.ofNat code).toNat = code := toNat_charOfNat (by unfold Nat.isValidChar; omega)
    have hs : SpellsHex (Char.ofNat code).toNat s := by rwa [hc]
    exact ⟨_, s, text₁, os₁, .code hs, rfl, rfl, h₁⟩

theorem exists_char_of_escape (h : stringOctets .escape text = .ok (os, rest)) :
    ∃ c s text' os', SpellsChar c (0x5c :: s) ∧ 0x5c :: text = 0x5c :: s ++ text' ∧
      os = String.utf8EncodeChar c ++ os' ∧ stringOctets .plain text' = .ok (os', rest) := by
  cases text with
  | nil => cases h
  | cons letter text =>
    rw [stringOctets_cons_eq_ok] at h
    by_cases hcode : letter = 0x75
    · subst hcode
      obtain ⟨hstep, -⟩ | ⟨next, read, os', hstep, rfl, h⟩ := h
      · cases hstep
      · cases hstep
        obtain ⟨c, s, text', os', hc, rfl, rfl, h'⟩ := exists_char_of_digits h
        exact ⟨c, _, text', os', hc, rfl, rfl, h'⟩
    cases hletter : shortEscape? letter with
    | none => simp [StringState.step, hcode, hletter] at h
    | some octet =>
      simp only [step_short hletter] at h
      obtain ⟨hstep, -⟩ | ⟨next, read, os', hstep, rfl, h⟩ := h
      · cases hstep
      · cases hstep
        refine ⟨_, _, text, os', .short hletter, rfl, ?_, h⟩
        rw [encodeChar_of_shortEscape? hletter]

/-- What is read from a text is nothing at the closing quote, an octet that stands for itself, or
the octets of a character that is escaped. -/
theorem exists_of_stringOctets_plain (h : stringOctets .plain text = .ok (os, rest)) :
    os = [] ∧ text = 0x22 :: rest ∨
      (∃ octet text' os', IsPlain octet ∧ text = octet :: text' ∧ os = octet :: os' ∧
        stringOctets .plain text' = .ok (os', rest)) ∨
      ∃ c s text' os', SpellsChar c (0x5c :: s) ∧ text = 0x5c :: s ++ text' ∧
        os = String.utf8EncodeChar c ++ os' ∧ stringOctets .plain text' = .ok (os', rest) := by
  cases text with
  | nil => cases h
  | cons octet text =>
    rw [stringOctets_cons_eq_ok] at h
    by_cases hquote : octet = 0x22
    · subst hquote
      obtain ⟨-, hos, htext⟩ | ⟨next, read, os', hstep, -⟩ := h
      · exact .inl ⟨hos, by rw [htext]⟩
      · cases hstep
    by_cases hbackslash : octet = 0x5c
    · subst hbackslash
      obtain ⟨hstep, -⟩ | ⟨next, read, os', hstep, rfl, h⟩ := h
      · cases hstep
      · cases hstep
        exact .inr (.inr (exists_char_of_escape h))
    by_cases hspace : octet < 0x20
    · simp [StringState.step, hquote, hbackslash, hspace] at h
    have hplain : IsPlain octet := ⟨hquote, hbackslash, UInt8.not_lt.1 hspace⟩
    simp only [step_plain hplain] at h
    obtain ⟨hstep, -⟩ | ⟨next, read, os', hstep, rfl, h⟩ := h
    · cases hstep
    · cases hstep
      exact .inr (.inl ⟨octet, text, os', hplain, rfl, rfl, h⟩)

theorem exists_of_carriesOn {tail : List UInt8} (htail : ∀ octet ∈ tail, CarriesOn octet)
    (h : stringOctets .plain text = .ok (tail ++ os, rest)) :
    ∃ text', text = tail ++ text' ∧ stringOctets .plain text' = .ok (os, rest) := by
  induction tail generalizing text with
  | nil => exact ⟨text, rfl, h⟩
  | cons octet tail ih =>
    obtain ⟨hoctet, htail⟩ := List.forall_mem_cons.1 htail
    obtain ⟨hos, -⟩ | ⟨_, text', os', -, rfl, hos, h'⟩ | ⟨c, _, _, _, -, -, hos, -⟩ :=
      exists_of_stringOctets_plain h
    · cases hos
    · obtain ⟨rfl, rfl⟩ := List.cons.inj hos
      obtain ⟨text'', rfl, h''⟩ := ih htail h'
      exact ⟨text'', rfl, h''⟩
    · -- an escape stands for whole characters, and none of them begins with this octet
      obtain ⟨lead, _, hc, hlead, -⟩ := exists_lead c
      rw [hc] at hos
      exact absurd ((List.cons.inj hos).1 ▸ hoctet) hlead

theorem spellsChar_of_lead {lead : UInt8} {tail : List UInt8}
    (hc : String.utf8EncodeChar c = lead :: tail) (hlead : IsPlain lead) :
    SpellsChar c (lead :: tail) := by
  obtain ⟨hquote, hbackslash, hspace⟩ := isPlain_iff_toNat.1 hlead
  have henc := encodes_encodeChar c
  rw [hc] at henc
  have hnat : c.toNat ≠ 0x22 ∧ c.toNat ≠ 0x5c ∧ 0x20 ≤ c.toNat := by
    cases henc <;> exact ⟨by omega, by omega, by omega⟩
  rw [← hc]
  refine .plain ?_ ?_ hnat.2.2
  · rintro rfl
    exact hnat.1 rfl
  · rintro rfl
    exact hnat.2.1 rfl

theorem exists_spellsChars {cs : List Char} (h : stringOctets .plain text = .ok (os, rest))
    (hcs : decodeUtf8 os = some cs) :
    ∃ body, SpellsChars cs body ∧ text = body ++ 0x22 :: rest := by
  induction hlength : text.length using Nat.strongRecOn generalizing text os cs with
  | ind n ih =>
    obtain ⟨rfl, rfl⟩ | ⟨octet, text', os', hplain, rfl, rfl, h'⟩ |
      ⟨c, s, text', os', hc, rfl, rfl, h'⟩ := exists_of_stringOctets_plain h
    · cases hcs
      exact ⟨[], .nil, rfl⟩
    · obtain ⟨c, tail, cs', rfl, htext, hcs'⟩ := decodeUtf8_cons_iff.1 hcs
      obtain ⟨lead, ks, hlead, -, hks⟩ := exists_lead c
      rw [hlead, List.cons_append] at htext
      obtain ⟨rfl, rfl⟩ := List.cons.inj htext
      obtain ⟨text'', rfl, h''⟩ := exists_of_carriesOn hks h'
      have hshorter : text''.length < n := by
        rw [← hlength, List.length_cons, List.length_append]
        omega
      obtain ⟨body, hbody, rfl⟩ := ih _ hshorter h'' hcs' rfl
      exact ⟨octet :: ks ++ body, .cons (spellsChar_of_lead hlead hplain) hbody, by simp⟩
    · obtain ⟨lead, ks, hlead, -, -⟩ := exists_lead c
      have hsame := hcs
      rw [hlead, List.cons_append, decodeUtf8_cons_iff] at hsame
      obtain ⟨c', tail, cs', rfl, htext, hcs'⟩ := hsame
      rw [← List.cons_append, ← hlead] at htext
      obtain ⟨rfl, rfl⟩ := encodeChar_append_inj htext
      have hshorter : text'.length < n := by
        rw [← hlength, List.length_append, List.length_cons]
        omega
      obtain ⟨body, hbody, rfl⟩ := ih _ hshorter h' hcs' rfl
      exact ⟨0x5c :: s ++ body, .cons hc hbody, by simp⟩

/-! ## Strings -/

theorem readString_of_spells {value : String} {body : List UInt8}
    (h : SpellsChars value.toList body) :
    readString (body ++ 0x22 :: rest) = .ok (value, rest) := by
  simp only [readString, h.stringOctets, decodeUtf8_flatMap_encode, String.ofList_toList]

theorem exists_of_readString {value : String} (h : readString text = .ok (value, rest)) :
    ∃ body, SpellsChars value.toList body ∧ text = body ++ 0x22 :: rest := by
  unfold readString at h
  cases hoctets : stringOctets .plain text with
  | error problem => simp [hoctets] at h
  | ok p =>
    obtain ⟨os, rest'⟩ := p
    cases hcs : decodeUtf8 os with
    | none => simp [hoctets, hcs] at h
    | some cs =>
      simp only [hoctets, hcs, Except.ok.injEq, Prod.mk.injEq] at h
      obtain ⟨rfl, rfl⟩ := h
      rw [String.toList_ofList]
      exact exists_spellsChars hoctets hcs

/-! ## Strings that are passed over -/

theorem passString_digits_eq_ok : passString (.digits 0 true) text = .ok rest ↔
    ∃ code s text', SpellsHex code s ∧ text = s ++ text' ∧ passString .plain text' = .ok rest := by
  constructor
  · intro h
    match text with
    | [] | [_] | [_, _] | [_, _, _] => simp [passString] at h
    | a :: b :: c :: d :: text' =>
      simp only [passString, Bool.true_and, Nat.reduceAdd, Nat.reduceLT, if_true, if_false] at h
      split at h
      next hdigits =>
        simp only [Bool.and_eq_true, Option.isSome_iff_exists] at hdigits
        obtain ⟨⟨⟨⟨p, ha⟩, q, hb⟩, r, hc⟩, t, hd⟩ := hdigits
        exact ⟨_, _, text', .digits ha hb hc hd, rfl, h⟩
      next => cases h
  · rintro ⟨code, s, text', hs, rfl, h⟩
    cases hs with
    | digits ha hb hc hd => simpa [passString, ha, hb, hc, hd] using h

theorem StringRest.passString (hs : StringRest s) : passString .plain (s ++ rest) = .ok rest := by
  induction hs with
  | close => rfl
  | @plain octet s hquote hbackslash hspace _ ih =>
    rw [List.cons_append, Json.passString, if_neg hquote, if_neg hbackslash,
      if_neg (UInt8.not_lt.2 hspace), ih]
  | @short letter octet s hletter _ ih =>
    have hcode : letter ≠ 0x75 := by
      rintro rfl
      cases hletter
    show Json.passString .escape (letter :: (s ++ rest)) = _
    rw [Json.passString, if_neg hcode, hletter]
    exact ih
  | @code code s t hs _ ih =>
    show Json.passString (.digits 0 true) (s ++ t ++ rest) = _
    exact passString_digits_eq_ok.2 ⟨code, s, t ++ rest, hs, List.append_assoc _ _ _, ih⟩

theorem exists_of_passString_escape (h : passString .escape text = .ok rest) :
    ∃ escape text', (∀ s, StringRest s → StringRest (0x5c :: escape ++ s)) ∧
      text = escape ++ text' ∧ passString .plain text' = .ok rest := by
  cases text with
  | nil => cases h
  | cons letter text =>
    rw [passString] at h
    split at h
    next hcode =>
      obtain ⟨code, s, text', hs, rfl, h'⟩ := passString_digits_eq_ok.1 h
      exact ⟨letter :: s, text', fun t ht => hcode ▸ .code hs ht, rfl, h'⟩
    next =>
      split at h
      next hletter =>
        obtain ⟨octet, hletter⟩ := Option.isSome_iff_exists.1 hletter
        exact ⟨[letter], text, fun t ht => .short hletter ht, rfl, h⟩
      next => cases h

theorem exists_of_passString (h : passString .plain text = .ok rest) :
    ∃ s, StringRest s ∧ text = s ++ rest := by
  induction hlength : text.length using Nat.strongRecOn generalizing text with
  | ind n ih =>
    cases text with
    | nil => cases h
    | cons octet text =>
      rw [passString] at h
      split at h
      next hquote =>
        cases h
        exact ⟨_, .close, by rw [hquote]; rfl⟩
      next hquote =>
        split at h
        next hbackslash =>
          subst hbackslash
          obtain ⟨escape, text', hescape, rfl, h'⟩ := exists_of_passString_escape h
          have hshorter : text'.length < n := by
            rw [← hlength, List.length_cons, List.length_append]
            omega
          obtain ⟨s, hs, rfl⟩ := ih _ hshorter h' rfl
          exact ⟨0x5c :: escape ++ s, hescape s hs, by simp⟩
        next hbackslash =>
          split at h
          · cases h
          next hspace =>
            obtain ⟨s, hs, rfl⟩ := ih _ (by rw [← hlength, List.length_cons]; omega) h rfl
            exact ⟨octet :: s, .plain hquote hbackslash (UInt8.not_lt.1 hspace) hs, rfl⟩

end

end PoolWatch.Json
