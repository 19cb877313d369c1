import PoolWatch.Text.Utf8
/-!
# Encoded characters

A character is encoded as one leading octet and the octets that carry it on.  Reading the octets
of a character gives it back, and whatever is read begins with the octets of the first character.
-/

namespace PoolWatch.Text

/-- An octet that carries a character on and begins none. -/
def CarriesOn (octet : UInt8) : Prop := 0x80 ≤ octet.toNat ∧ octet.toNat < 0xc0

theorem toNat_ofNat_of_lt {n : Nat} (h : n < 256) : (UInt8.ofNat n).toNat = n :=
  UInt8.toNat_ofNat_of_lt h

theorem carriesOn_ofNat {n : Nat} : CarriesOn (UInt8.ofNat (n % 64 + 128)) := by
  unfold CarriesOn
  rw [toNat_ofNat_of_lt (by omega)]
  omega

theorem continuation?_eq_some {octet : UInt8} {n : Nat} :
    continuation? octet = some n ↔ CarriesOn octet ∧ n + 0x80 = octet.toNat := by
  unfold continuation? CarriesOn
  simp only [UInt8.le_iff_toNat_le, UInt8.lt_iff_toNat_lt, UInt8.reduceToNat]
  split
  · rw [Option.some.injEq]
    omega
  · simp only [reduceCtorEq, false_iff]
    omega

theorem character?_eq_some {least code : Nat} {c : Char} :
    character? least code = some c ↔ c.toNat = code ∧ least ≤ code := by
  unfold character?
  by_cases h : code.isValidChar
  · rw [dif_pos h]
    have hcode : (Char.ofNatAux code h).toNat = code := rfl
    by_cases hle : least ≤ code
    · rw [if_pos hle, Option.some.injEq]
      constructor
      · rintro rfl
        exact ⟨hcode, hle⟩
      · rintro ⟨hc, -⟩
        exact Char.toNat_inj.1 (hcode.trans hc.symm)
    · rw [if_neg hle]
      simp only [reduceCtorEq, false_iff]
      exact fun hc => hle hc.2
  · rw [dif_neg h]
    simp only [reduceCtorEq, false_iff]
    rintro ⟨rfl, -⟩
    exact h c.valid

/-! ## Characters of one, two, three and four octets -/

section

variable {a b c d : UInt8} {rest : List UInt8} {cs : List Char}

theorem toNat_charOfNat {n : Nat} (h : n.isValidChar) : (Char.ofNat n).toNat = n := by
  rw [Char.ofNat, dif_pos h]
  rfl

theorem decodeUtf8_one (ha : a.toNat < 0x80) :
    decodeUtf8 (a :: rest) = some cs ↔
      ∃ c cs', cs = c :: cs' ∧ c.toNat = a.toNat ∧ decodeUtf8 rest = some cs' := by
  have hchar : (Char.ofNat a.toNat).toNat = a.toNat := toNat_charOfNat (.inl (by omega))
  rw [decodeUtf8.eq_def]
  simp only [UInt8.lt_iff_toNat_lt, UInt8.reduceToNat]
  rw [if_pos ha, Option.map_eq_some_iff]
  constructor
  · rintro ⟨cs', hcs', rfl⟩
    exact ⟨_, cs', rfl, hchar, hcs'⟩
  · rintro ⟨c, cs', rfl, hc, hcs'⟩
    exact ⟨cs', hcs', by rw [Char.toNat_inj.1 (hchar.trans hc.symm)]⟩

theorem decodeUtf8_two (ha : 0xc0 ≤ a.toNat) (ha' : a.toNat < 0xe0) :
    decodeUtf8 (a :: rest) = some cs ↔ ∃ b rest' c cs', rest = b :: rest' ∧ cs = c :: cs' ∧
      CarriesOn b ∧ c.toNat + 0x3080 = a.toNat * 64 + b.toNat ∧ 0x80 ≤ c.toNat ∧
      decodeUtf8 rest' = some cs' := by
  rw [decodeUtf8.eq_def]
  simp only [UInt8.lt_iff_toNat_lt, UInt8.reduceToNat]
  rw [if_neg (by omega), if_neg (by omega), if_pos ha']
  match rest with
  | [] => simp
  | b :: rest' =>
    simp only [bind, Option.bind_eq_some_iff, continuation?_eq_some, character?_eq_some, pure,
      Option.some.injEq]
    constructor
    · rintro ⟨n, ⟨hb, hn⟩, c, ⟨hc, hle⟩, cs', hcs', rfl⟩
      exact ⟨b, rest', c, cs', rfl, rfl, hb, by omega, by omega, hcs'⟩
    · rintro ⟨b, rest', c, cs', hrest, rfl, hb, hc, hle, hcs'⟩
      cases hrest
      have hlow := hb.1
      exact ⟨b.toNat - 0x80, ⟨hb, by omega⟩, c, ⟨by omega, by omega⟩, cs', hcs', rfl⟩

theorem decodeUtf8_three (ha : 0xe0 ≤ a.toNat) (ha' : a.toNat < 0xf0) :
    decodeUtf8 (a :: rest) = some cs ↔ ∃ b b' rest' c cs', rest = b :: b' :: rest' ∧
      cs = c :: cs' ∧ CarriesOn b ∧ CarriesOn b' ∧
      c.toNat + 0xe2080 = (a.toNat * 64 + b.toNat) * 64 + b'.toNat ∧ 0x800 ≤ c.toNat ∧
      decodeUtf8 rest' = some cs' := by
  rw [decodeUtf8.eq_def]
  simp only [UInt8.lt_iff_toNat_lt, UInt8.reduceToNat]
  rw [if_neg (by omega), if_neg (by omega), if_neg (by omega), if_pos ha']
  match rest with
  | [] => simp
  | [b] => simp
  | b :: b' :: rest' =>
    simp only [bind, Option.bind_eq_some_iff, continuation?_eq_some, character?_eq_some, pure,
      Option.some.injEq]
    constructor
    · rintro ⟨n, ⟨hb, hn⟩, n', ⟨hb', hn'⟩, c, ⟨hc, hle⟩, cs', hcs', rfl⟩
      exact ⟨b, b', rest', c, cs', rfl, rfl, hb, hb', by omega, by omega, hcs'⟩
    · rintro ⟨b, b', rest', c, cs', hrest, rfl, hb, hb', hc, hle, hcs'⟩
      cases hrest
      have hlow := hb.1
      have hlow' := hb'.1
      exact ⟨b.toNat - 0x80, ⟨hb, by omega⟩, b'.toNat - 0x80, ⟨hb', by omega⟩, c,
        ⟨by omega, by omega⟩, cs', hcs', rfl⟩

theorem decodeUtf8_four (ha : 0xf0 ≤ a.toNat) (ha' : a.toNat < 0xf8) :
    decodeUtf8 (a :: rest) = some cs ↔ ∃ b b' b'' rest' c cs', rest = b :: b' :: b'' :: rest' ∧
      cs = c :: cs' ∧ CarriesOn b ∧ CarriesOn b' ∧ CarriesOn b'' ∧
      c.toNat + 0x3c82080 = ((a.toNat * 64 + b.toNat) * 64 + b'.toNat) * 64 + b''.toNat ∧
      0x10000 ≤ c.toNat ∧ decodeUtf8 rest' = some cs' := by
  rw [decodeUtf8.eq_def]
  simp only [UInt8.lt_iff_toNat_lt, UInt8.reduceToNat]
  rw [if_neg (by omega), if_neg (by omega), if_neg (by omega), if_neg (by omega), if_pos ha']
  match rest with
  | [] => simp
  | [b] => simp
  | [b, b'] => simp
  | b :: b' :: b'' :: rest' =>
    simp only [bind, Option.bind_eq_some_iff, continuation?_eq_some, character?_eq_some, pure,
      Option.some.injEq]
    constructor
    · rintro ⟨n, ⟨hb, hn⟩, n', ⟨hb', hn'⟩, n'', ⟨hb'', hn''⟩, c, ⟨hc, hle⟩, cs', hcs', rfl⟩
      exact ⟨b, b', b'', rest', c, cs', rfl, rfl, hb, hb', hb'', by omega, by omega, hcs'⟩
    · rintro ⟨b, b', b'', rest', c, cs', hrest, rfl, hb, hb', hb'', hc, hle, hcs'⟩
      cases hrest
      have hlow := hb.1
      have hlow' := hb'.1
      have hlow'' := hb''.1
      exact ⟨b.toNat - 0x80, ⟨hb, by omega⟩, b'.toNat - 0x80, ⟨hb', by omega⟩,
        b''.toNat - 0x80, ⟨hb'', by omega⟩, c, ⟨by omega, by omega⟩, cs', hcs', rfl⟩

theorem decodeUtf8_of_no_lead (ha : 0x80 ≤ a.toNat ∧ a.toNat < 0xc0 ∨ 0xf8 ≤ a.toNat) :
    decodeUtf8 (a :: rest) = none := by
  rw [decodeUtf8.eq_def]
  simp only [UInt8.lt_iff_toNat_lt, UInt8.reduceToNat]
  rw [if_neg (by omega)]
  split
  · rfl
  · rw [if_neg (by omega), if_neg (by omega), if_neg (by omega)]

end

/-! ## Encoding and decoding -/

/-- The octets that encode a character, in terms of the bits that they carry. -/
inductive Encodes (c : Char) : List UInt8 → Prop where
  | one {a : UInt8} : a.toNat < 0x80 → c.toNat = a.toNat → Encodes c [a]
  | two {a b : UInt8} : 0xc0 ≤ a.toNat → a.toNat < 0xe0 → CarriesOn b →
      c.toNat + 0x3080 = a.toNat * 64 + b.toNat → 0x80 ≤ c.toNat → Encodes c [a, b]
  | three {a b b' : UInt8} : 0xe0 ≤ a.toNat → a.toNat < 0xf0 → CarriesOn b → CarriesOn b' →
      c.toNat + 0xe2080 = (a.toNat * 64 + b.toNat) * 64 + b'.toNat → 0x800 ≤ c.toNat →
      Encodes c [a, b, b']
  | four {a b b' b'' : UInt8} : 0xf0 ≤ a.toNat → a.toNat < 0xf8 → CarriesOn b → CarriesOn b' →
      CarriesOn b'' →
      c.toNat + 0x3c82080 = ((a.toNat * 64 + b.toNat) * 64 + b'.toNat) * 64 + b''.toNat →
      0x10000 ≤ c.toNat → Encodes c [a, b, b', b'']

theorem toNat_lt (c : Char) : c.toNat < 0x110000 := by
  have hvalid : c.toNat < 0xd800 ∨ 0xdfff < c.toNat ∧ c.toNat < 0x110000 := c.valid
  omega

theorem encodes_encodeChar (c : Char) : Encodes c (String.utf8EncodeChar c) := by
  have hlt := toNat_lt c
  simp only [String.utf8EncodeChar, Char.toNat_val]
  split
  next h =>
    have ha := toNat_ofNat_of_lt (n := c.toNat) (by omega)
    exact .one (by omega) ha.symm
  next h80 =>
    have hlast : CarriesOn (UInt8.ofNat (c.toNat % 64 + 128)) := carriesOn_ofNat
    have hlast' := toNat_ofNat_of_lt (n := c.toNat % 64 + 128) (by omega)
    split
    next h =>
      have ha := toNat_ofNat_of_lt (n := c.toNat / 64 % 32 + 192) (by omega)
      exact .two (by omega) (by omega) hlast (by omega) (by omega)
    next h800 =>
      have hmid : CarriesOn (UInt8.ofNat (c.toNat / 64 % 64 + 128)) := carriesOn_ofNat
      have hmid' := toNat_ofNat_of_lt (n := c.toNat / 64 % 64 + 128) (by omega)
      split
      next h =>
        have ha := toNat_ofNat_of_lt (n := c.toNat / 4096 % 16 + 224) (by omega)
        exact .three (by omega) (by omega) hmid hlast (by omega) (by omega)
      next h10000 =>
        have hsecond : CarriesOn (UInt8.ofNat (c.toNat / 4096 % 64 + 128)) := carriesOn_ofNat
        have hsecond' := toNat_ofNat_of_lt (n := c.toNat / 4096 % 64 + 128) (by omega)
        have ha := toNat_ofNat_of_lt (n := c.toNat / 262144 % 8 + 240) (by omega)
        exact .four (by omega) (by omega) hsecond hmid hlast (by omega) (by omega)

theorem Encodes.unique {c : Char} {s t : List UInt8} (hs : Encodes c s) (ht : Encodes c t) :
    s = t := by
  -- the code point tells how many octets there are, and then each of them
  cases hs <;> cases ht <;>
    simp only [CarriesOn, List.cons.injEq, and_true, ← UInt8.toNat_inj] at * <;> omega

theorem encodes_iff {c : Char} {s : List UInt8} : Encodes c s ↔ s = String.utf8EncodeChar c :=
  ⟨fun h => h.unique (encodes_encodeChar c), fun h => h ▸ encodes_encodeChar c⟩

theorem exists_lead (c : Char) : ∃ lead tail, String.utf8EncodeChar c = lead :: tail ∧
    ¬CarriesOn lead ∧ ∀ octet ∈ tail, CarriesOn octet := by
  have hc := encodes_encodeChar c
  generalize String.utf8EncodeChar c = s at hc
  cases hc with
  | one ha _ => exact ⟨_, _, rfl, fun h => by have := h.1; omega, by simp⟩
  | two ha _ hb _ _ => exact ⟨_, _, rfl, fun h => by have := h.2; omega, by simpa using hb⟩
  | three ha _ hb hb' _ _ =>
    exact ⟨_, _, rfl, fun h => by have := h.2; omega, by simpa using ⟨hb, hb'⟩⟩
  | four ha _ hb hb' hb'' _ _ =>
    exact ⟨_, _, rfl, fun h => by have := h.2; omega, by simpa using ⟨hb, hb', hb''⟩⟩

/-- What is read of octets is the first character that they encode, and then the others. -/
theorem decodeUtf8_cons_iff {a : UInt8} {rest : List UInt8} {cs : List Char} :
    decodeUtf8 (a :: rest) = some cs ↔ ∃ c tail cs', cs = c :: cs' ∧
      a :: rest = String.utf8EncodeChar c ++ tail ∧ decodeUtf8 tail = some cs' := by
  constructor
  · intro h
    obtain ha | ha | ha | ha | ha | ha : a.toNat < 0x80 ∨ 0x80 ≤ a.toNat ∧ a.toNat < 0xc0 ∨
      0xc0 ≤ a.toNat ∧ a.toNat < 0xe0 ∨ 0xe0 ≤ a.toNat ∧ a.toNat < 0xf0 ∨
      0xf0 ≤ a.toNat ∧ a.toNat < 0xf8 ∨ 0xf8 ≤ a.toNat := by omega
    · rw [decodeUtf8_one ha] at h
      obtain ⟨c, cs', rfl, hc, hcs'⟩ := h
      exact ⟨c, rest, cs', rfl, by rw [← encodes_iff.1 (.one ha hc)]; rfl, hcs'⟩
    · rw [decodeUtf8_of_no_lead (.inl ha)] at h
      cases h
    · rw [decodeUtf8_two ha.1 ha.2] at h
      obtain ⟨b, tail, c, cs', rfl, rfl, hb, hc, hle, hcs'⟩ := h
      exact ⟨c, tail, cs', rfl, by rw [← encodes_iff.1 (.two ha.1 ha.2 hb hc hle)]; rfl, hcs'⟩
    · rw [decodeUtf8_three ha.1 ha.2] at h
      obtain ⟨b, b', tail, c, cs', rfl, rfl, hb, hb', hc, hle, hcs'⟩ := h
      exact ⟨c, tail, cs', rfl, by rw [← encodes_iff.1 (.three ha.1 ha.2 hb hb' hc hle)]; rfl, hcs'⟩
    · rw [decodeUtf8_four ha.1 ha.2] at h
      obtain ⟨b, b', b'', tail, c, cs', rfl, rfl, hb, hb', hb'', hc, hle, hcs'⟩ := h
      exact ⟨c, tail, cs', rfl,
        by rw [← encodes_iff.1 (.four ha.1 ha.2 hb hb' hb'' hc hle)]; rfl, hcs'⟩
    · rw [decodeUtf8_of_no_lead (.inr ha)] at h
      cases h
  · rintro ⟨c, tail, cs', rfl, htext, hcs'⟩
    have hc := encodes_encodeChar c
    rw [htext]
    generalize String.utf8EncodeChar c = s at hc
    cases hc with
    | one ha hc => exact (decodeUtf8_one ha).2 ⟨c, cs', rfl, hc, hcs'⟩
    | two ha ha' hb hc hle =>
      exact (decodeUtf8_two ha ha').2 ⟨_, tail, c, cs', rfl, rfl, hb, hc, hle, hcs'⟩
    | three ha ha' hb hb' hc hle =>
      exact (decodeUtf8_three ha ha').2 ⟨_, _, tail, c, cs', rfl, rfl, hb, hb', hc, hle, hcs'⟩
    | four ha ha' hb hb' hb'' hc hle =>
      exact (decodeUtf8_four ha ha').2
        ⟨_, _, _, tail, c, cs', rfl, rfl, hb, hb', hb'', hc, hle, hcs'⟩

theorem Encodes.append_inj {c d : Char} {s t rest rest' : List UInt8} (hs : Encodes c s)
    (ht : Encodes d t) (h : s ++ rest = t ++ rest') : c = d ∧ rest = rest' := by
  rw [← Char.toNat_inj]
  cases hs <;> cases ht <;>
    simp only [List.cons_append, List.nil_append, List.cons.injEq, ← UInt8.toNat_inj] at h <;>
    first | omega | exact ⟨by omega, by simp only [h]⟩

theorem encodeChar_append_inj {c d : Char} {rest rest' : List UInt8}
    (h : String.utf8EncodeChar c ++ rest = String.utf8EncodeChar d ++ rest') :
    c = d ∧ rest = rest' :=
  (encodes_encodeChar c).append_inj (encodes_encodeChar d) h

theorem decodeUtf8_flatMap_encode (cs : List Char) :
    decodeUtf8 (cs.flatMap String.utf8EncodeChar) = some cs := by
  induction cs with
  | nil => rfl
  | cons c cs ih =>
    obtain ⟨lead, tail, hlead, -, -⟩ := exists_lead c
    rw [List.flatMap_cons, hlead, List.cons_append, decodeUtf8_cons_iff]
    exact ⟨c, _, cs, rfl, by rw [hlead, List.cons_append], ih⟩

end PoolWatch.Text
