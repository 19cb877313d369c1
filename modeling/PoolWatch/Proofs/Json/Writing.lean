import PoolWatch.Proofs.Json.Contents
/-!
# One way to write records

Strings are written with as few escapes as can be, and a record as an object with all its fields in
order.  What is written spells the record.  How an amount is written is left to a choice of
numerals.
-/

namespace PoolWatch.Json

open PoolWatch.Numeric

/-! ## Strings -/

def hexOctet (n : Nat) : UInt8 := UInt8.ofNat (if n < 10 then 0x30 + n else 0x57 + n)

def writeChar (c : Char) : List UInt8 :=
  if c = '"' then [0x5c, 0x22]
  else if c = '\\' then [0x5c, 0x5c]
  else if c.toNat < 0x20 then
    0x5c :: 0x75 :: [0x30, 0x30, hexOctet (c.toNat / 16), hexOctet (c.toNat % 16)]
  else String.utf8EncodeChar c

def writeText (value : String) : List UInt8 :=
  0x22 :: (value.toList.flatMap writeChar ++ [0x22])

theorem hexDigit?_hexOctet {n : Nat} (h : n < 16) : hexDigit? (hexOctet n) = some n := by
  have hdigits : ∀ k < 16, hexDigit? (hexOctet k) = some k := by decide
  exact hdigits n h

theorem spells_writeChar (c : Char) : SpellsChar c (writeChar c) := by
  unfold writeChar
  split
  next hquote =>
    subst hquote
    exact .short (show shortEscape? 0x22 = some 0x22 from rfl)
  split
  next hbackslash =>
    subst hbackslash
    exact .short (show shortEscape? 0x5c = some 0x5c from rfl)
  split
  next hcontrol =>
    have hhex : SpellsHex (((0 * 16 + 0) * 16 + c.toNat / 16) * 16 + c.toNat % 16)
        [0x30, 0x30, hexOctet (c.toNat / 16), hexOctet (c.toNat % 16)] :=
      .digits rfl rfl (hexDigit?_hexOctet (by omega)) (hexDigit?_hexOctet (by omega))
    have hcode : ((0 * 16 + 0) * 16 + c.toNat / 16) * 16 + c.toNat % 16 = c.toNat := by omega
    rw [hcode] at hhex
    exact .code hhex
  next hquote hbackslash hplain => exact .plain hquote hbackslash (Nat.le_of_not_lt hplain)

theorem spells_writeText (value : String) : SpellsString value (writeText value) := by
  refine ⟨_, ?_, rfl⟩
  induction value.toList with
  | nil => exact .nil
  | cons c cs ih => exact .cons (spells_writeChar c) ih

/-! ## Counts -/

def writeCount (n : Nat) : List UInt8 := octets (toString n)

theorem writeCount_eq (n : Nat) :
    writeCount n = (Nat.toDigits 10 n).map fun c => UInt8.ofNat c.toNat :=
  congrArg (List.map _) Nat.toList_repr

theorem toNat_of_isDigit {c : Char} (h : c.isDigit = true) :
    0x30 ≤ c.toNat ∧ c.toNat ≤ 0x39 ∧ (UInt8.ofNat c.toNat).toNat = c.toNat := by
  simp only [Char.isDigit, Bool.and_eq_true, decide_eq_true_eq, UInt32.le_iff_toNat_le,
    ge_iff_le] at h
  have hlow : 0x30 ≤ c.toNat := h.1
  have hhigh : c.toNat ≤ 0x39 := h.2
  exact ⟨hlow, hhigh, UInt8.toNat_ofNat_of_lt' (Nat.lt_of_le_of_lt hhigh (by decide))⟩

theorem digitsValue_writeCount (n : Nat) : digitsValue (writeCount n) = n := by
  have hfold (cs : List Char) (hcs : ∀ c ∈ cs, c.isDigit = true) (m : Nat) :
      (cs.map fun c => UInt8.ofNat c.toNat).foldl (fun n d => n * 10 + digitValue d) m =
        Nat.ofDigitChars 10 cs m := by
    induction cs generalizing m with
    | nil => rfl
    | cons c cs ih =>
      rw [List.forall_mem_cons] at hcs
      rw [List.map_cons, List.foldl_cons, ih hcs.2, digitValue, (toNat_of_isDigit hcs.1).2.2,
        Nat.mul_comm]
      rfl
  rw [writeCount_eq, digitsValue, hfold _ fun c hc =>
    Nat.isDigit_of_mem_toDigits (by decide) (by decide) hc]
  exact Nat.ofDigitChars_ten_toDigits

theorem head_toDigits_ne_zero {n : Nat} (h : 0 < n) : (Nat.toDigits 10 n).head? ≠ some '0' := by
  induction n using Nat.strongRecOn with
  | ind n ih =>
    obtain hsmall | hlarge := Nat.lt_or_ge n 10
    · rw [Nat.toDigits_of_lt_base hsmall]
      have hdigits : ∀ k < 10, 0 < k → [k.digitChar].head? ≠ some '0' := by decide
      exact hdigits n hsmall h
    · rw [Nat.toDigits_of_base_le (by decide) hlarge,
        List.head?_append_of_ne_nil _ Nat.toDigits_ne_nil]
      exact ih (n / 10) (by omega) (by omega)

def countRun (n : Nat) : WholeRun where
  octets := writeCount n
  ne_nil := by
    rw [writeCount_eq]
    exact fun h => Nat.toDigits_ne_nil (List.map_eq_nil_iff.1 h)
  isDigit_of_mem := by
    intro octet hoctet
    rw [writeCount_eq, List.mem_map] at hoctet
    obtain ⟨c, hc, rfl⟩ := hoctet
    obtain ⟨hlow, hhigh, htoNat⟩ :=
      toNat_of_isDigit (Nat.isDigit_of_mem_toDigits (by decide) (by decide) hc)
    rw [isDigit_iff, htoNat]
    exact ⟨hlow, hhigh⟩
  no_leading_zero := by
    intro d ds h
    obtain rfl | hpos := Nat.eq_zero_or_pos n
    · cases h
    · rw [writeCount_eq, List.map_eq_cons_iff] at h
      obtain ⟨c, cs, hdigits, hc, -⟩ := h
      have hdigit : c.isDigit = true := by
        refine Nat.isDigit_of_mem_toDigits (n := n) (b := 10) (by decide) (by decide) ?_
        rw [hdigits]
        exact List.mem_cons_self
      have hzero : c = '0' := by
        apply Char.toNat_inj.1
        rw [← (toNat_of_isDigit hdigit).2.2, hc]
        rfl
      refine head_toDigits_ne_zero hpos ?_
      rw [hdigits, hzero, List.head?_cons]

theorem spells_writeCount {n : Nat} (h : n ≤ unsignedMax) : SpellsCount n (writeCount n) :=
  ⟨countRun n, rfl, digitsValue_writeCount n, h⟩

/-! ## Records -/

section

variable {ε : Type} (numeral : Float → Numeral) (writeElement : ε → List UInt8)

/-- Writes items one after the other up to the closing bracket. -/
def writeItems (b : Bracket) : (first : Bool) → List (List UInt8) → List UInt8
  | _, [] => [b.closing]
  | first, item :: items => (if first then [] else [0x2c]) ++ item ++ writeItems b false items

def Kind.write : (k : Kind) → k.Value ε → List UInt8
  | .text => writeText
  | .count => writeCount
  | .amount => fun x => (numeral x).text
  | .flag => fun (value : Bool) => octets (if value then "true" else "false")
  | .optionalText => fun (value : Option String) => value.elim (octets "null") writeText
  | .list => fun (vs : List ε) => 0x5b :: writeItems .square true (vs.map writeElement)

def writtenMembers : (fields : List Field) → Row ε fields → List Member
  | [], () => []
  | f :: fields, (v, row) =>
    ⟨f.name, f.kind.write numeral writeElement v⟩ :: writtenMembers fields row

def Member.write (m : Member) : List UInt8 := writeText m.name ++ 0x3a :: m.value

def Shape.write (shape : Shape) (row : Row ε shape.fields) : List UInt8 :=
  0x7b :: writeItems .curly true
    ((writtenMembers numeral writeElement shape.fields row).map Member.write)

end

def Numeral.StandsFor (n : Numeral) (x : Float) : Prop := n.number.map Number.toFloat = .ok x

section

variable {ε : Type} {numeral : Float → Numeral} {writeElement : ε → List UInt8}
variable {spells : Spelling ε} {element : ε → Prop}

theorem items_writeItems {α : Type} {b : Bracket} {item : Spelling α} {write : α → List UInt8}
    {vs : List α} (h : ∀ v ∈ vs, item v (write v)) (first : Bool) :
    Items b item first vs (writeItems b first (vs.map write)) := by
  induction vs generalizing first with
  | nil => exact .close blank_nil
  | cons v vs ih =>
    rw [List.forall_mem_cons] at h
    refine .item ?_ h.1 (ih h.2 false)
    cases first with
    | true => exact blank_nil
    | false => exact ⟨[], [], blank_nil, blank_nil, rfl⟩

theorem Kind.spells_write (helement : ∀ v, element v → spells v (writeElement v)) {k : Kind}
    {v : k.Value ε} (h : k.Fits (fun x => (numeral x).StandsFor x) element v) :
    k.Spells spells v (k.write numeral writeElement v) := by
  cases k with
  | text => exact spells_writeText v
  | count => exact spells_writeCount h
  | amount => exact ⟨numeral v, rfl, h⟩
  | flag => rfl
  | optionalText =>
    cases v with
    | none => rfl
    | some value => exact spells_writeText value
  | list => exact ⟨_, items_writeItems (fun v hv => helement v (h v hv)) true, rfl⟩

theorem Member.spells_write (m : Member) : SpellsMember m m.write :=
  ⟨writeText m.name, [], [], spells_writeText m.name, blank_nil, blank_nil, by
    rw [Member.write, List.append_nil, List.append_assoc]; rfl⟩

theorem mem_writtenMembers {fields : List Field} {row : Row ε fields} {m : Member}
    (h : m ∈ writtenMembers numeral writeElement fields row) : m.name ∈ fields.map (·.name) := by
  induction fields with
  | nil => cases h
  | cons f fields ih =>
    obtain ⟨v, row⟩ := row
    obtain rfl | h := List.mem_cons.1 h
    · exact List.mem_cons_self
    · exact List.mem_cons_of_mem _ (ih h)

theorem Carries.cons_of_not_mem {fields : List Field} {row : Row ε fields} {members : List Member}
    {m : Member} (h : Carries spells fields row members) (hm : m.name ∉ fields.map (·.name)) :
    Carries spells fields row (m :: members) := by
  induction fields with
  | nil => trivial
  | cons f fields ih =>
    obtain ⟨v, row⟩ := row
    rw [List.map_cons, List.mem_cons, not_or] at hm
    refine ⟨?_, ih h.2 hm.2⟩
    obtain ⟨m', hfilter, hv⟩ | ⟨hmissing, habsent⟩ := h.1
    · refine .inl ⟨m', ?_, hv⟩
      rw [List.filter_cons_of_neg (by simpa using hm.1), hfilter]
    · exact .inr ⟨List.forall_mem_cons.2 ⟨hm.1, hmissing⟩, habsent⟩

theorem carries_writtenMembers (helement : ∀ v, element v → spells v (writeElement v))
    {fields : List Field} (hfields : (fields.map (·.name)).Nodup) {row : Row ε fields}
    (h : Row.Fits (fun x => (numeral x).StandsFor x) element fields row) :
    Carries spells fields row (writtenMembers numeral writeElement fields row) := by
  induction fields with
  | nil => trivial
  | cons f fields ih =>
    obtain ⟨v, row⟩ := row
    obtain ⟨hf, hfields⟩ := List.nodup_cons.1 hfields
    refine ⟨.inl ⟨⟨f.name, f.kind.write numeral writeElement v⟩, ?_,
      Kind.spells_write helement h.1⟩, (ih hfields h.2).cons_of_not_mem hf⟩
    have hmissing : f.Missing (writtenMembers numeral writeElement fields row) := by
      intro m hm hname
      have hmem := mem_writtenMembers hm
      rw [hname] at hmem
      exact hf hmem
    rw [writtenMembers, List.filter_cons_of_pos (by simp), Field.filter_eq_nil_iff.2 hmissing]

theorem Shape.spells_write (element : ε → Prop)
    (helement : ∀ v, element v → spells v (writeElement v)) {shape : Shape}
    (hfields : (shape.fields.map (·.name)).Nodup) {row : Row ε shape.fields}
    (h : Row.Fits (fun x => (numeral x).StandsFor x) element shape.fields row) :
    shape.Spells spells row (shape.write numeral writeElement row) :=
  .object (items_writeItems (fun m _ => m.spells_write) true)
    (carries_writtenMembers helement hfields h)
    fun _ hm hother => absurd (mem_writtenMembers hm) hother

end

end PoolWatch.Json
