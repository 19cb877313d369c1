import PoolWatch.Proofs.Json.Amounts
import PoolWatch.Proofs.Json.Records
/-!
# What records hold

Whatever a record is spelled by, its counts fit 64 bits and its amounts are finite, and no field is
left out of it that is required.
-/

namespace PoolWatch.Json

open PoolWatch.Numeric

section

variable {ε : Type} (amount : Float → Prop) (element : ε → Prop)

/-- A count fits 64 bits, and an amount and the elements of a list are as they should be. -/
def Kind.Fits : (k : Kind) → k.Value ε → Prop
  | .count => fun (n : Nat) => n ≤ unsignedMax
  | .amount => fun (x : Float) => amount x
  | .list => fun (vs : List ε) => ∀ v ∈ vs, element v
  | .text | .flag | .optionalText => fun _ => True

def Row.Fits : (fields : List Field) → Row ε fields → Prop
  | [], () => True
  | f :: fields, (v, row) => f.kind.Fits amount element v ∧ Row.Fits fields row

end

section

variable {ε : Type} {spells : Spelling ε} {element : ε → Prop}

theorem Items.forall_mem {α : Type} {b : Bracket} {item : Spelling α} {P : α → Prop}
    (hitem : ∀ v s, item v s → P v) {first : Bool} {vs : List α} {s : List UInt8}
    (h : Items b item first vs s) : ∀ v ∈ vs, P v := by
  induction h with
  | close => nofun
  | item _ hs _ ih => exact List.forall_mem_cons.2 ⟨hitem _ _ hs, ih⟩

theorem Kind.fits_of_spells (helement : ∀ v s, spells v s → element v) {k : Kind} {v : k.Value ε}
    {s : List UInt8} (h : k.Spells spells v s) : k.Fits (·.isFinite = true) element v := by
  cases k with
  | text => trivial
  | flag => trivial
  | optionalText => trivial
  | count =>
    obtain ⟨run, -, -, hmax⟩ := h
    exact hmax
  | amount => exact SpellsAmount.isFinite h
  | list =>
    obtain ⟨items, hitems, -⟩ := h
    exact hitems.forall_mem helement

theorem Field.required_of_absent {f : Field} {v : f.kind.Value ε} (h : f.absent? ε = some v) :
    f.required = false := by
  unfold Field.absent? at h
  split at h
  · cases h
  next hrequired => exact Bool.of_not_eq_true hrequired

theorem Field.fits_of_absent {amount : Float → Prop} {f : Field} {v : f.kind.Value ε}
    (h : f.absent? ε = some v) : f.kind.Fits amount element v := by
  obtain ⟨name, kind, required⟩ := f
  unfold Field.absent? at h
  rw [if_neg (by rw [Field.required_of_absent h]; exact Bool.false_ne_true)] at h
  cases kind with
  | text => trivial
  | flag => trivial
  | optionalText => trivial
  | count => cases h
  | amount => cases h
  | list => cases h

theorem Carries.fits (helement : ∀ v s, spells v s → element v) {fields : List Field}
    {row : Row ε fields} {members : List Member} (h : Carries spells fields row members) :
    Row.Fits (·.isFinite = true) element fields row := by
  induction fields with
  | nil => trivial
  | cons f fields ih =>
    obtain ⟨v, row⟩ := row
    refine ⟨?_, ih h.2⟩
    obtain ⟨m, -, hv⟩ | ⟨-, habsent⟩ := h.1
    · exact Kind.fits_of_spells helement hv
    · exact Field.fits_of_absent habsent

theorem Lists.fits (helement : ∀ v s, spells v s → element v) {fields : List Field}
    {row : Row ε fields} {items : List (List UInt8)} (h : Lists spells fields row items) :
    Row.Fits (·.isFinite = true) element fields row := by
  induction fields generalizing items with
  | nil => trivial
  | cons f fields ih =>
    obtain ⟨v, row⟩ := row
    cases items with
    | nil => exact ⟨Field.fits_of_absent h.1, ih h.2⟩
    | cons item items => exact ⟨Kind.fits_of_spells helement h.1, ih h.2⟩

theorem Shape.fits_of_spells (helement : ∀ v s, spells v s → element v) {shape : Shape}
    {row : Row ε shape.fields} {s : List UInt8} (h : shape.Spells spells row s) :
    Row.Fits (·.isFinite = true) element shape.fields row := by
  cases h with
  | object _ hcarries _ => exact hcarries.fits helement
  | list _ hlists => exact hlists.fits helement

/-! ## Items -/

theorem Lists.given_or_absent {fields : List Field} {row : Row ε fields}
    {items : List (List UInt8)} (h : Lists spells fields row items) :
    items.length ≤ fields.length ∧
      (∀ p ∈ fields.zip items, ∃ v, p.1.kind.Spells spells v p.2) ∧
      ∀ f ∈ fields.drop items.length, ∃ v, f.absent? ε = some v := by
  induction fields generalizing items with
  | nil =>
    obtain rfl : items = [] := h
    exact ⟨le_rfl, nofun, nofun⟩
  | cons f fields ih =>
    obtain ⟨v, row⟩ := row
    cases items with
    | nil =>
      refine ⟨Nat.zero_le _, nofun, List.forall_mem_cons.2 ⟨⟨v, h.1⟩, ?_⟩⟩
      exact (ih h.2).2.2
    | cons item items =>
      obtain ⟨hlength, hzip, hdrop⟩ := ih h.2
      exact ⟨Nat.succ_le_succ hlength, List.forall_mem_cons.2 ⟨⟨v, h.1⟩, hzip⟩, hdrop⟩

end

/-! ## What is spelled is JSON -/

section

variable {s t : List UInt8}

theorem stringRest_append (hs : ∀ octet ∈ s, IsPlain octet) (ht : StringRest t) :
    StringRest (s ++ t) := by
  induction s with
  | nil => exact ht
  | cons octet s ih =>
    obtain ⟨⟨hquote, hbackslash, hspace⟩, hs⟩ := List.forall_mem_cons.1 hs
    exact .plain hquote hbackslash hspace (ih hs)

theorem SpellsChar.stringRest {c : Char} (h : SpellsChar c s) (ht : StringRest t) :
    StringRest (s ++ t) := by
  cases h with
  | plain hquote hbackslash hspace =>
    exact stringRest_append (isPlain_of_encodeChar hquote hbackslash hspace) ht
  | short hletter => exact .short hletter ht
  | code hhex => exact .code hhex ht
  | pair hlead htrail _ _ _ _ _ =>
    rw [List.append_assoc]
    exact .code hlead (.code htrail ht)

theorem SpellsChars.stringRest {cs : List Char} (h : SpellsChars cs s) :
    StringRest (s ++ [0x22]) := by
  induction h with
  | nil => exact .close
  | cons hc _ ih =>
    rw [List.append_assoc]
    exact hc.stringRest ih

theorem SpellsString.written {value : String} (h : SpellsString value s) : Written .value s := by
  obtain ⟨body, hbody, rfl⟩ := h
  exact .string hbody.stringRest

theorem SpellsCount.written {n : Nat} (h : SpellsCount n s) : Written .value s := by
  obtain ⟨run, rfl, -, -⟩ := h
  have hnumber := Written.number ⟨false, run, none, none⟩
  simpa [Numeral.text, Numeral.unsignedText, fractionText, exponentText] using hnumber

variable {ε : Type} {spells : Spelling ε}

theorem Items.written_of_square {α : Type} {item : Spelling α} {first : Bool} {vs : List α}
    (h : Items .square item first vs s) (hitem : ∀ v ∈ vs, ∀ s, item v s → Written .value s) :
    Written (.rest .square first) s := by
  induction h with
  | close hw => exact .close hw
  | item hlead hv _ ih =>
    obtain ⟨hfirst, hrest⟩ := List.forall_mem_cons.1 hitem
    simpa using Written.item hlead .none blank_nil (hfirst _ hv) (ih hrest)

theorem Items.written_of_curly {first : Bool} {members : List Member}
    (h : Items .curly SpellsMember first members s)
    (hvalues : ∀ m ∈ members, Written .value m.value) : Written (.rest .curly first) s := by
  induction h with
  | close hw => exact .close hw
  | item hlead hm _ ih =>
    obtain ⟨name, w, w', ⟨body, hbody, rfl⟩, hw, hw', rfl⟩ := hm
    obtain ⟨hfirst, hrest⟩ := List.forall_mem_cons.1 hvalues
    simpa using Written.item hlead (.name hbody.stringRest hw) hw' hfirst (ih hrest)

theorem Kind.written_of_spells (helement : ∀ v s, spells v s → Written .value s) {k : Kind}
    {v : k.Value ε} (h : k.Spells spells v s) : Written .value s := by
  cases k with
  | text => exact SpellsString.written h
  | count => exact SpellsCount.written h
  | amount =>
    obtain ⟨n, rfl, -⟩ := h
    exact .number n
  | flag =>
    obtain rfl := h
    cases v <;> exact .word (by simp)
  | optionalText =>
    cases v with
    | none =>
      obtain rfl := h
      exact .word (by simp)
    | some value => exact SpellsString.written h
  | list =>
    obtain ⟨items, hitems, rfl⟩ := h
    exact .brackets .square (hitems.written_of_square fun _ _ => helement _)

theorem Carries.written (helement : ∀ v s, spells v s → Written .value s) {fields : List Field}
    {row : Row ε fields} {members : List Member} (h : Carries spells fields row members)
    {m : Member} (hm : m ∈ members) (hname : m.name ∈ fields.map (·.name)) :
    Written .value m.value := by
  obtain ⟨f, hf, hname⟩ := List.mem_map.1 hname
  obtain ⟨v, m', hfilter, hv⟩ | ⟨hmissing, -⟩ := h.given_or_absent hf
  · have hmem : m ∈ members.filter (·.name = f.name) :=
      List.mem_filter.2 ⟨hm, decide_eq_true hname.symm⟩
    rw [hfilter, List.mem_singleton] at hmem
    rw [hmem]
    exact Kind.written_of_spells helement hv
  · exact absurd hname.symm (hmissing m hm)

theorem Lists.written (helement : ∀ v s, spells v s → Written .value s) {fields : List Field}
    {row : Row ε fields} {items : List (List UInt8)} (h : Lists spells fields row items) :
    ∀ item ∈ items, Written .value item := by
  induction fields generalizing items with
  | nil =>
    obtain rfl : items = [] := h
    nofun
  | cons f fields ih =>
    obtain ⟨v, row⟩ := row
    cases items with
    | nil => nofun
    | cons item items =>
      exact List.forall_mem_cons.2 ⟨Kind.written_of_spells helement h.1, ih h.2⟩

end

end PoolWatch.Json
