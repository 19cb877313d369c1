import PoolWatch.Proofs.Json.Readers
/-!
# Records are read as they are spelled

A reader of members keeps in its slots what the members so far give, so that a record is read from
an object just when the members give every field once or leave it out where they may.  From a list
it is read field by field.
-/

namespace PoolWatch.Json

open PoolWatch.Numeric

section

variable {ε : Type} {readElement : Reader ε} {element : Spelling ε}

theorem Kind.reads (h : Reads readElement element) (k : Kind) :
    Reads (k.read readElement) (k.Spells element) := by
  cases k with
  | text => exact reads_text
  | count => exact reads_count
  | amount => exact reads_amount
  | flag => exact reads_flag
  | optionalText => exact reads_optionalText
  | list => exact h.list

end

/-! ## What members give -/

section

variable {ε : Type} {element : Spelling ε}

namespace Field

variable {f : Field} {members : List Member} {m : Member}

theorem missing_append_of_ne (h : m.name ≠ f.name) :
    f.Missing members → f.Missing (members ++ [m]) := by
  intro hmissing m' hm'
  obtain hm' | hm' := List.mem_append.1 hm'
  · exact hmissing m' hm'
  · rw [List.mem_singleton.1 hm']
    exact h

theorem given_append_of_ne (h : m.name ≠ f.name) {v : f.kind.Value ε} :
    f.Given element v members → f.Given element v (members ++ [m]) := by
  rintro ⟨m', hfilter, hspells⟩
  refine ⟨m', ?_, hspells⟩
  rw [List.filter_append, hfilter, List.filter_cons_of_neg (by simpa using h), List.filter_nil,
    List.append_nil]

theorem filter_eq_nil_iff : members.filter (·.name = f.name) = [] ↔ f.Missing members := by
  simp [Missing, List.filter_eq_nil_iff]

theorem given_append (hmissing : f.Missing members) (hname : m.name = f.name)
    {v : f.kind.Value ε} (hv : f.kind.Spells element v m.value) :
    f.Given element v (members ++ [m]) := by
  refine ⟨m, ?_, hv⟩
  rw [List.filter_append, filter_eq_nil_iff.2 hmissing,
    List.filter_cons_of_pos (by simpa using hname), List.filter_nil, List.nil_append]

theorem Given.at_member {later : List Member} {v : f.kind.Value ε}
    (h : f.Given element v (members ++ m :: later)) (hname : m.name = f.name) :
    f.Missing members ∧ f.kind.Spells element v m.value := by
  obtain ⟨m', hfilter, hv⟩ := h
  rw [List.filter_append, List.filter_cons_of_pos (by simpa using hname)] at hfilter
  obtain ⟨hnil, hcons⟩ | ⟨hcons, hnil⟩ := List.append_eq_singleton_iff.1 hfilter
  · rw [← (List.cons.inj hcons).1] at hv
    exact ⟨filter_eq_nil_iff.1 hnil, hv⟩
  · exact absurd hnil (List.cons_ne_nil _ _)

theorem Given.not_missing {v : f.kind.Value ε} (h : f.Given element v members) :
    ¬f.Missing members := by
  rintro hmissing
  obtain ⟨m, hfilter, -⟩ := h
  rw [filter_eq_nil_iff.2 hmissing] at hfilter
  cases hfilter

end Field

namespace Slots

/-- The slots hold what the members give: an empty slot is that of a missing field. -/
def Hold (element : Spelling ε) : {fields : List Field} → Slots ε fields → List Member → Prop
  | [], (), _ => True
  | f :: _, (none, slots), members => f.Missing members ∧ slots.Hold element members
  | f :: _, (some v, slots), members => f.Given element v members ∧ slots.Hold element members

theorem hold_empty (fields : List Field) : (Slots.empty fields).Hold element [] := by
  induction fields with
  | nil => trivial
  | cons f fields ih => exact ⟨nofun, ih⟩

theorem Hold.tail {f : Field} {fields : List Field} {value : Option (f.kind.Value ε)}
    {slots : Slots ε fields} {members : List Member}
    (h : @Hold ε element (f :: fields) (value, slots) members) :
    slots.Hold element members := by
  cases value with
  | none => exact h.2
  | some v => exact h.2

theorem Hold.cons_append {f : Field} {fields : List Field} {value : Option (f.kind.Value ε)}
    {slots slots' : Slots ε fields} {members : List Member} {m : Member}
    (h : @Hold ε element (f :: fields) (value, slots) members) (hm : m.name ≠ f.name)
    (hslots : slots'.Hold element (members ++ [m])) :
    @Hold ε element (f :: fields) (value, slots') (members ++ [m]) := by
  cases value with
  | none => exact ⟨Field.missing_append_of_ne hm h.1, hslots⟩
  | some v => exact ⟨Field.given_append_of_ne hm h.1, hslots⟩

theorem Hold.append_of_not_mem {fields : List Field} {slots : Slots ε fields}
    {members : List Member} {m : Member} (h : slots.Hold element members)
    (hm : m.name ∉ fields.map (·.name)) : slots.Hold element (members ++ [m]) := by
  induction fields with
  | nil => trivial
  | cons f fields ih =>
    obtain ⟨value, slots⟩ := slots
    rw [List.map_cons, List.mem_cons, not_or] at hm
    exact h.cons_append hm.1 (ih h.tail hm.2)

end Slots

end

/-! ## Members of objects -/

section

variable {ε : Type} {readElement : Reader ε} {element : Spelling ε} {fields : List Field}
variable {name : String} {text rest : List UInt8}

theorem readMember_nil (slots : Slots ε []) :
    slots.readMember readElement name text =
      readColon text >>= fun text => (passValue text).map ((), ·) := by
  change @Slots.readMember ε readElement name [] () text = _
  rw [Slots.readMember]
  cases readColon text <;> rfl

theorem readMember_taken {f : Field} (hname : f.name = name) (v : f.kind.Value ε)
    (slots : Slots ε fields) :
    @Slots.readMember ε readElement name (f :: fields) (some v, slots) text =
      .error (.duplicateField name) :=
  if_pos hname

theorem readMember_free {f : Field} (hname : f.name = name) (slots : Slots ε fields) :
    @Slots.readMember ε readElement name (f :: fields) (none, slots) text =
      readColon text >>= fun text =>
        (f.kind.read readElement text).map fun (v, rest) => ((some v, slots), rest) := by
  refine (if_pos hname).trans ?_
  dsimp only
  cases readColon text <;> rfl

theorem readMember_other {f : Field} (hname : ¬f.name = name) (value : Option (f.kind.Value ε))
    (slots : Slots ε fields) :
    @Slots.readMember ε readElement name (f :: fields) (value, slots) text =
      (slots.readMember readElement name text).map fun (slots, rest) => ((value, slots), rest) :=
  if_neg hname

theorem exists_of_readMember (he : Reads readElement element)
    (hfields : (fields.map (·.name)).Nodup) {slots slots' : Slots ε fields}
    (h : slots.readMember readElement name text = .ok (slots', rest)) :
    ∃ w w' value, Blank w ∧ Blank w' ∧ text = w ++ 0x3a :: (w' ++ (value ++ rest)) ∧
      (∀ members, slots.Hold element members →
        slots'.Hold element (members ++ [⟨name, value⟩])) ∧
      (name ∉ fields.map (·.name) → Written .value value) := by
  induction fields with
  | nil =>
    rw [readMember_nil] at h
    obtain ⟨text', hcolon, h⟩ := bind_eq_ok_iff.1 h
    obtain ⟨rest', hpass, hpair⟩ := map_eq_ok_iff.1 h
    cases hpair
    obtain ⟨w, hw, rfl⟩ := readColon_eq_ok.1 hcolon
    obtain ⟨w', s, hw', hs, rfl⟩ := exists_of_passValue hpass
    exact ⟨w, w', s, hw, hw', rfl, fun _ _ => trivial, fun _ => hs⟩
  | cons f fields ih =>
    obtain ⟨value, slots⟩ := slots
    obtain ⟨hf, hfields⟩ := List.nodup_cons.1 hfields
    by_cases hname : f.name = name
    · cases value with
      | some v =>
        rw [readMember_taken hname] at h
        cases h
      | none =>
        rw [readMember_free hname] at h
        obtain ⟨text', hcolon, h⟩ := bind_eq_ok_iff.1 h
        obtain ⟨⟨v, rest'⟩, hread, hpair⟩ := map_eq_ok_iff.1 h
        cases hpair
        obtain ⟨w, hw, rfl⟩ := readColon_eq_ok.1 hcolon
        obtain ⟨w', s, hw', hs, rfl⟩ := (f.kind.reads he).sound hread
        refine ⟨w, w', s, hw, hw', rfl, fun members hmembers => ?_, fun hnot => ?_⟩
        · exact ⟨Field.given_append hmembers.1 hname.symm hs,
            hmembers.2.append_of_not_mem (hname ▸ hf)⟩
        · exact absurd (hname ▸ List.mem_cons_self) hnot
    · rw [readMember_other hname] at h
      obtain ⟨⟨slots₁, rest'⟩, hread, hpair⟩ := map_eq_ok_iff.1 h
      cases hpair
      obtain ⟨w, w', s, hw, hw', htext, hhold, hother⟩ := ih hfields hread
      refine ⟨w, w', s, hw, hw', htext, fun members hmembers => ?_, fun hnot => ?_⟩
      · exact hmembers.cons_append (Ne.symm hname) (hhold _ hmembers.tail)
      · exact hother fun hmem => hnot (List.mem_cons_of_mem _ hmem)

theorem exists_readMember (he : Reads readElement element)
    (hfields : (fields.map (·.name)).Nodup) {slots : Slots ε fields} {members : List Member}
    (hslots : slots.Hold element members) {m : Member} {w w' : List UInt8}
    (hfield : ∀ f ∈ fields, m.name = f.name →
      f.Missing members ∧ ∃ v, f.kind.Spells element v m.value)
    (hother : m.name ∉ fields.map (·.name) → Written .value m.value)
    (hw : Blank w) (hw' : Blank w') (hrest : Ends rest) :
    ∃ slots', slots.readMember readElement m.name (w ++ 0x3a :: (w' ++ (m.value ++ rest))) =
      .ok (slots', rest) ∧ slots'.Hold element (members ++ [m]) := by
  have hcolon : readColon (w ++ 0x3a :: (w' ++ (m.value ++ rest))) =
      .ok (w' ++ (m.value ++ rest)) := readColon_eq_ok.2 ⟨w, hw, rfl⟩
  induction fields with
  | nil =>
    have hpass := (hother List.not_mem_nil).passValue hw' hrest
    refine ⟨(), ?_, trivial⟩
    rw [readMember_nil]
    exact bind_eq_ok_iff.2 ⟨_, hcolon, map_eq_ok_iff.2 ⟨rest, hpass, rfl⟩⟩
  | cons f fields ih =>
    obtain ⟨value, slots⟩ := slots
    obtain ⟨hf, hfields⟩ := List.nodup_cons.1 hfields
    by_cases hname : f.name = m.name
    · obtain ⟨hmissing, v, hv⟩ := hfield f List.mem_cons_self hname.symm
      have hread := (f.kind.reads he).complete hw' hv hrest
      cases value with
      | some v' => exact absurd hmissing hslots.1.not_missing
      | none =>
        refine ⟨(some v, slots), ?_, Field.given_append hmissing hname.symm hv,
          hslots.2.append_of_not_mem (hname ▸ hf)⟩
        rw [readMember_free hname]
        exact bind_eq_ok_iff.2 ⟨_, hcolon, map_eq_ok_iff.2 ⟨_, hread, rfl⟩⟩
    · obtain ⟨slots', hread, hhold⟩ := ih hfields hslots.tail
        (fun g hg => hfield g (List.mem_cons_of_mem _ hg))
        (fun hnot => hother fun hmem =>
          hnot ((List.mem_cons.1 hmem).resolve_left (Ne.symm hname)))
      refine ⟨(value, slots'), ?_, hslots.cons_append (Ne.symm hname) hhold⟩
      rw [readMember_other hname]
      exact map_eq_ok_iff.2 ⟨_, hread, rfl⟩

end

/-! ## Objects -/

section

variable {first : Bool} {lead w text rest : List UInt8}

theorem nextMember_close (hw : Blank w) : nextMember first (w ++ 0x7d :: rest) = .ok none := by
  rw [nextMember, skipSpace_append hw, skipSpace_cons (by decide)]
  rfl

theorem exists_of_nextMember_none (h : nextMember first text = .ok none) :
    ∃ w rest, Blank w ∧ text = w ++ 0x7d :: rest := by
  obtain ⟨w, hw, htext⟩ := exists_blank text
  unfold nextMember at h
  split at h
  next => cases h
  next octet rest heq =>
    split at h
    next hclosing => exact ⟨w, rest, hw, by rw [htext, heq, hclosing]⟩
    split at h
    next =>
      split at h
      next => cases h
      next => cases h
    split at h
    next =>
      split at h
      next => cases h
      next =>
        split at h
        next => cases h
        split at h
        next => cases h
        next => cases h
    next => cases h

theorem nextMember_lead (hlead : Lead first lead) :
    nextMember first (lead ++ 0x22 :: rest) = .ok (some rest) := by
  unfold nextMember
  cases first with
  | true =>
    rw [skipSpace_append hlead, skipSpace_cons (by decide)]
    rfl
  | false =>
    obtain ⟨w, w', hw, hw', rfl⟩ := hlead
    rw [List.append_assoc, skipSpace_append hw, List.cons_append, skipSpace_cons (by decide)]
    dsimp only
    rw [if_neg (by decide), if_neg Bool.false_ne_true, if_pos rfl, skipSpace_append hw',
      skipSpace_cons (by decide)]
    rfl

theorem exists_of_nextMember_some {text' : List UInt8}
    (h : nextMember first text = .ok (some text')) :
    ∃ lead, Lead first lead ∧ text = lead ++ 0x22 :: text' := by
  obtain ⟨w, hw, htext⟩ := exists_blank text
  unfold nextMember at h
  split at h
  next => cases h
  next octet rest heq =>
    rw [heq] at htext
    split at h
    next => cases h
    split at h
    next hfirst =>
      split at h
      next hquote =>
        cases h
        exact ⟨w, by rw [hfirst]; exact hw, by rw [htext, hquote]⟩
      next => cases h
    split at h
    next hfirst hcomma =>
      obtain ⟨w', hw', hrest⟩ := exists_blank rest
      split at h
      next => cases h
      next octet' rest' heq' =>
        split at h
        next hquote =>
          cases h
          refine ⟨w ++ 0x2c :: w', ?_, ?_⟩
          · rw [Bool.of_not_eq_true hfirst]
            exact ⟨w, w', hw, hw', rfl⟩
          · rw [htext, hrest, heq', hcomma, hquote]
            simp
        split at h
        next => cases h
        next => cases h
    next => cases h

end

section

variable {ε : Type} {readElement : Reader ε} {element : Spelling ε} {fields : List Field}
variable {first : Bool} {text rest : List UInt8}

theorem SpellsMember.ne_nil (m : Member) (s : List UInt8) (h : SpellsMember m s) : s ≠ [] := by
  obtain ⟨name, w, w', ⟨body, -, rfl⟩, -, -, rfl⟩ := h
  exact List.cons_ne_nil _ _

/-- Every field is given once or missing. -/
def Settled (element : Spelling ε) (fields : List Field) (members : List Member) : Prop :=
  ∀ f ∈ fields, (∃ v, f.Given element v members) ∨ f.Missing members

theorem Items.readMembers (he : Reads readElement element)
    (hfields : (fields.map (·.name)).Nodup) {members : List Member} {s : List UInt8}
    (hs : Items .curly SpellsMember first members s) {fuel : Nat} (hfuel : members.length < fuel)
    {before : List Member} {slots : Slots ε fields} (hslots : slots.Hold element before)
    (hsettled : Settled element fields (before ++ members))
    (hother : ∀ m ∈ members, m.name ∉ fields.map (·.name) → Written .value m.value)
    (rest : List UInt8) :
    ∃ slots', readMembers readElement fuel first slots (s ++ rest) = .ok (slots', rest) ∧
      slots'.Hold element (before ++ members) := by
  induction hs generalizing fuel before slots with
  | close hw =>
    obtain ⟨fuel, rfl⟩ := Nat.exists_eq_succ_of_ne_zero (Nat.ne_of_gt hfuel)
    refine ⟨slots, ?_, by rw [List.append_nil]; exact hslots⟩
    rw [Json.readMembers, List.append_assoc, List.singleton_append, Bracket.closing,
      nextMember_close hw]
    dsimp only
    rw [skipSpace_append hw, skipSpace_cons (by decide)]
    rfl
  | @item first lead s items m members hlead hs hitems ih =>
    obtain ⟨fuel, rfl⟩ := Nat.exists_eq_succ_of_ne_zero (Nat.ne_of_gt (Nat.zero_lt_of_lt hfuel))
    obtain ⟨_, w, w', ⟨body, hbody, rfl⟩, hw, hw', rfl⟩ := hs
    rw [List.forall_mem_cons] at hother
    have hfield : ∀ f ∈ fields, m.name = f.name →
        f.Missing before ∧ ∃ v, f.kind.Spells element v m.value := by
      intro f hf hname
      obtain ⟨v, hv⟩ | hmissing := hsettled f hf
      · obtain ⟨hmissing, hspells⟩ := hv.at_member hname
        exact ⟨hmissing, v, hspells⟩
      · exact absurd hname (hmissing m (List.mem_append_right _ List.mem_cons_self))
    rw [List.append_cons before m members] at hsettled ⊢
    obtain ⟨slots', hread, hhold⟩ := exists_readMember he hfields hslots hfield hother.1 hw hw'
      (hitems.stops.append rest).ends
    obtain ⟨slots'', hmore, hhold'⟩ :=
      ih (Nat.lt_of_succ_lt_succ hfuel) hhold hsettled hother.2
    refine ⟨slots'', ?_, hhold'⟩
    have htext : lead ++ (0x22 :: (body ++ [0x22]) ++ w ++ 0x3a :: w' ++ m.value) ++ items ++ rest =
        lead ++ 0x22 :: (body ++ 0x22 :: (w ++ 0x3a :: (w' ++ (m.value ++ (items ++ rest))))) := by
      simp
    rw [htext, Json.readMembers, nextMember_lead hlead]
    dsimp only
    rw [readString_of_spells hbody]
    dsimp only
    rw [hread]
    exact hmore

theorem exists_of_readMembers (he : Reads readElement element)
    (hfields : (fields.map (·.name)).Nodup) {fuel : Nat} {slots slots' : Slots ε fields}
    (h : Json.readMembers readElement fuel first slots text = .ok (slots', rest)) :
    ∃ members s, Items .curly SpellsMember first members s ∧ text = s ++ rest ∧
      (∀ before, slots.Hold element before → slots'.Hold element (before ++ members)) ∧
      ∀ m ∈ members, m.name ∉ fields.map (·.name) → Written .value m.value := by
  induction fuel generalizing first slots text with
  | zero => cases h
  | succ fuel ih =>
    unfold Json.readMembers at h
    split at h
    next => cases h
    next hnext =>
      cases h
      obtain ⟨w, rest, hw, rfl⟩ := exists_of_nextMember_none hnext
      refine ⟨[], w ++ [0x7d], .close hw, ?_, fun before hbefore => ?_, nofun⟩
      · rw [skipSpace_append hw, skipSpace_cons (by decide), List.drop_one, List.tail_cons,
          List.append_assoc]
        rfl
      · rw [List.append_nil]
        exact hbefore
    next text₁ hnext =>
      obtain ⟨lead, hlead, rfl⟩ := exists_of_nextMember_some hnext
      split at h
      next => cases h
      next name text₂ hstring =>
        obtain ⟨body, hbody, rfl⟩ := exists_of_readString hstring
        split at h
        next => cases h
        next slots₁ text₃ hmember =>
          obtain ⟨w, w', value, hw, hw', rfl, hhold, hother⟩ :=
            exists_of_readMember he hfields hmember
          obtain ⟨members, items, hitems, rfl, hhold', hother'⟩ := ih h
          refine ⟨⟨name, value⟩ :: members, lead ++ (0x22 :: (body ++ [0x22]) ++ w ++ 0x3a :: w' ++
            value) ++ items, .item hlead ⟨_, w, w', ⟨body, hbody, rfl⟩, hw, hw', rfl⟩ hitems,
            by simp, fun before hbefore => ?_, List.forall_mem_cons.2 ⟨hother, hother'⟩⟩
          rw [List.append_cons]
          exact hhold' _ (hhold before hbefore)

theorem Field.Given.unique (he : Reads readElement element) {f : Field} {members : List Member}
    {v v' : f.kind.Value ε} (h : f.Given element v members) (h' : f.Given element v' members) :
    v = v' := by
  obtain ⟨m, hfilter, hv⟩ := h
  obtain ⟨m', hfilter', hv'⟩ := h'
  rw [hfilter] at hfilter'
  obtain rfl : m = m' := (List.cons.inj hfilter').1
  exact (f.kind.reads he).unique hv hv'

theorem toRow_cons_eq_ok {f : Field} {value : Option (f.kind.Value ε)} {slots : Slots ε fields}
    {v : f.kind.Value ε} {row : Row ε fields} :
    @Slots.toRow ε (f :: fields) (value, slots) = .ok (v, row) ↔
      value.or (f.absent? ε) = some v ∧ slots.toRow = .ok row := by
  rw [Slots.toRow]
  cases value.or (f.absent? ε) with
  | none => simp
  | some v' =>
    cases slots.toRow with
    | error problem => simp
    | ok row' =>
      simp only [Option.some_inj, Except.ok.injEq]
      exact (Except.ok.injEq (v', row') (v, row)).to_iff.trans (Prod.mk.injEq ..).to_iff

theorem Slots.Hold.toRow_eq_ok (he : Reads readElement element) {slots : Slots ε fields}
    {members : List Member} (h : slots.Hold element members) {row : Row ε fields} :
    slots.toRow = .ok row ↔ Carries element fields row members := by
  induction fields with
  | nil => exact iff_of_true rfl trivial
  | cons f fields ih =>
    obtain ⟨value, slots⟩ := slots
    obtain ⟨v, row⟩ := row
    rw [toRow_cons_eq_ok, ih h.tail, Carries]
    refine and_congr_left fun _ => ?_
    cases value with
    | none =>
      have hmissing : f.Missing members := h.1
      rw [Option.none_or]
      exact ⟨fun habsent => .inr ⟨hmissing, habsent⟩,
        fun hv => hv.elim (fun hgiven => absurd hmissing hgiven.not_missing) And.right⟩
    | some v' =>
      have hgiven : f.Given element v' members := h.1
      rw [Option.some_or, Option.some_inj]
      constructor
      · rintro rfl
        exact .inl hgiven
      · rintro (hv | ⟨hmissing, -⟩)
        · exact hgiven.unique he hv
        · exact absurd hmissing hgiven.not_missing

theorem Carries.given_or_absent {row : Row ε fields} {members : List Member}
    (h : Carries element fields row members) {f : Field} (hf : f ∈ fields) :
    (∃ v, f.Given element v members) ∨ f.Missing members ∧ ∃ v, f.absent? ε = some v := by
  induction fields with
  | nil => cases hf
  | cons g fields ih =>
    obtain ⟨v, row⟩ := row
    obtain rfl | hf := List.mem_cons.1 hf
    · obtain hgiven | ⟨hmissing, habsent⟩ := h.1
      · exact .inl ⟨v, hgiven⟩
      · exact .inr ⟨hmissing, v, habsent⟩
    · exact ih h.2 hf

theorem Carries.settled {row : Row ε fields} {members : List Member}
    (h : Carries element fields row members) : Settled element fields members :=
  fun _ hf => (h.given_or_absent hf).imp_right And.left

end

/-! ## Records in lists -/

section

variable {ε : Type} {readElement : Reader ε} {element : Spelling ε} {fields : List Field}
variable {first : Bool} {text rest : List UInt8} {title : String}

theorem Items.eq_nil {α : Type} {item : Spelling α} {vs : List α} {s w : List UInt8}
    (h : Items .square item false vs s) (hw : Blank w) (heq : s ++ text = w ++ 0x5d :: rest) :
    vs = [] ∧ Items .square item first [] s := by
  cases h with
  | close hw' => exact ⟨rfl, .close hw'⟩
  | item hlead _ _ =>
    obtain ⟨u, u', hu, hu', rfl⟩ := hlead
    have hskip := congrArg skipSpace heq
    simp only [List.append_assoc, List.cons_append, skipSpace_append hu, skipSpace_append hw,
      skipSpace_cons (show isSpace 0x2c = false by decide),
      skipSpace_cons (show isSpace 0x5d = false by decide)] at hskip
    exact absurd (List.cons.inj hskip).1 (by decide)

theorem exists_of_readRow (he : Reads readElement element) {index : Nat} {row : Row ε fields}
    {rest' : List UInt8}
    (h : readRow readElement title fields index text = .ok (row, rest'))
    (hclose : closeList rest' = .ok rest) :
    ∃ items s, Items .square Eq (index == 0) items s ∧ Lists element fields row items ∧
      text = s ++ rest := by
  induction fields generalizing index text with
  | nil =>
    cases h
    obtain ⟨w, hw, rfl⟩ := closeList_eq_ok.1 hclose
    exact ⟨[], w ++ [0x5d], .close hw, rfl, by simp⟩
  | cons f fields ih =>
    unfold readRow at h
    split at h
    next => cases h
    next hnext =>
      split at h
      next => cases h
      next v habsent =>
        obtain ⟨⟨row', rest''⟩, hread, hpair⟩ := map_eq_ok_iff.1 h
        cases hpair
        obtain ⟨items, s, hitems, hlists, rfl⟩ := ih hread
        obtain ⟨w, rest₁, hw, heq⟩ := exists_of_nextItem_none hnext
        obtain ⟨rfl, hclosed⟩ := Items.eq_nil hitems hw heq
        exact ⟨[], s, hclosed, ⟨habsent, hlists⟩, rfl⟩
    next text' hnext =>
      obtain ⟨lead, hlead, rfl⟩ := exists_of_nextItem_some hnext
      split at h
      next => cases h
      next v text₁ hkind =>
        obtain ⟨w, item, hw, hitem, rfl⟩ := (f.kind.reads he).sound hkind
        obtain ⟨⟨row', rest''⟩, hread, hpair⟩ := map_eq_ok_iff.1 h
        cases hpair
        obtain ⟨items, s, hitems, hlists, rfl⟩ := ih hread
        exact ⟨item :: items, lead ++ w ++ item ++ s, .item (hlead.append hw) rfl hitems,
          ⟨hitem, hlists⟩, by simp⟩

theorem Items.readRow (he : Reads readElement element) (index : Nat) {row : Row ε fields}
    {items : List (List UInt8)} {s : List UInt8} (hs : Items .square Eq (index == 0) items s)
    (hlists : Lists element fields row items) (title : String) (rest : List UInt8) :
    ∃ rest', Json.readRow readElement title fields index (s ++ rest) = .ok (row, rest') ∧
      closeList rest' = .ok rest := by
  induction fields generalizing index items s with
  | nil =>
    obtain rfl : items = [] := hlists
    cases hs with
    | close hw => exact ⟨_, rfl, closeList_eq_ok.2 ⟨_, hw, by rw [List.append_assoc]; rfl⟩⟩
  | cons f fields ih =>
    obtain ⟨v, row⟩ := row
    cases hs with
    | @close _ w hw =>
      obtain ⟨habsent, hlists⟩ := hlists
      obtain ⟨rest', hread, hclose⟩ := ih (index + 1) (.close hw) hlists
      refine ⟨rest', ?_, hclose⟩
      have hnext : nextItem (index == 0) (w ++ [Bracket.square.closing] ++ rest) = .ok none := by
        rw [List.append_assoc]
        exact nextItem_close hw
      rw [Json.readRow, hnext]
      dsimp only
      rw [habsent]
      dsimp only
      rw [hread]
      rfl
    | @item _ lead item s' item' items hlead hitem hitems =>
      obtain rfl : item' = item := hitem
      obtain ⟨hkind, hlists⟩ := hlists
      obtain ⟨rest', hread, hclose⟩ := ih (index + 1) hitems hlists
      refine ⟨rest', ?_, hclose⟩
      have hv : f.kind.read readElement ([] ++ (item' ++ (s' ++ rest))) = .ok (v, s' ++ rest) :=
        (f.kind.reads he).complete blank_nil hkind (hitems.stops.append rest).ends
      obtain ⟨octet, tail, rfl, hopens⟩ := (f.kind.reads he).opens hkind
      rw [List.nil_append, List.cons_append] at hv
      rw [Json.readRow, List.append_assoc, List.append_assoc, List.cons_append,
        nextItem_lead hlead hopens]
      dsimp only
      rw [hv]
      dsimp only
      rw [hread]
      rfl

/-! ## Records -/

/-- A record is read just as it is spelled. -/
theorem Shape.reads (he : Reads readElement element) (shape : Shape)
    (hfields : (shape.fields.map (·.name)).Nodup) :
    Reads (shape.read readElement) (shape.Spells element) where
  opens hs := by
    cases hs with
    | object _ _ _ => exact ⟨0x7b, _, rfl, by constructor <;> decide⟩
    | list _ _ => exact ⟨0x5b, _, rfl, by constructor <;> decide⟩
  sound := by
    intro row text rest h
    obtain ⟨w, hw, htext⟩ := exists_blank text
    unfold Shape.read at h
    split at h
    next text' heq =>
      split at h
      next => cases h
      next slots rest' hmembers =>
        obtain ⟨row', hrow, hpair⟩ := map_eq_ok_iff.1 h
        cases hpair
        obtain ⟨members, s, hitems, rfl, hhold, hother⟩ :=
          exists_of_readMembers he hfields hmembers
        have hheld := hhold [] (Slots.hold_empty shape.fields)
        exact ⟨w, 0x7b :: s, hw, .object hitems ((hheld.toRow_eq_ok he).1 hrow) hother,
          by rw [htext, heq, List.cons_append]⟩
    next text' heq =>
      split at h
      next => cases h
      next row' rest' hrow =>
        obtain ⟨rest'', hclose, hpair⟩ := map_eq_ok_iff.1 h
        cases hpair
        obtain ⟨items, s, hitems, hlists, rfl⟩ := exists_of_readRow he hrow hclose
        exact ⟨w, 0x5b :: s, hw, .list hitems hlists, by rw [htext, heq, List.cons_append]⟩
    next => cases h
  complete := by
    intro row w s rest hw hs hrest
    unfold Shape.read
    rw [skipSpace_append hw]
    cases hs with
    | @object _ members s hitems hcarries hother =>
      have hlength := hitems.length_lt SpellsMember.ne_nil
      have hfuel : members.length < (s ++ rest).length + 1 := by
        rw [List.length_append]
        omega
      obtain ⟨slots, hread, hhold⟩ := hitems.readMembers he hfields hfuel
        (Slots.hold_empty shape.fields) hcarries.settled hother rest
      have hrow := (hhold.toRow_eq_ok he).2 hcarries
      rw [List.cons_append, skipSpace_cons (by decide)]
      simp only [hread, hrow]
      rfl
    | @list _ items s hitems hlists =>
      obtain ⟨rest', hread, hclose⟩ := Items.readRow he 0 hitems hlists
        s!"{shape.title} with {shape.fields.length} elements" rest
      rw [List.cons_append, skipSpace_cons (by decide)]
      simp only [hread, hclose]
      rfl

end

end PoolWatch.Json
