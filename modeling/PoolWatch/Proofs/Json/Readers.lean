import PoolWatch.Proofs.Json.Passing
/-!
# Values are read as they are spelled

A reader takes white space and a spelling of a value off the front of a text, and finds the value
wherever it is spelled.  Readers of strings, numbers and flags do so, and a list does when its items
do.
-/

namespace PoolWatch.Json

open PoolWatch.Numeric

/-- The reader reads the spellings of a value, after white space, and nothing else. -/
structure Reads {α : Type} (read : Reader α) (spells : Spelling α) : Prop where
  opens {v : α} {s : List UInt8} : spells v s → ∃ octet s', s = octet :: s' ∧ Opens octet
  sound {v : α} {text rest : List UInt8} : read text = .ok (v, rest) →
    ∃ w s, Blank w ∧ spells v s ∧ text = w ++ (s ++ rest)
  complete {v : α} {w s rest : List UInt8} : Blank w → spells v s → Ends rest →
    read (w ++ (s ++ rest)) = .ok (v, rest)

theorem ends_nil : Ends [] := ⟨nofun, nofun, nofun⟩

namespace Reads

variable {α β : Type} {read : Reader α} {spells : Spelling α}

/-- A text spells one value at most. -/
theorem unique (h : Reads read spells) {v v' : α} {s : List UInt8} (hv : spells v s)
    (hv' : spells v' s) : v = v' := by
  have hread := h.complete blank_nil hv ends_nil
  rw [h.complete blank_nil hv' ends_nil] at hread
  exact (Prod.mk.inj (Except.ok.inj hread)).1.symm

theorem map (h : Reads read spells) (f : α → β) :
    Reads (fun text => (read text).map fun (a, rest) => (f a, rest))
      fun b s => ∃ a, f a = b ∧ spells a s where
  opens := by
    rintro v s ⟨a, -, ha⟩
    exact h.opens ha
  sound hread := by
    obtain ⟨⟨a, rest'⟩, ha, hpair⟩ := map_eq_ok_iff.1 hread
    cases hpair
    obtain ⟨w, s, hw, hs, htext⟩ := h.sound ha
    exact ⟨w, s, hw, ⟨a, rfl, hs⟩, htext⟩
  complete hw hs hrest := by
    obtain ⟨a, rfl, ha⟩ := hs
    rw [h.complete hw ha hrest]
    rfl

end Reads

/-! ## Strings -/

section

variable {w s text rest : List UInt8}

theorem SpellsString.readText {value : String} (hs : SpellsString value s) (hw : Blank w) :
    readText (w ++ (s ++ rest)) = .ok (value, rest) := by
  obtain ⟨body, hbody, rfl⟩ := hs
  have htext : 0x22 :: (body ++ [0x22]) ++ rest = 0x22 :: (body ++ 0x22 :: rest) := by simp
  rw [Json.readText, skipSpace_append hw, htext, skipSpace_cons (by decide)]
  exact readString_of_spells hbody

theorem reads_text : Reads readText SpellsString where
  opens := by
    rintro value s ⟨body, -, rfl⟩
    exact ⟨0x22, _, rfl, by constructor <;> decide⟩
  sound := by
    intro value text rest h
    obtain ⟨w, hw, htext⟩ := exists_blank text
    unfold readText at h
    split at h
    next text' heq =>
      obtain ⟨body, hbody, rfl⟩ := exists_of_readString h
      refine ⟨w, 0x22 :: (body ++ [0x22]), hw, ⟨body, hbody, rfl⟩, ?_⟩
      rw [htext, heq]
      simp
    next => cases h
  complete hw hs _ := hs.readText hw

theorem octets_null : octets "null" = 0x6e :: octets "ull" := rfl

theorem reads_optionalText : Reads readOptionalText SpellsOptionalText where
  opens := by
    intro value s hs
    cases value with
    | none => exact ⟨0x6e, octets "ull", hs, by constructor <;> decide⟩
    | some value => exact reads_text.opens hs
  sound := by
    intro value text rest h
    obtain ⟨w, hw, htext⟩ := exists_blank text
    unfold readOptionalText at h
    split at h
    next text' heq =>
      obtain ⟨rest', hrest', hpair⟩ := map_eq_ok_iff.1 h
      cases hpair
      refine ⟨w, octets "null", hw, rfl, ?_⟩
      rw [htext, heq, expectOctets_eq_ok.1 hrest', octets_null, List.cons_append]
    next =>
      obtain ⟨⟨value, rest'⟩, hread, hpair⟩ := map_eq_ok_iff.1 h
      cases hpair
      obtain ⟨w', s, hw', hs, htext'⟩ := reads_text.sound hread
      exact ⟨w ++ w', s, hw.append hw', hs, by rw [htext, htext', List.append_assoc]⟩
  complete := by
    intro value w s rest hw hs _
    cases value with
    | none =>
      obtain rfl : s = octets "null" := hs
      rw [readOptionalText, skipSpace_append hw, octets_null, List.cons_append,
        skipSpace_cons (by decide)]
      change (expectOctets (octets "ull") (octets "ull" ++ rest)).map (none, ·) = _
      rw [expectOctets_eq_ok.2 rfl]
      rfl
    | some value =>
      have hread : readText ([] ++ (s ++ rest)) = .ok (value, rest) :=
        SpellsString.readText hs blank_nil
      obtain ⟨body, -, rfl⟩ := hs
      rw [readOptionalText, skipSpace_append hw, List.cons_append, skipSpace_cons (by decide)]
      exact congrArg (Except.map _) hread

end

/-! ## Numbers and flags -/

section

variable {w text rest : List UInt8}

theorem Numeral.opens (n : Numeral) : ∃ octet s, n.text = octet :: s ∧ Opens octet := by
  obtain ⟨octet, s, htext, hopens, -⟩ := isScalar_number n
  exact ⟨octet, s, htext, hopens⟩

theorem Numeral.readNumeral (n : Numeral) {x : Number} (hx : n.number = .ok x) (expected : String)
    (hw : Blank w) (hrest : Json.Ends rest) :
    readNumeral expected (w ++ (n.text ++ rest)) = .ok (x, rest) := by
  have hread := n.readNumber (hrest.numeral n)
  obtain ⟨octet, s, htext, hopens⟩ := n.opens
  obtain ⟨octet', s', htext', hstart⟩ := n.exists_cons
  rw [htext] at htext'
  obtain ⟨rfl, rfl⟩ := List.cons.inj htext'
  rw [htext, List.cons_append] at hread
  rw [Json.readNumeral, skipSpace_append hw, htext, List.cons_append,
    skipSpace_cons hopens.notSpace]
  dsimp only
  rw [if_pos hstart, hread, hx]
  rfl

theorem exists_numeral_of_readNumeral {expected : String} {x : Number}
    (h : Json.readNumeral expected text = .ok (x, rest)) :
    ∃ (w : List UInt8) (n : Numeral), Blank w ∧ text = w ++ (n.text ++ rest) ∧
      n.number = .ok x := by
  obtain ⟨w, hw, htext⟩ := exists_blank text
  unfold Json.readNumeral at h
  split at h
  next => cases h
  next octet text' heq =>
    split at h
    next =>
      obtain ⟨n, hn, -, hx⟩ := exists_numeral_of_readNumber h
      exact ⟨w, n, hw, by rw [htext, heq, hn], hx⟩
    next => cases h

theorem reads_amount : Reads readAmount SpellsAmount where
  opens := by
    rintro x s ⟨n, rfl, -⟩
    exact n.opens
  sound := by
    intro x text rest h
    unfold readAmount at h
    split at h
    next => cases h
    next k rest' hread =>
      cases h
      obtain ⟨w, n, hw, htext, hn⟩ := exists_numeral_of_readNumeral hread
      exact ⟨w, n.text, hw, ⟨n, rfl, by rw [hn]; rfl⟩, htext⟩
    next y rest' hread =>
      cases h
      obtain ⟨w, n, hw, htext, hn⟩ := exists_numeral_of_readNumeral hread
      exact ⟨w, n.text, hw, ⟨n, rfl, by rw [hn]; rfl⟩, htext⟩
  complete := by
    rintro x w s rest hw ⟨n, rfl, hx⟩ hrest
    obtain ⟨y, hy, rfl⟩ := map_eq_ok_iff.1 hx
    rw [readAmount, n.readNumeral hy "f64" hw hrest]
    cases y <;> rfl

theorem reads_count : Reads readCount SpellsCount where
  opens := by
    rintro k s ⟨run, rfl, -⟩
    obtain ⟨d, ds, hrun, hd⟩ := run.exists_cons
    exact ⟨d, ds, hrun, opens_of_isDigit hd⟩
  sound := by
    intro k text rest h
    unfold readCount at h
    split at h
    next => cases h
    next m rest' hread =>
      split at h
      next => cases h
      next hm =>
        cases h
        obtain ⟨w, n, hw, htext, hn⟩ := exists_numeral_of_readNumeral hread
        obtain ⟨hdigits, hvalue, hmax⟩ := digits_of_number (Int.not_lt.1 hm) hn
        exact ⟨w, n.text, hw, ⟨n.whole, hdigits, hvalue, hmax⟩, htext⟩
    next => cases h
  complete := by
    rintro k w s rest hw ⟨run, rfl, hvalue, hmax⟩ hrest
    have hnumber := number_of_digits run (hvalue ▸ hmax)
    have htext : (⟨false, run, none, none⟩ : Numeral).text = run.octets := by
      simp [Numeral.text, Numeral.unsignedText, fractionText, exponentText]
    have hread := Numeral.readNumeral _ hnumber "u64" hw hrest
    rw [htext, hvalue] at hread
    rw [readCount, hread]
    dsimp only
    rw [if_neg (by omega), Int.toNat_natCast]

theorem octets_flag (value : Bool) : ∃ octet s,
    octets (if value then "true" else "false") = octet :: s ∧ Opens octet := by
  cases value
  · exact ⟨0x66, octets "alse", rfl, by constructor <;> decide⟩
  · exact ⟨0x74, octets "rue", rfl, by constructor <;> decide⟩

theorem reads_flag : Reads readFlag SpellsFlag where
  opens := by
    rintro value s rfl
    exact octets_flag value
  sound := by
    intro value text rest h
    obtain ⟨w, hw, htext⟩ := exists_blank text
    unfold readFlag at h
    split at h
    next => cases h
    next octet text' heq =>
      rw [heq] at htext
      split at h
      next htrue =>
        obtain ⟨rest', hrest', hpair⟩ := map_eq_ok_iff.1 h
        cases hpair
        refine ⟨w, octets "true", hw, rfl, ?_⟩
        rw [htext, expectOctets_eq_ok.1 hrest', htrue]
        rfl
      split at h
      next hfalse =>
        obtain ⟨rest', hrest', hpair⟩ := map_eq_ok_iff.1 h
        cases hpair
        refine ⟨w, octets "false", hw, rfl, ?_⟩
        rw [htext, expectOctets_eq_ok.1 hrest', hfalse]
        rfl
      next => cases h
  complete := by
    rintro value w s rest hw rfl -
    rw [readFlag, skipSpace_append hw]
    cases value with
    | false =>
      change (expectOctets (octets "alse") (octets "alse" ++ rest)).map (false, ·) = _
      rw [expectOctets_eq_ok.2 rfl]
      rfl
    | true =>
      change (expectOctets (octets "rue") (octets "rue" ++ rest)).map (true, ·) = _
      rw [expectOctets_eq_ok.2 rfl]
      rfl

end

/-! ## Lists -/

section

variable {first : Bool} {lead w text rest : List UInt8}

theorem Lead.append (hlead : Lead first lead) (hw : Blank w) : Lead first (lead ++ w) := by
  cases first with
  | true => exact Blank.append hlead hw
  | false =>
    obtain ⟨u, u', hu, hu', rfl⟩ := hlead
    exact ⟨u, u' ++ w, hu, hu'.append hw, by simp⟩

theorem nextItem_close (hw : Blank w) : nextItem first (w ++ 0x5d :: rest) = .ok none := by
  rw [nextItem, skipSpace_append hw, skipSpace_cons (by decide)]
  rfl

theorem exists_of_nextItem_none (h : nextItem first text = .ok none) :
    ∃ w rest, Blank w ∧ text = w ++ 0x5d :: rest := by
  obtain ⟨w, hw, htext⟩ := exists_blank text
  unfold nextItem at h
  split at h
  next => cases h
  next octet rest heq =>
    split at h
    next hclosing => exact ⟨w, rest, hw, by rw [htext, heq, hclosing]⟩
    split at h
    next => cases h
    split at h
    next =>
      split at h
      next => cases h
      next =>
        split at h
        next => cases h
        next => cases h
    next => cases h

theorem nextItem_lead {octet : UInt8} (hlead : Lead first lead) (hopens : Opens octet) :
    nextItem first (lead ++ octet :: rest) = .ok (some (octet :: rest)) := by
  unfold nextItem
  cases first with
  | true =>
    rw [skipSpace_append hlead, skipSpace_cons hopens.notSpace]
    dsimp only
    rw [if_neg hopens.notSquare, if_pos rfl]
  | false =>
    obtain ⟨w, w', hw, hw', rfl⟩ := hlead
    rw [List.append_assoc, skipSpace_append hw, List.cons_append, skipSpace_cons (by decide)]
    dsimp only
    rw [if_neg (by decide), if_neg Bool.false_ne_true, if_pos rfl, skipSpace_append hw',
      skipSpace_cons hopens.notSpace]
    dsimp only
    rw [if_neg hopens.notSquare]

theorem exists_of_nextItem_some {text' : List UInt8} (h : nextItem first text = .ok (some text')) :
    ∃ lead, Lead first lead ∧ text = lead ++ text' := by
  obtain ⟨w, hw, htext⟩ := exists_blank text
  unfold nextItem at h
  split at h
  next => cases h
  next octet rest heq =>
    rw [heq] at htext
    split at h
    next => cases h
    split at h
    next hfirst =>
      cases h
      exact ⟨w, by rw [hfirst]; exact hw, htext⟩
    split at h
    next hfirst hcomma =>
      obtain ⟨w', hw', hrest⟩ := exists_blank rest
      split at h
      next => cases h
      next octet' rest' heq' =>
        split at h
        next => cases h
        next =>
          cases h
          refine ⟨w ++ 0x2c :: w', ?_, ?_⟩
          · rw [Bool.of_not_eq_true hfirst]
            exact ⟨w, w', hw, hw', rfl⟩
          · rw [htext, hrest, heq', hcomma]
            simp
    next => cases h

theorem closeList_eq_ok :
    closeList text = .ok rest ↔ ∃ w, Blank w ∧ text = w ++ 0x5d :: rest := by
  unfold closeList
  constructor
  · intro h
    obtain ⟨w, hw, htext⟩ := exists_blank text
    split at h
    next => cases h
    next octet rest' heq =>
      split at h
      next hclosing =>
        cases h
        exact ⟨w, hw, by rw [htext, heq, hclosing]⟩
      split at h
      next =>
        split at h
        next => cases h
        next => cases h
      next => cases h
  · rintro ⟨w, hw, rfl⟩
    rw [skipSpace_append hw, skipSpace_cons (by decide)]
    rfl

theorem Items.stops {α : Type} {b : Bracket} {item : Spelling α} {vs : List α} {s : List UInt8}
    (h : Items b item false vs s) : Stops s := by
  cases h with
  | close hw => exact hw.stops_append b.stops_closing
  | item hlead _ _ =>
    rw [List.append_assoc]
    exact stops_of_lead hlead _

theorem Items.length_lt {α : Type} {b : Bracket} {item : Spelling α} {vs : List α}
    {s : List UInt8} (hitem : ∀ v s, item v s → s ≠ []) (h : Items b item first vs s) :
    vs.length < s.length := by
  induction h with
  | close => simp
  | @item first lead s rest v vs hlead hs _ ih =>
    have hpos := List.length_pos_iff.2 (hitem v s hs)
    simp only [List.length_cons, List.length_append]
    omega

variable {α : Type} {read : Reader α} {spells : Spelling α}

theorem Reads.ne_nil (h : Reads read spells) (v : α) (s : List UInt8) (hs : spells v s) :
    s ≠ [] := by
  obtain ⟨octet, s', rfl, -⟩ := h.opens hs
  exact List.cons_ne_nil octet s'

theorem Items.readItems (h : Reads read spells) {vs : List α} {s : List UInt8}
    (hs : Items .square spells first vs s) {fuel : Nat} (hfuel : vs.length < fuel)
    (rest : List UInt8) : readItems read fuel first (s ++ rest) = .ok (vs, rest) := by
  induction hs generalizing fuel with
  | close hw =>
    obtain ⟨fuel, rfl⟩ := Nat.exists_eq_succ_of_ne_zero (Nat.ne_of_gt hfuel)
    rw [Json.readItems, List.append_assoc, List.singleton_append, Bracket.closing,
      nextItem_close hw]
    dsimp only
    rw [closeList_eq_ok.2 ⟨_, hw, rfl⟩]
    rfl
  | @item first lead s items v vs hlead hs hitems ih =>
    obtain ⟨fuel, rfl⟩ := Nat.exists_eq_succ_of_ne_zero (Nat.ne_of_gt (Nat.zero_lt_of_lt hfuel))
    have hread : read ([] ++ (s ++ (items ++ rest))) = .ok (v, items ++ rest) :=
      h.complete blank_nil hs (hitems.stops.append rest).ends
    obtain ⟨octet, s', rfl, hopens⟩ := h.opens hs
    rw [Json.readItems, List.append_assoc, List.append_assoc, List.cons_append,
      nextItem_lead hlead hopens]
    rw [List.nil_append, List.cons_append] at hread
    dsimp only
    rw [hread]
    dsimp only
    rw [ih (Nat.lt_of_succ_lt_succ hfuel)]

theorem exists_of_readItems (h : Reads read spells) {fuel : Nat} {vs : List α}
    (hread : Json.readItems read fuel first text = .ok (vs, rest)) :
    ∃ s, Items .square spells first vs s ∧ text = s ++ rest := by
  induction fuel generalizing first text vs with
  | zero => cases hread
  | succ fuel ih =>
    unfold Json.readItems at hread
    split at hread
    next => cases hread
    next =>
      obtain ⟨rest', hclose, hpair⟩ := map_eq_ok_iff.1 hread
      cases hpair
      obtain ⟨w, hw, rfl⟩ := closeList_eq_ok.1 hclose
      exact ⟨w ++ [0x5d], .close hw, by simp⟩
    next text' hnext =>
      obtain ⟨lead, hlead, rfl⟩ := exists_of_nextItem_some hnext
      split at hread
      next => cases hread
      next v rest₁ hitem =>
        obtain ⟨w, s, hw, hs, rfl⟩ := h.sound hitem
        split at hread
        next => cases hread
        next vs' rest₂ hmore =>
          cases hread
          obtain ⟨items, hitems, rfl⟩ := ih hmore
          exact ⟨lead ++ w ++ s ++ items, .item (hlead.append hw) hs hitems, by simp⟩

theorem SpellsList.readList (h : Reads read spells) {vs : List α} {s : List UInt8}
    (hs : SpellsList spells vs s) (hw : Blank w) (rest : List UInt8) :
    readList read (w ++ (s ++ rest)) = .ok (vs, rest) := by
  obtain ⟨items, hitems, rfl⟩ := hs
  have hlength := hitems.length_lt h.ne_nil
  rw [Json.readList, skipSpace_append hw, List.cons_append, skipSpace_cons (by decide)]
  refine hitems.readItems h ?_ rest
  rw [List.length_append]
  omega

theorem Reads.list (h : Reads read spells) : Reads (readList read) (SpellsList spells) where
  opens := by
    rintro vs s ⟨items, -, rfl⟩
    exact ⟨0x5b, items, rfl, by constructor <;> decide⟩
  sound := by
    intro vs text rest hread
    obtain ⟨w, hw, htext⟩ := exists_blank text
    unfold readList at hread
    split at hread
    next text' heq =>
      obtain ⟨items, hitems, rfl⟩ := exists_of_readItems h hread
      exact ⟨w, 0x5b :: items, hw, ⟨items, hitems, rfl⟩, by rw [htext, heq, List.cons_append]⟩
    next => cases hread
  complete hw hs _ := hs.readList h hw _

end

/-! ## Whole texts -/

section

variable {α : Type} {read : Reader α} {spells : Spelling α} {text : List UInt8}

theorem readAll_eq_ok {v : α} : readAll read text = .ok v ↔
    ∃ rest, read text = .ok (v, rest) ∧ Blank rest := by
  unfold readAll
  constructor
  · intro h
    split at h
    next => cases h
    next a rest hread =>
      split at h
      next hrest =>
        cases h
        exact ⟨rest, hread, blank_of_skipSpace hrest⟩
      next => cases h
  · rintro ⟨rest, hread, hrest⟩
    rw [hread]
    dsimp only
    rw [skipSpace_eq_nil hrest]

theorem Blank.ends {w : List UInt8} (hw : Blank w) : Ends w := by
  cases w with
  | nil => exact ends_nil
  | cons octet w => exact Stops.ends ⟨octet, w, rfl, .inl (hw octet List.mem_cons_self)⟩

theorem Reads.readAll_eq_ok (h : Reads read spells) {v : α} :
    readAll read text = .ok v ↔
      ∃ w s w', Blank w ∧ Blank w' ∧ spells v s ∧ text = w ++ (s ++ w') := by
  rw [Json.readAll_eq_ok]
  constructor
  · rintro ⟨rest, hread, hrest⟩
    obtain ⟨w, s, hw, hs, htext⟩ := h.sound hread
    exact ⟨w, s, rest, hw, hrest, hs, htext⟩
  · rintro ⟨w, s, w', hw, hw', hs, rfl⟩
    exact ⟨w', h.complete hw hs hw'.ends, hw'⟩

theorem blank_of_readAll_list (h : Reads read spells) {cut more : List UInt8} {vs vs' : List α}
    (hcut : readAll (readList read) cut = .ok vs)
    (hwhole : readAll (readList read) (cut ++ more) = .ok vs') : Blank more := by
  obtain ⟨w, s, w', hw, -, hs, rfl⟩ := h.list.readAll_eq_ok.1 hcut
  obtain ⟨rest, hread, hrest⟩ := Json.readAll_eq_ok.1 hwhole
  -- the bracket that closes the list ends it, whatever follows
  rw [List.append_assoc, List.append_assoc, hs.readList h hw] at hread
  cases hread
  exact fun octet hoctet => hrest octet (List.mem_append_right w' hoctet)

end

end PoolWatch.Json
