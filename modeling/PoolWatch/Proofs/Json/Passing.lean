import PoolWatch.Proofs.Json.Numerals
import PoolWatch.Proofs.Json.Strings
/-!
# Any JSON is passed over

What is passed over as a value is white space and a JSON text, nested to any depth, and every such
text is passed over.
-/

namespace PoolWatch.Json

/-! ## White space -/

section

variable {w text rest : List UInt8} {octet : UInt8}

theorem Blank.append {w' : List UInt8} (hw : Blank w) (hw' : Blank w') : Blank (w ++ w') := by
  intro octet hoctet
  obtain h | h := List.mem_append.1 hoctet
  · exact hw octet h
  · exact hw' octet h

theorem blank_nil : Blank [] := nofun

theorem skipSpace_append (hw : Blank w) (text : List UInt8) :
    skipSpace (w ++ text) = skipSpace text :=
  List.dropWhile_append_of_pos hw

theorem skipSpace_cons (h : isSpace octet = false) (rest : List UInt8) :
    skipSpace (octet :: rest) = octet :: rest := by
  rw [skipSpace, List.dropWhile_cons_of_neg (by simp [h])]

theorem exists_blank (text : List UInt8) : ∃ w, Blank w ∧ text = w ++ skipSpace text :=
  ⟨text.takeWhile isSpace, fun _ => List.mem_takeWhile_imp,
    List.takeWhile_append_dropWhile.symm⟩

theorem skipSpace_eq_nil (hw : Blank w) : skipSpace w = [] := by
  rw [← List.append_nil w, skipSpace_append hw]
  rfl

theorem blank_of_skipSpace (h : skipSpace text = []) : Blank text := by
  obtain ⟨w, hw, htext⟩ := exists_blank text
  rw [h, List.append_nil] at htext
  exact htext ▸ hw

end

/-! ## What follows a value -/

/-- The text goes on with white space, a comma or a closing bracket. -/
def Stops (text : List UInt8) : Prop :=
  ∃ octet rest, text = octet :: rest ∧
    (isSpace octet = true ∨ octet = 0x2c ∨ octet = 0x5d ∨ octet = 0x7d)

theorem isSpace_iff {octet : UInt8} : isSpace octet = true ↔
    octet = 0x20 ∨ octet = 0x0a ∨ octet = 0x0d ∨ octet = 0x09 := by
  simp [isSpace, or_assoc]

theorem Stops.ends {text : List UInt8} (h : Stops text) : Ends text := by
  obtain ⟨octet, rest, rfl, h⟩ := h
  rw [isSpace_iff] at h
  constructor <;> rintro o ⟨rfl⟩
  · obtain (rfl | rfl | rfl | rfl) | rfl | rfl | rfl := h <;> rfl
  · obtain (rfl | rfl | rfl | rfl) | rfl | rfl | rfl := h <;> decide
  · obtain (rfl | rfl | rfl | rfl) | rfl | rfl | rfl := h <;> decide

theorem Stops.append {s : List UInt8} (h : Stops s) (text : List UInt8) : Stops (s ++ text) := by
  obtain ⟨octet, rest, rfl, h⟩ := h
  exact ⟨octet, rest ++ text, rfl, h⟩

theorem Blank.stops_append {w s : List UInt8} (hw : Blank w) (hs : Stops s) : Stops (w ++ s) := by
  cases w with
  | nil => exact hs
  | cons octet w => exact ⟨octet, w ++ s, rfl, .inl (hw octet List.mem_cons_self)⟩

theorem Bracket.stops_closing (b : Bracket) : Stops [b.closing] := by
  cases b
  · exact ⟨_, [], rfl, .inr (.inr (.inl rfl))⟩
  · exact ⟨_, [], rfl, .inr (.inr (.inr rfl))⟩

theorem stops_of_lead {lead : List UInt8} (h : Lead false lead) (text : List UInt8) :
    Stops (lead ++ text) := by
  obtain ⟨w, w', hw, -, rfl⟩ := h
  rw [List.append_assoc]
  exact hw.stops_append ⟨0x2c, _, rfl, .inr (.inl rfl)⟩

theorem Written.stops {b : Bracket} {s : List UInt8} (h : Written (.rest b false) s) :
    Stops s := by
  cases h with
  | close hw => exact hw.stops_append b.stops_closing
  | item hlead _ _ _ _ =>
    simp only [List.append_assoc]
    exact stops_of_lead hlead _

/-! ## Words, numbers and strings -/

theorem expectOctets_eq_ok {awaited text rest : List UInt8} :
    expectOctets awaited text = .ok rest ↔ text = awaited ++ rest := by
  induction awaited generalizing text with
  | nil => simp [expectOctets]
  | cons a awaited ih =>
    cases text with
    | nil => simp [expectOctets]
    | cons b text =>
      rw [expectOctets]
      split
      next hab => simp [ih, hab]
      next hab => simp [Ne.symm hab]

/-- A value begins with an octet that is neither white space nor closes a bracket. -/
structure Opens (octet : UInt8) : Prop where
  notSpace : isSpace octet = false
  notSquare : octet ≠ 0x5d
  notCurly : octet ≠ 0x7d

theorem isDigit_iff {octet : UInt8} :
    isDigit octet = true ↔ 0x30 ≤ octet.toNat ∧ octet.toNat ≤ 0x39 := by
  simp [isDigit, UInt8.le_iff_toNat_le]

theorem ne_of_isDigit {octet other : UInt8} (h : isDigit octet = true)
    (hother : isDigit other = false) : octet ≠ other := by
  rintro rfl
  rw [h] at hother
  cases hother

theorem opens_of_isDigit {octet : UInt8} (h : isDigit octet = true) : Opens octet where
  notSpace := by
    have hne (other : UInt8) (hother : isDigit other = false) := ne_of_isDigit h hother
    simp [isSpace, hne 0x20 rfl, hne 0x0a rfl, hne 0x0d rfl, hne 0x09 rfl]
  notSquare := ne_of_isDigit h rfl
  notCurly := ne_of_isDigit h rfl

theorem passScalar_digit {octet : UInt8} (h : isDigit octet = true) (rest : List UInt8) :
    passScalar octet rest = passUnsigned (octet :: rest) := by
  have hne (other : UInt8) (hother : isDigit other = false) := ne_of_isDigit h hother
  simp [passScalar, hne 0x6e rfl, hne 0x74 rfl, hne 0x66 rfl, hne 0x2d rfl, h]

/-- The text begins with no opening bracket, and is passed over as a whole. -/
def IsScalar (text : List UInt8) : Prop :=
  ∃ octet s, text = octet :: s ∧ Opens octet ∧ Bracket.ofOpening? octet = none ∧
    ∀ rest, Ends rest → passScalar octet (s ++ rest) = .ok rest

theorem isScalar_word {word : String} (h : word ∈ ["null", "true", "false"]) :
    IsScalar (octets word) := by
  simp only [List.mem_cons, List.not_mem_nil, or_false] at h
  obtain rfl | rfl | rfl := h
  · exact ⟨0x6e, octets "ull", rfl, by constructor <;> decide, rfl, fun rest _ =>
      expectOctets_eq_ok.2 rfl⟩
  · exact ⟨0x74, octets "rue", rfl, by constructor <;> decide, rfl, fun rest _ =>
      expectOctets_eq_ok.2 rfl⟩
  · exact ⟨0x66, octets "alse", rfl, by constructor <;> decide, rfl, fun rest _ =>
      expectOctets_eq_ok.2 rfl⟩

theorem isScalar_number (n : Numeral) : IsScalar n.text := by
  unfold Numeral.text
  split
  · exact ⟨0x2d, n.unsignedText, rfl, by constructor <;> decide, rfl, fun rest hrest =>
      n.passUnsigned (hrest.numeral n)⟩
  · obtain ⟨d, ds, hwhole, hd⟩ := n.whole.exists_cons
    have htext : n.unsignedText = d :: (ds ++ (fractionText n.fraction ++
        exponentText n.exponent)) := by
      rw [Numeral.unsignedText, hwhole, List.cons_append]
    refine ⟨d, _, htext, opens_of_isDigit hd, ?_, fun rest hrest => ?_⟩
    · have hne (other : UInt8) (hother : isDigit other = false) := ne_of_isDigit hd hother
      simp [Bracket.ofOpening?, hne 0x5b rfl, hne 0x7b rfl]
    · rw [passScalar_digit hd, ← List.cons_append, ← htext]
      exact n.passUnsigned (hrest.numeral n)

theorem isScalar_string {s : List UInt8} (h : StringRest s) : IsScalar (0x22 :: s) :=
  ⟨0x22, s, rfl, by constructor <;> decide, rfl, fun _ _ => h.passString⟩

theorem exists_of_passScalar {octet : UInt8} {text rest : List UInt8}
    (h : passScalar octet text = .ok rest) :
    ∃ s, octet :: text = s ++ rest ∧ Written .value s := by
  unfold passScalar at h
  split at h
  next hnull =>
    rw [expectOctets_eq_ok.1 h, hnull]
    exact ⟨octets "null", rfl, .word (by simp)⟩
  split at h
  next htrue =>
    rw [expectOctets_eq_ok.1 h, htrue]
    exact ⟨octets "true", rfl, .word (by simp)⟩
  split at h
  next hfalse =>
    rw [expectOctets_eq_ok.1 h, hfalse]
    exact ⟨octets "false", rfl, .word (by simp)⟩
  split at h
  next hminus =>
    obtain ⟨n, hn, rfl, -⟩ := exists_numeral_of_passUnsigned true h
    refine ⟨n.text, ?_, .number n⟩
    rw [Numeral.text, if_pos hn, hminus, List.cons_append]
  split at h
  next hdigit =>
    obtain ⟨n, hn, htext, -⟩ := exists_numeral_of_passUnsigned false h
    refine ⟨n.text, ?_, .number n⟩
    rw [htext, Numeral.text, hn, if_neg Bool.false_ne_true]
  split at h
  next hquote =>
    obtain ⟨s, hs, rfl⟩ := exists_of_passString h
    exact ⟨0x22 :: s, by rw [hquote, List.cons_append], .string hs⟩
  next => cases h

/-! ## Brackets -/

theorem Bracket.ofOpening?_opening (b : Bracket) : Bracket.ofOpening? b.opening = some b := by
  cases b <;> rfl

theorem Bracket.ofOpening?_eq_some {octet : UInt8} {b : Bracket}
    (h : Bracket.ofOpening? octet = some b) : octet = b.opening := by
  unfold Bracket.ofOpening? at h
  split at h
  next hsquare =>
    cases h
    exact hsquare
  split at h
  next hcurly =>
    cases h
    exact hcurly
  next => cases h

theorem Bracket.opens_opening (b : Bracket) : Opens b.opening := by
  cases b <;> constructor <;> decide

theorem Written.exists_cons {s : List UInt8} (h : Written .value s) :
    ∃ octet s', s = octet :: s' ∧ Opens octet := by
  have hscalar (hs : IsScalar s) : ∃ octet s', s = octet :: s' ∧ Opens octet := by
    obtain ⟨octet, s', hs, hopens, -⟩ := hs
    exact ⟨octet, s', hs, hopens⟩
  cases h with
  | word h => exact hscalar (isScalar_word h)
  | number n => exact hscalar (isScalar_number n)
  | string h => exact hscalar (isScalar_string h)
  | brackets b h => exact ⟨b.opening, _, rfl, b.opens_opening⟩

theorem readColon_eq_ok {text rest : List UInt8} :
    readColon text = .ok rest ↔ ∃ w, Blank w ∧ text = w ++ 0x3a :: rest := by
  unfold readColon
  constructor
  · intro h
    obtain ⟨w, hw, htext⟩ := exists_blank text
    split at h
    next => cases h
    next octet rest' heq =>
      split at h
      next hcolon =>
        cases h
        exact ⟨w, hw, by rw [htext, heq, hcolon]⟩
      next => cases h
  · rintro ⟨w, hw, rfl⟩
    rw [skipSpace_append hw, skipSpace_cons (by decide)]
    rfl

theorem passKey_eq_ok {text rest : List UInt8} :
    passKey text = .ok rest ↔
      ∃ u name, Blank u ∧ Name .curly name ∧ text = u ++ (name ++ rest) := by
  constructor
  · intro h
    obtain ⟨u, hu, htext⟩ := exists_blank text
    unfold passKey at h
    split at h
    next => cases h
    next octet text₁ heq =>
      split at h
      next hquote =>
        split at h
        next => cases h
        next text₂ hpass =>
          obtain ⟨s, hs, rfl⟩ := exists_of_passString hpass
          obtain ⟨w, hw, rfl⟩ := readColon_eq_ok.1 h
          refine ⟨u, 0x22 :: s ++ w ++ [0x3a], hu, .name hs hw, ?_⟩
          rw [htext, heq, hquote]
          simp
      next => cases h
  · rintro ⟨u, name, hu, hname, rfl⟩
    cases hname with
    | @name s w hs hw =>
      have htext : 0x22 :: s ++ w ++ [0x3a] ++ rest = 0x22 :: (s ++ (w ++ 0x3a :: rest)) := by
        simp
      rw [passKey, htext, skipSpace_append hu, skipSpace_cons (by decide)]
      dsimp only
      rw [if_pos rfl, hs.passString]
      exact readColon_eq_ok.2 ⟨w, hw, rfl⟩

section

variable {b : Bracket} {u name w text rest : List UInt8}

theorem enter_name (hu : Blank u) (hname : Name b name) (hw : Blank w) (text : List UInt8) :
    ∃ w', Blank w' ∧ b.enter (u ++ (name ++ (w ++ text))) = .ok (w' ++ text) := by
  cases b with
  | square =>
    cases hname with
    | none => exact ⟨u ++ w, hu.append hw, by rw [List.nil_append, List.append_assoc]; rfl⟩
  | curly => exact ⟨w, hw, passKey_eq_ok.2 ⟨u, name, hu, hname, rfl⟩⟩

theorem exists_of_enter (h : b.enter text = .ok rest) :
    ∃ u name, Blank u ∧ Name b name ∧ text = u ++ (name ++ rest) := by
  cases b with
  | square =>
    cases h
    exact ⟨[], [], blank_nil, .none, rfl⟩
  | curly => exact passKey_eq_ok.1 h

theorem enter_first {octet : UInt8} (hu : Blank u) (hname : Name b name) (hw : Blank w)
    (hopens : Opens octet) (text : List UInt8) :
    ∃ first tail w', skipSpace (u ++ (name ++ (w ++ octet :: text))) = first :: tail ∧
      first ≠ b.closing ∧ Blank w' ∧ b.enter (first :: tail) = .ok (w' ++ octet :: text) := by
  rw [skipSpace_append hu]
  cases hname with
  | none =>
    rw [List.nil_append, skipSpace_append hw, skipSpace_cons hopens.notSpace]
    exact ⟨octet, text, [], rfl, hopens.notSquare, blank_nil, rfl⟩
  | @name s w₁ hs hw₁ =>
    obtain ⟨w', hw', henter⟩ := enter_name blank_nil (.name hs hw₁) hw (octet :: text)
    exact ⟨0x22, _, w', skipSpace_cons (by decide) _, by decide, hw', henter⟩

theorem passFrom_more {first : Bool} {lead : List UInt8} {octet : UInt8}
    (hlead : Lead first lead) (hname : Name b name) (hw : Blank w) (hopens : Opens octet)
    (fuel : Nat) (brackets : List Bracket) (text : List UInt8) :
    ∃ w', Blank w' ∧
      passFrom (fuel + 1) (.more first) (b :: brackets)
        (lead ++ (name ++ (w ++ octet :: text))) =
      passFrom fuel .item (b :: brackets) (w' ++ octet :: text) := by
  cases first with
  | true =>
    obtain ⟨o, tail, w', hskip, hne, hw', henter⟩ := enter_first hlead hname hw hopens text
    refine ⟨w', hw', ?_⟩
    rw [passFrom, hskip]
    dsimp only
    rw [if_neg hne, if_pos rfl, henter]
  | false =>
    obtain ⟨u, u', hu, hu', rfl⟩ := hlead
    obtain ⟨w', hw', henter⟩ := enter_name hu' hname hw (octet :: text)
    refine ⟨w', hw', ?_⟩
    have hne : (0x2c : UInt8) ≠ b.closing := by cases b <;> decide
    rw [passFrom, List.append_assoc, skipSpace_append hu, List.cons_append,
      skipSpace_cons (by decide)]
    dsimp only
    rw [if_neg hne, if_neg Bool.false_ne_true, if_pos rfl, henter]

end

/-! ## Values -/

/-- The text is passed over in `k` steps. -/
def PassesIn (k : Nat) : Form → List UInt8 → Prop
  | .value, s => k + 1 ≤ 2 * s.length ∧ ∀ fuel brackets w rest, Blank w → Ends rest →
      passFrom (fuel + k) .item brackets (w ++ (s ++ rest)) =
        passFrom fuel (.more false) brackets rest
  | .rest b first, s => k ≤ 2 * s.length ∧ ∀ fuel brackets rest,
      passFrom (fuel + k) (.more first) (b :: brackets) (s ++ rest) =
        passFrom fuel (.more false) brackets rest

theorem IsScalar.passesIn {s : List UInt8} (h : IsScalar s) : PassesIn 1 .value s := by
  obtain ⟨octet, s, rfl, hopens, hopening, hpass⟩ := h
  refine ⟨by rw [List.length_cons]; omega, fun fuel brackets w rest hw hrest => ?_⟩
  rw [passFrom, skipSpace_append hw, List.cons_append, skipSpace_cons hopens.notSpace]
  dsimp only
  rw [hopening, hpass rest hrest]

/-- Every JSON text is passed over, in fewer than two steps an octet. -/
theorem Written.passesIn {form : Form} {s : List UInt8} (h : Written form s) :
    ∃ k, PassesIn k form s := by
  induction h with
  | word h => exact ⟨1, (isScalar_word h).passesIn⟩
  | number n => exact ⟨1, (isScalar_number n).passesIn⟩
  | string h => exact ⟨1, (isScalar_string h).passesIn⟩
  | @brackets b s hs ih =>
    obtain ⟨k, hk, hpass⟩ := ih
    refine ⟨k + 1, by rw [List.length_cons]; omega, fun fuel brackets w rest hw hrest => ?_⟩
    rw [← Nat.add_assoc, passFrom, skipSpace_append hw, List.cons_append,
      skipSpace_cons b.opens_opening.notSpace]
    dsimp only
    rw [b.ofOpening?_opening]
    exact hpass fuel brackets rest
  | @close b first w hw =>
    refine ⟨1, by rw [List.length_append, List.length_singleton]; omega,
      fun fuel brackets rest => ?_⟩
    have hspace : isSpace b.closing = false := by cases b <;> rfl
    rw [passFrom, List.append_assoc, skipSpace_append hw, List.cons_append,
      skipSpace_cons hspace]
    dsimp only
    rw [if_pos rfl, List.nil_append]
  | @item b first lead name w s items hlead hname hw hs hitems ihs ihitems =>
    obtain ⟨k, hk, hpass⟩ := ihs
    obtain ⟨k', hk', hpass'⟩ := ihitems
    obtain ⟨octet, s, rfl, hopens⟩ := hs.exists_cons
    refine ⟨k' + k + 1, by simp only [List.length_append]; omega, fun fuel brackets rest => ?_⟩
    obtain ⟨w', hw', hmore⟩ :=
      passFrom_more hlead hname hw hopens (fuel + k' + k) brackets (s ++ (items ++ rest))
    have htext : lead ++ name ++ w ++ (octet :: s) ++ items ++ rest =
        lead ++ (name ++ (w ++ octet :: (s ++ (items ++ rest)))) := by simp
    rw [htext, ← Nat.add_assoc, ← Nat.add_assoc, hmore]
    exact (hpass _ _ w' (items ++ rest) hw' (hitems.stops.append rest).ends).trans
      (hpass' fuel brackets rest)

/-- The text begins with what closes the brackets, and then comes the rest. -/
def Closes : Bool → List Bracket → List UInt8 → List UInt8 → Prop
  | _, [], text, rest => text = rest
  | first, b :: brackets, text, rest =>
    ∃ s t, Written (.rest b first) s ∧ text = s ++ t ∧ Closes false brackets t rest

/-- What is passed over from a state on. -/
def Passed (brackets : List Bracket) (text rest : List UInt8) : Awaited → Prop
  | .item => ∃ w s t, Blank w ∧ Written .value s ∧ text = w ++ (s ++ t) ∧
      Closes false brackets t rest
  | .more first => Closes first brackets text rest

theorem closes_of_item {b : Bracket} {first : Bool} {brackets : List Bracket}
    {lead name text rest : List UInt8} (hlead : Lead first lead) (hname : Name b name)
    (h : Passed (b :: brackets) text rest .item) :
    Closes first (b :: brackets) (lead ++ (name ++ text)) rest := by
  obtain ⟨w, s, t, hw, hs, rfl, items, t', hitems, rfl, ht'⟩ := h
  exact ⟨lead ++ name ++ w ++ s ++ items, t', .item hlead hname hw hs hitems, by simp, ht'⟩

/-! Each step takes an opening bracket, a scalar, a closing bracket, or what stands before an
item. -/

section

variable {fuel : Nat} {b : Bracket} {first : Bool} {brackets : List Bracket}
  {text rest : List UInt8}

theorem exists_of_passFrom_item (h : passFrom (fuel + 1) .item brackets text = .ok rest) :
    ∃ w, Blank w ∧
      ((∃ b text', text = w ++ b.opening :: text' ∧
        passFrom fuel (.more true) (b :: brackets) text' = .ok rest) ∨
      ∃ s text', Written .value s ∧ text = w ++ (s ++ text') ∧
        passFrom fuel (.more false) brackets text' = .ok rest) := by
  obtain ⟨w, hw, htext⟩ := exists_blank text
  refine ⟨w, hw, ?_⟩
  rw [passFrom] at h
  split at h
  next => cases h
  next octet text' heq =>
    rw [heq] at htext
    split at h
    next b hb => exact .inl ⟨b, text', Bracket.ofOpening?_eq_some hb ▸ htext, h⟩
    next =>
      split at h
      next => cases h
      next text'' hpass =>
        obtain ⟨s, hs, hwritten⟩ := exists_of_passScalar hpass
        exact .inr ⟨s, text'', hwritten, by rw [htext, hs], h⟩

theorem exists_of_passFrom_more
    (h : passFrom (fuel + 1) (.more first) (b :: brackets) text = .ok rest) :
    (∃ w text', Blank w ∧ text = w ++ b.closing :: text' ∧
      passFrom fuel (.more false) brackets text' = .ok rest) ∨
    ∃ lead name text', Lead first lead ∧ Name b name ∧ text = lead ++ (name ++ text') ∧
      passFrom fuel .item (b :: brackets) text' = .ok rest := by
  obtain ⟨w, hw, htext⟩ := exists_blank text
  rw [passFrom] at h
  split at h
  next => cases h
  next octet text' heq =>
    rw [heq] at htext
    split at h
    next hclosing => exact .inl ⟨w, text', hw, hclosing ▸ htext, h⟩
    split at h
    next hfirst =>
      split at h
      next => cases h
      next text'' henter =>
        obtain ⟨u, name, hu, hname, hoctet⟩ := exists_of_enter henter
        subst hfirst
        exact .inr ⟨w ++ u, name, text'', hw.append hu, hname,
          by rw [htext, hoctet, List.append_assoc], h⟩
    split at h
    next hfirst hcomma =>
      split at h
      next => cases h
      next text'' henter =>
        obtain ⟨u, name, hu, hname, rfl⟩ := exists_of_enter henter
        obtain rfl := Bool.of_not_eq_true hfirst
        exact .inr ⟨w ++ 0x2c :: u, name, text'', ⟨w, u, hw, hu, rfl⟩, hname,
          by rw [htext, hcomma]; simp, h⟩
    next => cases h

end

theorem passed_of_passFrom {fuel : Nat} {awaited : Awaited} {brackets : List Bracket}
    {text rest : List UInt8} (h : passFrom fuel awaited brackets text = .ok rest) :
    Passed brackets text rest awaited := by
  induction fuel generalizing awaited brackets text with
  | zero => cases h
  | succ fuel ih =>
    cases awaited with
    | item =>
      obtain ⟨w, hw, ⟨b, text', rfl, hrest⟩ | ⟨s, text', hs, rfl, hrest⟩⟩ :=
        exists_of_passFrom_item h
      · obtain ⟨s, t, hs, rfl, ht⟩ := ih hrest
        exact ⟨w, b.opening :: s, t, hw, .brackets b hs, rfl, ht⟩
      · exact ⟨w, s, text', hw, hs, rfl, ih hrest⟩
    | more first =>
      cases brackets with
      | nil =>
        cases h
        rfl
      | cons b brackets =>
        obtain ⟨w, text', hw, rfl, hrest⟩ | ⟨lead, name, text', hlead, hname, rfl, hrest⟩ :=
          exists_of_passFrom_more h
        · exact ⟨w ++ [b.closing], text', .close hw, by simp, ih hrest⟩
        · exact closes_of_item hlead hname (ih hrest)

section

variable {w s text rest : List UInt8}

theorem Written.passValue (hs : Written .value s) (hw : Blank w) (hrest : Ends rest) :
    passValue (w ++ (s ++ rest)) = .ok rest := by
  obtain ⟨k, hk, hpass⟩ := hs.passesIn
  have hlength : s.length ≤ (w ++ (s ++ rest)).length := by
    simp only [List.length_append]
    omega
  obtain ⟨fuel, hfuel⟩ : ∃ fuel, 2 * (w ++ (s ++ rest)).length + 2 = fuel + 1 + k :=
    ⟨2 * (w ++ (s ++ rest)).length + 1 - k, by omega⟩
  rw [Json.passValue, hfuel, hpass (fuel + 1) [] w rest hw hrest, passFrom]

theorem exists_of_passValue (h : Json.passValue text = .ok rest) :
    ∃ w s, Blank w ∧ Written .value s ∧ text = w ++ (s ++ rest) := by
  obtain ⟨w, s, t, hw, hs, htext, rfl⟩ := passed_of_passFrom h
  exact ⟨w, s, hw, hs, htext⟩

end

end PoolWatch.Json
