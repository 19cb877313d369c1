import Mathlib.Data.List.TakeWhile
import PoolWatch.Numeric.Checked
import PoolWatch.Proofs.Json.Grammar
/-!
# Numbers are read as they are spelled

A number is read, or passed over, just when the text begins with a numeral, and the numeral ends
where no octet follows that would carry it on.
-/

namespace PoolWatch.Json

open PoolWatch.Numeric

/-! ## What may follow a numeral -/

def NoDigit (rest : List UInt8) : Prop := ∀ octet ∈ rest.head?, isDigit octet = false

def NoExponent (rest : List UInt8) : Prop := ∀ octet ∈ rest.head?, octet ≠ 0x65 ∧ octet ≠ 0x45

def NoPoint (rest : List UInt8) : Prop := ∀ octet ∈ rest.head?, octet ≠ 0x2e

def ExponentEnds (x : Option Exponent) (rest : List UInt8) : Prop :=
  match x with
  | none => NoExponent rest
  | some _ => NoDigit rest

/-- No octet follows that would carry the numeral on. -/
structure Numeral.Ends (n : Numeral) (rest : List UInt8) : Prop where
  noDigit : NoDigit rest
  exponent : ExponentEnds n.exponent rest
  noPoint : n.fraction = none → n.exponent = none → NoPoint rest

/-- No octet follows that would carry any numeral on. -/
structure Ends (rest : List UInt8) : Prop where
  noDigit : NoDigit rest
  noExponent : NoExponent rest
  noPoint : NoPoint rest

theorem Ends.numeral {rest : List UInt8} (h : Ends rest) (n : Numeral) : n.Ends rest where
  noDigit := h.noDigit
  exponent := by
    cases n.exponent with
    | none => exact h.noExponent
    | some x => exact h.noDigit
  noPoint _ _ := h.noPoint

/-! ## Runs of digits -/

section

variable {text rest : List UInt8}

theorem spanDigits_append (run : DigitRun) (hrest : NoDigit rest) :
    spanDigits (run.octets ++ rest) = (run.octets, rest) := by
  have hnone : rest.takeWhile isDigit = [] ∧ rest.dropWhile isDigit = rest := by
    cases rest with
    | nil => exact ⟨rfl, rfl⟩
    | cons octet rest =>
      have hoctet : isDigit octet = false := hrest octet rfl
      simp [hoctet]
  unfold spanDigits
  rw [List.takeWhile_append_of_pos run.isDigit_of_mem,
    List.dropWhile_append_of_pos run.isDigit_of_mem, hnone.1, hnone.2, List.append_nil]

theorem of_spanDigits {ds : List UInt8} (h : spanDigits text = (ds, rest)) :
    text = ds ++ rest ∧ (∀ octet ∈ ds, isDigit octet = true) ∧ NoDigit rest := by
  unfold spanDigits at h
  obtain ⟨rfl, rfl⟩ := Prod.mk.inj h
  refine ⟨List.takeWhile_append_dropWhile.symm, fun octet => List.mem_takeWhile_imp, ?_⟩
  intro octet hoctet
  rw [← List.find?_not_eq_head?_dropWhile] at hoctet
  simpa using List.find?_some hoctet

theorem exists_run {ds : List UInt8} (hds : ds ≠ []) (h : spanDigits text = (ds, rest)) :
    ∃ run : DigitRun, run.octets = ds ∧ text = run.octets ++ rest ∧ NoDigit rest := by
  obtain ⟨htext, hdigits, hrest⟩ := of_spanDigits h
  exact ⟨⟨ds, hds, hdigits⟩, rfl, htext, hrest⟩

end

/-! ## Passing over numbers -/

section

variable {text rest : List UInt8}

theorem isDigit_letter (x : Exponent) : isDigit x.letter = false := by
  unfold Exponent.letter
  split <;> rfl

theorem noDigit_exponentText {x : Option Exponent} (h : NoDigit rest) :
    NoDigit (exponentText x ++ rest) := by
  cases x with
  | none => exact h
  | some x =>
    rintro octet ⟨rfl⟩
    exact isDigit_letter x

theorem DigitRun.exists_cons (run : DigitRun) :
    ∃ d ds, run.octets = d :: ds ∧ isDigit d = true := by
  obtain ⟨octets, hne, hdigits⟩ := run
  cases octets with
  | nil => exact absurd rfl hne
  | cons d ds => exact ⟨d, ds, rfl, hdigits d List.mem_cons_self⟩

def splitSign (text : List UInt8) : Option Bool × List UInt8 :=
  match text with
  | 0x2b :: rest => (some false, rest)
  | 0x2d :: rest => (some true, rest)
  | _ => (none, text)

theorem splitSign_signText (x : Exponent) (rest : List UInt8) :
    splitSign (x.signText ++ (x.run.octets ++ rest)) = (x.sign, x.run.octets ++ rest) := by
  obtain ⟨d, ds, hrun, hd⟩ := x.run.exists_cons
  unfold splitSign Exponent.signText
  rw [hrun]
  match x.sign with
  | none =>
    dsimp only [List.nil_append, List.cons_append]
    split
    next hplus => cases hplus; cases hd
    next hminus => cases hminus; cases hd
    next => rfl
  | some false => rfl
  | some true => rfl

theorem exists_exponent {sign : Option Bool} {run : DigitRun} (capital : Bool)
    (h : splitSign text = (sign, run.octets ++ rest)) :
    ∃ x : Exponent, x.capital = capital ∧ x.sign = sign ∧ x.run = run ∧
      text = x.signText ++ (x.run.octets ++ rest) := by
  refine ⟨⟨capital, sign, run⟩, rfl, rfl, rfl, ?_⟩
  unfold splitSign at h
  split at h <;> cases h <;> rfl

theorem passExponent_eq (text : List UInt8) :
    passExponent text = match spanDigits (splitSign text).2 with
      | ([], _) => .error .invalidNumber
      | (_, rest) => .ok rest := by
  have hrest : (match text with
      | 0x2b :: rest => rest
      | 0x2d :: rest => rest
      | _ => text) = (splitSign text).2 := by
    unfold splitSign
    split <;> rfl
  exact congrArg (fun digits => match spanDigits digits with
    | ([], _) => Except.error Problem.invalidNumber
    | (_, rest) => .ok rest) hrest

theorem passExponent_signText (x : Exponent) (hrest : NoDigit rest) :
    passExponent (x.signText ++ (x.run.octets ++ rest)) = .ok rest := by
  obtain ⟨d, ds, hrun, -⟩ := x.run.exists_cons
  rw [passExponent_eq, splitSign_signText, spanDigits_append x.run hrest, hrun]

theorem exists_of_passExponent (capital : Bool) (h : passExponent text = .ok rest) :
    ∃ x : Exponent, x.capital = capital ∧ text = x.signText ++ (x.run.octets ++ rest) ∧
      NoDigit rest := by
  rw [passExponent_eq] at h
  split at h
  next => cases h
  next ds rest' hne hspan =>
    cases h
    obtain ⟨run, -, htext, hrest⟩ := exists_run (hne ·) hspan
    obtain ⟨x, hcapital, -, rfl, hx⟩ := exists_exponent capital (Prod.ext rfl htext)
    exact ⟨x, hcapital, hx, hrest⟩

theorem exponentText_some (x : Exponent) (rest : List UInt8) :
    exponentText (some x) ++ rest = x.letter :: (x.signText ++ (x.run.octets ++ rest)) := by
  simp only [exponentText, Exponent.text, List.cons_append, List.append_assoc]

theorem passTail_exponentText {x : Option Exponent} (h : ExponentEnds x rest) :
    passTail (exponentText x ++ rest) = .ok rest := by
  cases x with
  | none =>
    change passTail rest = _
    unfold passTail
    split
    next => exact absurd rfl (h _ rfl).1
    next => exact absurd rfl (h _ rfl).2
    next => rfl
  | some x =>
    rw [exponentText_some, Exponent.letter]
    cases x.capital <;> exact passExponent_signText x h

theorem exists_of_passTail (h : passTail text = .ok rest) :
    ∃ x, text = exponentText x ++ rest ∧ ExponentEnds x rest := by
  have hletter (x : Exponent) (hx : text = x.letter :: (x.signText ++ (x.run.octets ++ rest)))
      (hrest : NoDigit rest) : ∃ x, text = exponentText x ++ rest ∧ ExponentEnds x rest :=
    ⟨some x, by rw [exponentText_some, hx], hrest⟩
  unfold passTail at h
  split at h
  next text' =>
    obtain ⟨x, hcapital, rfl, hrest⟩ := exists_of_passExponent false h
    exact hletter x (by rw [Exponent.letter, hcapital]; rfl) hrest
  next text' =>
    obtain ⟨x, hcapital, rfl, hrest⟩ := exists_of_passExponent true h
    exact hletter x (by rw [Exponent.letter, hcapital]; rfl) hrest
  next hsmall hcapital =>
    cases h
    refine ⟨none, rfl, fun octet hoctet => ⟨?_, ?_⟩⟩ <;> rintro rfl
    · exact hsmall _ (List.head?_eq_some_iff.1 hoctet).choose_spec
    · exact hcapital _ (List.head?_eq_some_iff.1 hoctet).choose_spec

def passFraction (text : List UInt8) : Except Problem (List UInt8) :=
  match text with
  | 0x2e :: rest =>
    match spanDigits rest with
    | ([], _) => .error .invalidNumber
    | (_, rest) => passTail rest
  | _ => passTail text

theorem passUnsigned_eq (run : WholeRun) {text' : List UInt8}
    (h : spanDigits text = (run.octets, text')) : passUnsigned text = passFraction text' := by
  unfold passUnsigned passFraction
  rw [h]
  split
  next heq => exact absurd (Prod.mk.inj heq).1 run.ne_nil
  next heq => exact absurd (Prod.mk.inj heq).1 (run.no_leading_zero _ _)
  next heq =>
    rw [(Prod.mk.inj heq).2]
    rfl
  next hpoint heq =>
    obtain ⟨-, rfl⟩ := Prod.mk.inj heq
    split
    next => exact absurd rfl (hpoint _)
    next => rfl

theorem exists_of_passUnsigned (h : passUnsigned text = .ok rest) :
    ∃ (run : WholeRun) (text' : List UInt8), text = run.octets ++ text' ∧ NoDigit text' ∧
      passFraction text' = .ok rest := by
  obtain ⟨ds, text', hspan⟩ : ∃ ds text', spanDigits text = (ds, text') := ⟨_, _, rfl⟩
  obtain ⟨htext, hdigits, hrest⟩ := of_spanDigits hspan
  have hne : ds ≠ [] := by
    rintro rfl
    simp [passUnsigned, hspan] at h
  have hzero : ∀ d ds', ds ≠ 0x30 :: d :: ds' := by
    rintro d ds' rfl
    simp [passUnsigned, hspan] at h
  let run : WholeRun := ⟨⟨ds, hne, hdigits⟩, hzero⟩
  exact ⟨run, text', htext, hrest, passUnsigned_eq run hspan ▸ h⟩

theorem noDigit_fractionText (fraction : Option DigitRun) (h : NoDigit rest) :
    NoDigit (fractionText fraction ++ rest) := by
  cases fraction with
  | none => exact h
  | some run =>
    rintro octet ⟨rfl⟩
    rfl

theorem Numeral.passUnsigned (n : Numeral) (h : n.Ends rest) :
    passUnsigned (n.unsignedText ++ rest) = .ok rest := by
  have hexponent : NoDigit (exponentText n.exponent ++ rest) := noDigit_exponentText h.noDigit
  have hspan := spanDigits_append n.whole.toDigitRun (noDigit_fractionText n.fraction hexponent)
  rw [Numeral.unsignedText, List.append_assoc, List.append_assoc, passUnsigned_eq n.whole hspan]
  cases hfraction : n.fraction with
  | some run =>
    obtain ⟨d, ds, hrun, -⟩ := run.exists_cons
    have hrunspan := spanDigits_append run hexponent
    rw [hrun] at hrunspan
    rw [fractionText, List.cons_append, hrun, passFraction, hrunspan]
    exact passTail_exponentText h.exponent
  | none =>
    -- no point follows: neither an exponent nor what ends a whole number begins with one
    rw [fractionText, List.nil_append, passFraction]
    · exact passTail_exponentText h.exponent
    · intro text' htext'
      cases hx : n.exponent with
      | none =>
        rw [hx, exponentText, List.nil_append] at htext'
        exact absurd rfl (h.noPoint hfraction hx _ (by rw [htext', List.head?_cons]; rfl))
      | some x =>
        rw [hx, exponentText_some] at htext'
        have hletter := (List.cons.inj htext').1
        unfold Exponent.letter at hletter
        split at hletter <;> cases hletter

theorem exists_numeral_of_passUnsigned (negative : Bool) (h : passUnsigned text = .ok rest) :
    ∃ n : Numeral, n.negative = negative ∧ text = n.unsignedText ++ rest ∧ n.Ends rest := by
  obtain ⟨whole, text₁, rfl, hdigit, hpass⟩ := exists_of_passUnsigned h
  unfold passFraction at hpass
  split at hpass
  next text₂ =>
    split at hpass
    next => cases hpass
    next ds text₃ hne hspan =>
      obtain ⟨run, -, rfl, hrest⟩ := exists_run (hne ·) hspan
      obtain ⟨x, rfl, hx⟩ := exists_of_passTail hpass
      refine ⟨⟨negative, whole, some run, x⟩, rfl, ?_, ?_, hx, nofun⟩
      · simp only [Numeral.unsignedText, fractionText, List.append_assoc, List.cons_append]
      · cases x with
        | none => exact hrest
        | some x => exact hx
  next hpoint =>
    obtain ⟨x, rfl, hx⟩ := exists_of_passTail hpass
    refine ⟨⟨negative, whole, none, x⟩, rfl, ?_, ?_, hx, ?_⟩
    · simp only [Numeral.unsignedText, fractionText, List.append_assoc, List.nil_append]
    · cases x with
      | none => exact hdigit
      | some x => exact hx
    · rintro - hnone octet hoctet rfl
      obtain rfl : x = none := hnone
      exact hpoint _ (List.head?_eq_some_iff.1 hoctet).choose_spec

end

/-! ## Reading numbers -/

section

variable {significand : Nat} {exponent : Int} {text rest : List UInt8}

theorem readExponent_eq (significand : Nat) (exponent : Int) (text : List UInt8) :
    readExponent significand exponent text =
      match spanDigits (splitSign text).2 with
      | ([], []) => .error .endOfValue
      | ([], _ :: _) => .error .invalidNumber
      | (digits, rest) =>
        let power := digitsValue digits
        if largestExponent < power then
          if significand ≠ 0 ∧ ¬(splitSign text).1 == some true then .error .numberOutOfRange
          else .ok (0.0, rest)
        else
          match scale significand (if (splitSign text).1 == some true then exponent - power
            else exponent + power) with
          | .error problem => .error problem
          | .ok x => .ok (x, rest) := by
  have hsign : (match text with
      | 0x2b :: rest => (false, rest)
      | 0x2d :: rest => (true, rest)
      | _ => (false, text)) = ((splitSign text).1 == some true, (splitSign text).2) := by
    unfold splitSign
    split <;> rfl
  unfold readExponent
  split
  next negative rest heq =>
    obtain ⟨rfl, rfl⟩ := Prod.mk.inj (hsign.symm.trans heq)
    rfl

theorem readExponent_signText (x : Exponent) (hrest : NoDigit rest) :
    readExponent significand exponent (x.signText ++ (x.run.octets ++ rest)) =
      (x.scale significand exponent).map (·, rest) := by
  obtain ⟨d, ds, hrun, -⟩ := x.run.exists_cons
  rw [readExponent_eq, splitSign_signText, spanDigits_append x.run hrest, Exponent.scale, hrun]
  dsimp only
  split
  · split <;> rfl
  · cases Json.scale significand _ <;> rfl

theorem exists_cons_of_digits {ds : List UInt8} (hend : ds = [] → rest = [] → False)
    (hinvalid : ∀ octet text, ds = [] → rest = octet :: text → False) :
    ∃ d ds', ds = d :: ds' := by
  cases ds with
  | cons d ds' => exact ⟨d, ds', rfl⟩
  | nil =>
    cases rest with
    | nil => exact absurd rfl (hend rfl)
    | cons octet text => exact absurd rfl (hinvalid octet text rfl)

theorem pass_of_readExponent {x : Float}
    (h : readExponent significand exponent text = .ok (x, rest)) :
    passExponent text = .ok rest := by
  rw [readExponent_eq] at h
  rw [passExponent_eq]
  split at h
  next => cases h
  next => cases h
  next ds rest' hend hinvalid hspan =>
    have hok : rest' = rest := by
      dsimp only at h
      split at h
      · split at h
        · cases h
        · exact (Prod.mk.inj (Except.ok.inj h)).2
      · split at h
        · cases h
        · exact (Prod.mk.inj (Except.ok.inj h)).2
    obtain ⟨d, ds, rfl⟩ := exists_cons_of_digits hend hinvalid
    rw [hspan, hok]

theorem readTail_exponentText {x : Option Exponent} (h : ExponentEnds x rest) :
    readTail significand exponent (exponentText x ++ rest) =
      (scaleBy x significand exponent).map (·, rest) := by
  cases x with
  | none =>
    rw [exponentText, List.nil_append, readTail, scaleBy]
    · cases scale significand exponent <;> rfl
    · rintro text rfl
      exact absurd rfl (h _ rfl).1
    · rintro text rfl
      exact absurd rfl (h _ rfl).2
  | some x =>
    rw [exponentText_some, Exponent.letter]
    cases x.capital <;> exact readExponent_signText x h

theorem pass_of_readTail {x : Float} (h : readTail significand exponent text = .ok (x, rest)) :
    passTail text = .ok rest := by
  unfold readTail at h
  split at h
  next => exact pass_of_readExponent h
  next => exact pass_of_readExponent h
  next hsmall hcapital =>
    split at h
    next => cases h
    next =>
      cases h
      rw [passTail]
      · exact hsmall
      · exact hcapital

theorem readFraction_run (run : DigitRun) {x : Option Exponent} (hdigit : NoDigit rest)
    (h : ExponentEnds x rest) :
    readFraction significand exponent (run.octets ++ (exponentText x ++ rest)) =
      (scaleBy x (gather significand run.octets).1
        (exponent - (gather significand run.octets).2)).map (·, rest) := by
  obtain ⟨d, ds, hrun, -⟩ := run.exists_cons
  rw [readFraction, spanDigits_append run (noDigit_exponentText hdigit), hrun]
  exact readTail_exponentText h

theorem pass_of_readFraction {x : Float}
    (h : readFraction significand exponent text = .ok (x, rest)) :
    passFraction (0x2e :: text) = .ok rest := by
  unfold readFraction at h
  split at h
  next => cases h
  next => cases h
  next ds rest' hend hinvalid hspan =>
    obtain ⟨d, ds, rfl⟩ := exists_cons_of_digits hend hinvalid
    rw [passFraction, hspan]
    exact pass_of_readTail h

def readAfter (negative : Bool) (digits : List UInt8) : Reader Number := fun text =>
  let significand := (gather 0 digits).1
  let dropped : Int := digits.length - (gather 0 digits).2
  let amount (r : Except Problem (Float × List UInt8)) : Except Problem (Number × List UInt8) :=
    r.map fun (x, rest) => (.amount (if negative then -x else x), rest)
  match text with
  | 0x2e :: rest => amount (readFraction significand dropped rest)
  | 0x65 :: rest => amount (readExponent significand dropped rest)
  | 0x45 :: rest => amount (readExponent significand dropped rest)
  | _ =>
    if (gather 0 digits).2 = digits.length then .ok (wholeNumber negative significand, text)
    else amount (readTail significand dropped text)

theorem readUnsigned_eq (run : WholeRun) (negative : Bool) {text' : List UInt8}
    (h : spanDigits text = (run.octets, text')) :
    readUnsigned negative text = readAfter negative run.octets text' := by
  unfold readUnsigned readAfter
  dsimp only
  rw [h]
  split
  next heq => exact absurd (Prod.mk.inj heq).1 run.ne_nil
  next heq => exact absurd (Prod.mk.inj heq).1 run.ne_nil
  next heq => exact absurd (Prod.mk.inj heq).1 (run.no_leading_zero _ _)
  next heq =>
    obtain ⟨rfl, rfl⟩ := Prod.mk.inj heq
    rfl

theorem map_amount (x : Except Problem Float) (f : Float → Float) :
    ((x.map (·, rest)).map fun (p : Float × List UInt8) => (Number.amount (f p.1), p.2)) =
      (x.map fun y => Number.amount (f y)).map (·, rest) := by
  cases x <;> rfl

theorem Numeral.readUnsigned (n : Numeral) (h : n.Ends rest) :
    readUnsigned n.negative (n.unsignedText ++ rest) = n.number.map (·, rest) := by
  have hexponent : NoDigit (exponentText n.exponent ++ rest) := noDigit_exponentText h.noDigit
  have hspan := spanDigits_append n.whole.toDigitRun (noDigit_fractionText n.fraction hexponent)
  rw [Numeral.unsignedText, List.append_assoc, List.append_assoc,
    readUnsigned_eq n.whole n.negative hspan, Numeral.number]
  cases hfraction : n.fraction with
  | some run =>
    rw [if_neg (by simp), ← map_amount, fractionText, List.cons_append, readAfter,
      readFraction_run run h.noDigit h.exponent, Numeral.significand, hfraction]
  | none =>
    rw [Numeral.significand, hfraction, fractionText, List.nil_append]
    have hx := h.exponent
    cases hexp : n.exponent with
    | some x =>
      rw [hexp] at hx
      rw [if_neg (by simp), ← map_amount, exponentText_some, scaleBy,
        ← readExponent_signText x hx]
      unfold Exponent.letter
      cases x.capital <;> rfl
    | none =>
      rw [hexp] at hx
      have hpoint := h.noPoint hfraction hexp
      rw [exponentText, List.nil_append, readAfter]
      · by_cases hcount : (gather 0 n.whole.octets).2 = n.whole.octets.length
        · rw [if_pos hcount, if_pos (by simp [hcount])]
          rfl
        · rw [if_neg hcount, if_neg (by simp; omega), ← map_amount]
          exact congrArg _ (readTail_exponentText hx)
      · rintro text rfl
        exact hpoint _ rfl rfl
      · rintro text rfl
        exact (hx _ rfl).1 rfl
      · rintro text rfl
        exact (hx _ rfl).2 rfl

theorem exists_of_map_amount {r : Except Problem (Float × List UInt8)} {negative : Bool}
    {x : Number}
    (h : (r.map fun p => (Number.amount (if negative then -p.1 else p.1), p.2)) = .ok (x, rest)) :
    ∃ y, r = .ok (y, rest) := by
  obtain ⟨⟨y, rest'⟩, hr, hpair⟩ := map_eq_ok_iff.1 h
  cases hpair
  exact ⟨y, hr⟩

theorem pass_of_readAfter {negative : Bool} {digits : List UInt8} {x : Number}
    (h : readAfter negative digits text = .ok (x, rest)) : passFraction text = .ok rest := by
  unfold readAfter at h
  dsimp only at h
  split at h
  next =>
    obtain ⟨y, hread⟩ := exists_of_map_amount h
    exact pass_of_readFraction hread
  next =>
    obtain ⟨y, hread⟩ := exists_of_map_amount h
    exact pass_of_readExponent hread
  next =>
    obtain ⟨y, hread⟩ := exists_of_map_amount h
    exact pass_of_readExponent hread
  next hpoint hsmall hcapital =>
    rw [passFraction]
    · split at h
      · cases h
        rw [passTail]
        · exact hsmall
        · exact hcapital
      · obtain ⟨y, hread⟩ := exists_of_map_amount h
        exact pass_of_readTail hread
    · exact hpoint

theorem pass_of_readUnsigned {negative : Bool} {x : Number}
    (h : readUnsigned negative text = .ok (x, rest)) : passUnsigned text = .ok rest := by
  obtain ⟨ds, text', hspan⟩ : ∃ ds text', spanDigits text = (ds, text') := ⟨_, _, rfl⟩
  have hne : ds ≠ [] := by
    rintro rfl
    cases text' <;> simp [Json.readUnsigned, hspan] at h
  have hzero : ∀ d ds', ds ≠ 0x30 :: d :: ds' := by
    rintro d ds' rfl
    simp [Json.readUnsigned, hspan] at h
  let run : WholeRun := ⟨⟨ds, hne, (of_spanDigits hspan).2.1⟩, hzero⟩
  rw [readUnsigned_eq run negative hspan] at h
  rw [passUnsigned_eq run hspan]
  exact pass_of_readAfter h

theorem WholeRun.exists_cons (run : WholeRun) :
    ∃ d ds, run.octets = d :: ds ∧ isDigit d = true :=
  run.toDigitRun.exists_cons

theorem Numeral.exists_cons (n : Numeral) :
    ∃ octet s, n.text = octet :: s ∧ (octet = 0x2d ∨ isDigit octet = true) := by
  obtain ⟨d, ds, hwhole, hd⟩ := n.whole.exists_cons
  unfold Numeral.text
  split
  · exact ⟨0x2d, n.unsignedText, rfl, .inl rfl⟩
  · rw [Numeral.unsignedText, hwhole]
    exact ⟨d, _, rfl, .inr hd⟩

theorem Numeral.readNumber (n : Numeral) (h : n.Ends rest) :
    readNumber (n.text ++ rest) = n.number.map (·, rest) := by
  rw [← n.readUnsigned h]
  obtain ⟨d, ds, hwhole, hd⟩ := n.whole.exists_cons
  unfold Numeral.text
  cases n.negative with
  | true => rfl
  | false =>
    rw [if_neg Bool.false_ne_true, Json.readNumber]
    -- a digit is no sign
    intro text heq
    rw [Numeral.unsignedText, hwhole] at heq
    cases heq
    cases hd

theorem exists_numeral_of_readNumber {x : Number} (h : Json.readNumber text = .ok (x, rest)) :
    ∃ n : Numeral, text = n.text ++ rest ∧ n.Ends rest ∧ n.number = .ok x := by
  obtain ⟨n, htext, hends⟩ : ∃ n : Numeral, text = n.text ++ rest ∧ n.Ends rest := by
    unfold Json.readNumber at h
    split at h
    next text' =>
      obtain ⟨n, hn, rfl, hends⟩ := exists_numeral_of_passUnsigned true (pass_of_readUnsigned h)
      exact ⟨n, by rw [Numeral.text, if_pos hn, List.cons_append], hends⟩
    next =>
      obtain ⟨n, hn, rfl, hends⟩ := exists_numeral_of_passUnsigned false (pass_of_readUnsigned h)
      exact ⟨n, by rw [Numeral.text, hn, if_neg Bool.false_ne_true], hends⟩
  rw [htext, n.readNumber hends] at h
  obtain ⟨y, hy, hpair⟩ := map_eq_ok_iff.1 h
  cases hpair
  exact ⟨n, htext, hends, hy⟩

end

/-! ## Counts -/

section

variable {significand : Nat} {digits : List UInt8}

theorem le_foldl_digits (significand : Nat) (digits : List UInt8) :
    significand ≤ digits.foldl (fun n d => n * 10 + digitValue d) significand := by
  induction digits generalizing significand with
  | nil => exact Nat.le_refl _
  | cons d digits ih =>
    have hstep : significand ≤ significand * 10 + digitValue d := by omega
    exact Nat.le_trans hstep (ih _)

theorem gather_cases (h : significand ≤ unsignedMax) (digits : List UInt8) :
    let value := digits.foldl (fun n d => n * 10 + digitValue d) significand
    gather significand digits = (value, digits.length) ∧ value ≤ unsignedMax ∨
      (gather significand digits).2 < digits.length ∧ unsignedMax < value := by
  induction digits generalizing significand with
  | nil => exact .inl ⟨rfl, h⟩
  | cons d digits ih =>
    have hgrows := le_foldl_digits (significand * 10 + digitValue d) digits
    dsimp only [gather, List.foldl_cons]
    split
    next hlarge => exact .inr ⟨Nat.succ_pos _, Nat.lt_of_lt_of_le hlarge hgrows⟩
    next hsmall =>
      obtain ⟨hgather, hvalue⟩ | ⟨hcount, hvalue⟩ := ih (Nat.le_of_not_lt hsmall)
      · rw [hgather]
        exact .inl ⟨rfl, hvalue⟩
      · exact .inr ⟨Nat.succ_lt_succ hcount, hvalue⟩

theorem number_of_digits (run : WholeRun) (h : digitsValue run.octets ≤ unsignedMax) :
    Numeral.number ⟨false, run, none, none⟩ = .ok (.whole (digitsValue run.octets)) := by
  obtain ⟨hgather, -⟩ | ⟨-, hlarge⟩ := gather_cases (Nat.zero_le unsignedMax) run.octets
  · simp [Numeral.number, Numeral.significand, hgather, wholeNumber, digitsValue]
  · exact absurd h (Nat.not_le.2 hlarge)

theorem digits_of_number {n : Numeral} {k : Int} (hk : 0 ≤ k) (h : n.number = .ok (.whole k)) :
    n.text = n.whole.octets ∧ digitsValue n.whole.octets = k.toNat ∧ k.toNat ≤ unsignedMax := by
  obtain ⟨negative, whole, fraction, x⟩ := n
  unfold Numeral.number at h
  split at h
  next hwhole =>
    obtain ⟨hfraction, hx, hcount⟩ := hwhole
    obtain rfl : fraction = none := Option.isNone_iff_eq_none.1 hfraction
    obtain rfl : x = none := Option.isNone_iff_eq_none.1 hx
    dsimp only [Numeral.significand] at h hcount
    obtain ⟨hgather, hvalue⟩ | ⟨hshort, -⟩ := gather_cases (Nat.zero_le unsignedMax) whole.octets
    · cases negative with
      | true =>
        -- with a sign, a whole number is below zero
        unfold wholeNumber at h
        rw [if_pos rfl] at h
        split at h
        next hpos =>
          cases h
          omega
        next => cases h
      | false =>
        rw [hgather] at h
        cases h
        refine ⟨?_, rfl, hvalue⟩
        simp [Numeral.text, Numeral.unsignedText, fractionText, exponentText]
    · omega
  next =>
    obtain ⟨y, -, hy⟩ := map_eq_ok_iff.1 h
    cases hy

end

end PoolWatch.Json
