import PoolWatch.Svg
/-!
# Entities in texts

The three replacements that escape a text, one after the other, come to one entity for every
character of mark-up.  An escaped text has no angle brackets, its ampersands are those of the
entities, and putting the characters back gives the text.
-/

namespace PoolWatch.Svg

def escapedChar (c : Char) : List Char :=
  if c = '&' then "&amp;".toList
  else if c = '<' then "&lt;".toList
  else if c = '>' then "&gt;".toList
  else [c]

/-- A text with the characters in the place of the three entities. -/
def unescape : List Char → List Char
  | [] => []
  | '&' :: 'a' :: 'm' :: 'p' :: ';' :: rest => '&' :: unescape rest
  | '&' :: 'l' :: 't' :: ';' :: rest => '<' :: unescape rest
  | '&' :: 'g' :: 't' :: ';' :: rest => '>' :: unescape rest
  | c :: rest => c :: unescape rest

/-! ## One pass -/

@[simp] theorem toList_replaceChar (c : Char) (entity text : String) :
    (replaceChar c entity text).toList =
      text.toList.flatMap fun d => if d = c then entity.toList else [d] :=
  String.toList_ofList

/-- No replacement touches what an earlier one has put in. -/
theorem toList_escape (text : String) : (escape text).toList = text.toList.flatMap escapedChar := by
  simp only [escape, toList_replaceChar, List.flatMap_assoc]
  congr 1
  ext c : 1
  unfold escapedChar
  by_cases hamp : c = '&'
  · subst hamp
    rfl
  by_cases hlt : c = '<'
  · subst hlt
    rfl
  simp [hamp, hlt]

/-! ## The way back -/

theorem unescape_cons {c : Char} (h : c ≠ '&') (rest : List Char) :
    unescape (c :: rest) = c :: unescape rest := by
  rw [unescape.eq_def]
  split <;> simp_all

theorem unescape_escapedChar (c : Char) (rest : List Char) :
    unescape (escapedChar c ++ rest) = c :: unescape rest := by
  unfold escapedChar
  split
  next hamp => rw [hamp]; rfl
  next hamp =>
    split
    next hlt => rw [hlt]; rfl
    next =>
      split
      next hgt => rw [hgt]; rfl
      next => exact unescape_cons hamp rest

theorem unescape_escape (text : String) : unescape (escape text).toList = text.toList := by
  rw [toList_escape]
  induction text.toList with
  | nil => rfl
  | cons c cs ih => rw [List.flatMap_cons, unescape_escapedChar, ih]

/-! ## What an escaped text is made of -/

theorem not_mem_escapedChar (c : Char) : '<' ∉ escapedChar c ∧ '>' ∉ escapedChar c := by
  unfold escapedChar
  split
  · decide
  · split
    · decide
    next hlt =>
      split
      · decide
      next hgt => exact ⟨by simpa using Ne.symm hlt, by simpa using Ne.symm hgt⟩

theorem not_mem_escape (text : String) :
    '<' ∉ (escape text).toList ∧ '>' ∉ (escape text).toList := by
  simp only [toList_escape, List.mem_flatMap, not_exists, not_and]
  exact ⟨fun c _ => (not_mem_escapedChar c).1, fun c _ => (not_mem_escapedChar c).2⟩

/-- Every ampersand begins one of the three entities. -/
def OnlyEntities (cs : List Char) : Prop :=
  ∀ before after, cs = before ++ '&' :: after →
    ∃ entity ∈ ["amp;", "lt;", "gt;"], entity.toList <+: after

theorem onlyEntities_of_not_mem {cs : List Char} (h : '&' ∉ cs) : OnlyEntities cs := by
  rintro before after rfl
  exact absurd (List.mem_append_right before List.mem_cons_self) h

theorem OnlyEntities.append {a b : List Char} (ha : OnlyEntities a) (hb : OnlyEntities b) :
    OnlyEntities (a ++ b) := by
  intro before after hsplit
  -- The ampersand stands in the second list, or else in the first one.
  rcases List.append_eq_append_iff.1 hsplit with ⟨middle, rfl, hb'⟩ | ⟨middle, ha', hafter⟩
  · exact hb middle after hb'
  · cases middle with
    | nil => exact hb [] after (by simpa using hafter.symm)
    | cons c middle =>
      obtain ⟨rfl, rfl⟩ : c = '&' ∧ after = middle ++ b := by simpa [eq_comm] using hafter
      obtain ⟨entity, hmem, hentity⟩ := ha before middle ha'
      exact ⟨entity, hmem, hentity.trans (List.prefix_append middle b)⟩

theorem onlyEntities_entity (entity : String) (h : entity ∈ ["amp;", "lt;", "gt;"]) :
    OnlyEntities ('&' :: entity.toList) := by
  intro before after hsplit
  cases before with
  | nil =>
    obtain rfl : entity.toList = after := by simpa using hsplit
    exact ⟨entity, h, List.prefix_rfl⟩
  | cons c before =>
    have hplain : ∀ entity ∈ ["amp;", "lt;", "gt;"], '&' ∉ entity.toList := by decide
    obtain ⟨-, hentity⟩ : '&' = c ∧ entity.toList = before ++ '&' :: after := by simpa using hsplit
    refine absurd ?_ (hplain entity h)
    rw [hentity]
    exact List.mem_append_right before List.mem_cons_self

theorem onlyEntities_escapedChar (c : Char) : OnlyEntities (escapedChar c) := by
  unfold escapedChar
  split
  · exact onlyEntities_entity "amp;" (by decide)
  next hamp =>
    split
    · exact onlyEntities_entity "lt;" (by decide)
    · split
      · exact onlyEntities_entity "gt;" (by decide)
      · exact onlyEntities_of_not_mem (by simpa using Ne.symm hamp)

theorem onlyEntities_escape (text : String) : OnlyEntities (escape text).toList := by
  rw [toList_escape]
  induction text.toList with
  | nil => exact onlyEntities_of_not_mem List.not_mem_nil
  | cons c cs ih => exact (onlyEntities_escapedChar c).append ih

end PoolWatch.Svg
