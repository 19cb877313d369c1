import Mathlib.Algebra.GroupWithZero.Nat
import PoolWatch.Proofs.Svg.Markup
/-!
# Documents of marks

The texts of numbers and colours are plain, so a document is read back as the tags of its marks
with their texts, in order.  Its angle brackets are those of the tags, and its ampersands those of
the entities; no text can add any.
-/

namespace PoolWatch.Svg

open PoolWatch.Numeric

/-! ## Texts of numbers and colours -/

theorem IsPlain.of_subset {a b : List Char} (h : IsPlain b) (hsubset : a ⊆ b) : IsPlain a :=
  fun c hc => h c (hsubset hc)

theorem isPlain_digitChar (n : Nat) : n.digitChar ∉ '"' :: markup := by
  by_cases h : n < 16
  · have hall : ∀ m < 16, m.digitChar ∉ '"' :: markup := by decide
    exact hall n h
  · have hstar : n.digitChar = '*' := by
      unfold Nat.digitChar
      simp (disch := omega) only [if_neg]
    rw [hstar]
    decide

theorem isPlain_toDigitsCore (base fuel n : Nat) {digits : List Char} (h : IsPlain digits) :
    IsPlain (Nat.toDigitsCore base fuel n digits) := by
  induction fuel generalizing n digits with
  | zero => exact h
  | succ fuel ih =>
    have hdigit : IsPlain ((n % base).digitChar :: digits) :=
      isPlain_cons.2 ⟨isPlain_digitChar _, h⟩
    rw [Nat.toDigitsCore]
    split
    · exact hdigit
    · exact ih _ hdigit

theorem isPlain_toDigits (base n : Nat) : IsPlain (Nat.toDigits base n) :=
  isPlain_toDigitsCore base _ n isPlain_nil

theorem isPlain_toString (n : Nat) : IsPlain (toString n).toList := by
  rw [Nat.toString_eq_repr, Nat.toList_repr]
  exact isPlain_toDigits 10 n

theorem isPlain_zeros (n : Nat) : IsPlain (Decimal.zeros n).toList := by
  rw [Decimal.zeros, String.toList_ofList]
  intro c hc
  rw [List.eq_of_mem_replicate hc]
  decide

theorem isPlain_sign (negative : Bool) : IsPlain (Decimal.sign negative).toList := by
  cases negative <;> decide

theorem isPlain_positional (d : Decimal.Digits) : IsPlain (Decimal.positional d).toList := by
  have htext := isPlain_toString d.digits
  unfold Decimal.positional
  dsimp only
  split
  · rw [String.toList_append, isPlain_append]
    exact ⟨htext, isPlain_zeros _⟩
  · split
    · simp only [String.toList_append, String.toList_ofList, isPlain_append]
      exact ⟨⟨htext.of_subset (List.take_subset _ _), by decide⟩,
        htext.of_subset (List.drop_subset _ _)⟩
    · simp only [String.toList_append, isPlain_append]
      exact ⟨⟨by decide, isPlain_zeros _⟩, htext⟩

theorem isPlain_pointed (places units : Nat) :
    IsPlain (Decimal.pointed places units).toList := by
  have htext : IsPlain (Decimal.zeros (places + 1 - (toString units).length) ++
      toString units).toList := by
    rw [String.toList_append, isPlain_append]
    exact ⟨isPlain_zeros _, isPlain_toString units⟩
  unfold Decimal.pointed
  dsimp only
  generalize Decimal.zeros _ ++ toString units = text at htext ⊢
  split
  · exact htext
  · simp only [String.toList_append, String.toList_ofList, isPlain_append]
    exact ⟨⟨htext.of_subset (List.take_subset _ _), by decide⟩,
      htext.of_subset (List.drop_subset _ _)⟩

theorem isPlain_measure (x : Float32) : IsPlain (measure x).toList := by
  unfold measure Decimal.plain
  split
  · decide
  · rw [String.toList_append, isPlain_append]
    exact ⟨isPlain_sign _, by decide⟩
  · rw [String.toList_append, isPlain_append]
    refine ⟨isPlain_sign _, ?_⟩
    split
    · decide
    · exact isPlain_positional _

theorem isPlain_coordinate (x : Float32) : IsPlain (coordinate x).toList := by
  unfold coordinate Decimal.fixed
  split
  · decide
  · rw [String.toList_append, isPlain_append]
    exact ⟨isPlain_sign _, by decide⟩
  · rw [String.toList_append, isPlain_append]
    exact ⟨isPlain_sign _, isPlain_pointed _ _⟩

theorem isPlain_octetText (octet : UInt8) : IsPlain (Color.octetText octet).toList := by
  rw [Color.octetText, String.toList_append, isPlain_append, Text.hexadecimal,
    String.toList_ofList]
  refine ⟨?_, isPlain_toDigits 16 _⟩
  split <;> decide

theorem isPlain_hex (c : Color) : IsPlain c.hex.toList := by
  simp only [Color.hex, String.toList_append, isPlain_append]
  exact ⟨⟨⟨by decide, isPlain_octetText _⟩, isPlain_octetText _⟩, isPlain_octetText _⟩

theorem isPlain_pair (p : Pos) : IsPlain (pair p).toList := by
  simp only [pair, String.toList_append, isPlain_append]
  exact ⟨⟨isPlain_coordinate _, by decide⟩, isPlain_coordinate _⟩

theorem isPlain_intercalate {separator : String} (hseparator : IsPlain separator.toList)
    {values : List String} (h : ∀ value ∈ values, IsPlain value.toList) :
    IsPlain (separator.intercalate values).toList := by
  rw [String.toList_intercalate]
  induction values with
  | nil => exact isPlain_nil
  | cons value values ih =>
    obtain ⟨hvalue, hrest⟩ := List.forall_mem_cons.1 h
    cases values with
    | nil => simpa [List.intercalate] using hvalue
    | cons next values =>
      rw [List.map_cons, List.map_cons, List.intercalate_cons_cons, isPlain_append, isPlain_append]
      exact ⟨⟨hvalue, hseparator⟩, ih hrest⟩

/-! ## Pieces of a document -/

def startPiece (size : Size) : Piece where
  tag := .opening "svg" [("xmlns", "http://www.w3.org/2000/svg"), ("width", measure size.width),
    ("height", measure size.height),
    ("viewBox", "0 0 " ++ measure size.width ++ " " ++ measure size.height),
    ("font-family", "sans-serif"), ("font-size", "11")]
  text := "\n"

def endPiece : Piece := ⟨.closing "svg", "\n"⟩

/-- A polyline without points has no tag, a text has one before it and one after it. -/
def pieces : Mark → List Piece
  | .polyline [] _ _ => []
  | .polyline (p :: ps) color width =>
    [⟨.empty "polyline" [("fill", "none"), ("stroke", color.hex), ("stroke-width", measure width),
      ("points", " ".intercalate ((p :: ps).map pair))], "\n"⟩]
  | .line start stop color width =>
    [⟨.empty "line" [("x1", coordinate start.x), ("y1", coordinate start.y),
      ("x2", coordinate stop.x), ("y2", coordinate stop.y), ("stroke", color.hex),
      ("stroke-width", measure width)], "\n"⟩]
  | .text p text anchor color =>
    [⟨.opening "text" [("x", coordinate p.x), ("y", coordinate p.y), ("fill", color.hex),
      ("text-anchor", (alignment anchor).1), ("dominant-baseline", (alignment anchor).2)], text⟩,
      ⟨.closing "text", "\n"⟩]

def documentPieces (size : Size) (marks : List Mark) : List Piece :=
  startPiece size :: (marks.flatMap pieces ++ [endPiece])

@[simp] theorem toList_attr (name value : String) :
    (attr name value).toList = writeAttribute (name, value) := by
  simp [attr, writeAttribute]

theorem toList_newline : (escape "\n").toList = ['\n'] := by decide

theorem toList_startTag (size : Size) : (startTag size).toList = (startPiece size).write := by
  simp [startTag, startPiece, Piece.write, Piece.body, Tag.inside, toList_newline]

theorem toList_element (m : Mark) : (element m).toList = (pieces m).flatMap Piece.write := by
  cases m with
  | polyline points color width =>
    cases points with
    | nil => rfl
    | cons p ps => simp [element, pieces, Piece.write, Piece.body, Tag.inside, toList_newline]
  | line start stop color width =>
    simp [element, pieces, Piece.write, Piece.body, Tag.inside, toList_newline]
  | text p text anchor color =>
    simp [element, pieces, Piece.write, Piece.body, Tag.inside, toList_newline]

theorem document_eq_write (size : Size) (marks : List Mark) :
    document size marks = String.ofList ((documentPieces size marks).flatMap Piece.write) := by
  have helements : (marks.map element).flatMap String.toList =
      (marks.flatMap pieces).flatMap Piece.write := by
    rw [List.flatMap_map, List.flatMap_assoc]
    congr 1
    ext m : 1
    exact toList_element m
  have hend : endPiece.write = "</svg>\n".toList := by decide
  rw [← String.toList_inj, String.toList_ofList, document, String.toList_append,
    String.toList_append, toList_startTag, String.toList_join, helements, documentPieces,
    List.flatMap_cons, List.flatMap_append, List.flatMap_singleton, hend, List.append_assoc]

/-! ## Their tags are plain -/

theorem areAttributes_nil : AreAttributes [] := fun _ h => absurd h List.not_mem_nil

theorem AreAttributes.cons {name value : String} {attributes : List (String × String)}
    (hname : IsName name) (hvalue : IsPlain value.toList) (h : AreAttributes attributes) :
    AreAttributes ((name, value) :: attributes) :=
  List.forall_mem_cons.2 ⟨⟨hname, hvalue⟩, h⟩

theorem isPlain_startPiece (size : Size) : (startPiece size).tag.IsPlain := by
  have hview : IsPlain ("0 0 " ++ measure size.width ++ " " ++ measure size.height).toList := by
    simp only [String.toList_append, isPlain_append]
    exact ⟨⟨⟨by decide, isPlain_measure _⟩, by decide⟩, isPlain_measure _⟩
  refine ⟨by decide, ?_⟩
  apply AreAttributes.cons (by decide) (by decide)
  apply AreAttributes.cons (by decide) (isPlain_measure _)
  apply AreAttributes.cons (by decide) (isPlain_measure _)
  apply AreAttributes.cons (by decide) hview
  apply AreAttributes.cons (by decide) (by decide)
  exact AreAttributes.cons (by decide) (by decide) areAttributes_nil

theorem isPlain_endPiece : endPiece.tag.IsPlain := by
  change IsName "svg"
  decide

theorem isPlain_pieces (m : Mark) : ∀ p ∈ pieces m, p.tag.IsPlain := by
  cases m with
  | polyline points color width =>
    cases points with
    | nil => exact fun p hp => absurd hp List.not_mem_nil
    | cons p ps =>
      have hpoints : IsPlain (" ".intercalate ((p :: ps).map pair)).toList :=
        isPlain_intercalate (by decide) (List.forall_mem_map.2 fun p _ => isPlain_pair p)
      rw [pieces, List.forall_mem_singleton]
      refine ⟨by decide, ?_⟩
      apply AreAttributes.cons (by decide) (by decide)
      apply AreAttributes.cons (by decide) (isPlain_hex _)
      apply AreAttributes.cons (by decide) (isPlain_measure _)
      exact AreAttributes.cons (by decide) hpoints areAttributes_nil
  | line start stop color width =>
    rw [pieces, List.forall_mem_singleton]
    refine ⟨by decide, ?_⟩
    apply AreAttributes.cons (by decide) (isPlain_coordinate _)
    apply AreAttributes.cons (by decide) (isPlain_coordinate _)
    apply AreAttributes.cons (by decide) (isPlain_coordinate _)
    apply AreAttributes.cons (by decide) (isPlain_coordinate _)
    apply AreAttributes.cons (by decide) (isPlain_hex _)
    exact AreAttributes.cons (by decide) (isPlain_measure _) areAttributes_nil
  | text p text anchor color =>
    have halignment :
        IsPlain (alignment anchor).1.toList ∧ IsPlain (alignment anchor).2.toList := by
      cases anchor <;> decide
    have hclosing : IsName "text" := by decide
    rw [pieces, List.forall_mem_cons, List.forall_mem_singleton]
    refine ⟨⟨hclosing, ?_⟩, hclosing⟩
    apply AreAttributes.cons (by decide) (isPlain_coordinate _)
    apply AreAttributes.cons (by decide) (isPlain_coordinate _)
    apply AreAttributes.cons (by decide) (isPlain_hex _)
    apply AreAttributes.cons (by decide) halignment.1
    exact AreAttributes.cons (by decide) halignment.2 areAttributes_nil

theorem isPlain_documentPieces (size : Size) (marks : List Mark) :
    ∀ p ∈ documentPieces size marks, p.tag.IsPlain := by
  rw [documentPieces, List.forall_mem_cons, List.forall_mem_append, List.forall_mem_singleton]
  refine ⟨isPlain_startPiece size, ?_, isPlain_endPiece⟩
  intro p hp
  obtain ⟨m, -, hp⟩ := List.mem_flatMap.1 hp
  exact isPlain_pieces m p hp

theorem read_document (size : Size) (marks : List Mark) :
    read (document size marks) = some (documentPieces size marks) := by
  rw [document_eq_write]
  exact read_write (isPlain_documentPieces size marks)

/-! ## What depends on the texts, and what does not -/

/-- The element that a mark has, if it has one. -/
inductive Kind where
  | nothing
  | polyline
  | line
  | text
  deriving DecidableEq

def kind : Mark → Kind
  | .polyline [] _ _ => .nothing
  | .polyline _ _ _ => .polyline
  | .line _ _ _ _ => .line
  | .text _ _ _ _ => .text

def text? : Mark → Option String
  | .text _ text _ _ => some text
  | _ => none

def Kind.tags : Kind → Nat
  | .nothing => 0
  | .polyline | .line => 1
  | .text => 2

theorem length_pieces (m : Mark) : (pieces m).length = (kind m).tags := by
  cases m with
  | polyline points color width => cases points <;> rfl
  | line start stop color width => rfl
  | text p text anchor color => rfl

theorem brackets_document (size : Size) (marks : List Mark) :
    brackets (document size marks) =
      (List.replicate (((marks.map kind).map Kind.tags).sum + 2) ['<', '>']).flatten := by
  have hlength : (marks.flatMap pieces).length = ((marks.map kind).map Kind.tags).sum := by
    rw [List.length_flatMap, List.map_map]
    congr 1
    exact List.map_congr_left fun m _ => length_pieces m
  rw [document_eq_write, brackets_write (isPlain_documentPieces size marks), documentPieces,
    List.length_cons, List.length_append, List.length_singleton, hlength]

def Piece.text? (p : Piece) : Option String :=
  match p.tag with
  | .opening "text" _ => some p.text
  | _ => none

theorem filterMap_pieces (m : Mark) : (pieces m).filterMap Piece.text? = (text? m).toList := by
  cases m with
  | polyline points color width => cases points <;> rfl
  | line start stop color width => rfl
  | text p text anchor color => rfl

theorem filterMap_documentPieces (size : Size) (marks : List Mark) :
    (documentPieces size marks).filterMap Piece.text? = marks.filterMap text? := by
  have hmarks : (marks.flatMap pieces).filterMap Piece.text? = marks.filterMap text? := by
    induction marks with
    | nil => rfl
    | cons m marks ih =>
      rw [List.flatMap_cons, List.filterMap_append, filterMap_pieces, ih]
      cases h : text? m with
      | none => rw [List.filterMap_cons_none h, Option.toList_none, List.nil_append]
      | some text => rw [List.filterMap_cons_some h, Option.toList_some, List.singleton_append]
  have hstart : (startPiece size).text? = none := rfl
  have hend : [endPiece].filterMap Piece.text? = [] := rfl
  rw [documentPieces, List.filterMap_cons, hstart, List.filterMap_append, hmarks, hend,
    List.append_nil]

theorem onlyEntities_element (m : Mark) : OnlyEntities (element m).toList := by
  rw [toList_element]
  have hplain := isPlain_pieces m
  generalize pieces m = ps at hplain
  induction ps with
  | nil => exact onlyEntities_of_not_mem List.not_mem_nil
  | cons p ps ih =>
    obtain ⟨hp, hrest⟩ := List.forall_mem_cons.1 hplain
    exact (onlyEntities_write hp).append (ih hrest)

/-- A document consists of the start tag, the elements of the marks in order and the end tag, and
is read back as these.  Its angle brackets depend on the kinds of the marks only.  In the element of
a text the ampersands are those of the entities, and these stand for the text itself; documents with
different texts are different. -/
theorem document_reads_back (size : Size) (marks : List Mark) :
    document size marks = String.ofList ((documentPieces size marks).flatMap Piece.write) ∧
      read (document size marks) = some (startPiece size :: (marks.flatMap pieces ++ [endPiece])) ∧
      (∀ (size' : Size) (marks' : List Mark), marks.map kind = marks'.map kind →
        brackets (document size marks) = brackets (document size' marks')) ∧
      (∀ m ∈ marks, OnlyEntities (element m).toList) ∧
      (∀ text, unescape (escape text).toList = text.toList) ∧
      ∀ (size' : Size) (marks' : List Mark), document size marks = document size' marks' →
        marks.filterMap text? = marks'.filterMap text? := by
  refine ⟨document_eq_write size marks, read_document size marks, ?_, ?_, unescape_escape, ?_⟩
  · intro size' marks' hkind
    rw [brackets_document, brackets_document, hkind]
  · intro m _
    exact onlyEntities_element m
  · intro size' marks' hdocument
    have hpieces : documentPieces size marks = documentPieces size' marks' := by
      rw [← Option.some_inj, ← read_document, ← read_document, hdocument]
    rw [← filterMap_documentPieces size, hpieces, filterMap_documentPieces]

theorem document_reads_back_of_markup :
    let shown (text : String) : List Mark :=
      [.polyline [] Color.axis 1, .text ⟨0, 0⟩ text .topCenter Color.axis]
    brackets (document ⟨0, 0⟩ (shown "</text>&lt;")) = brackets (document ⟨0, 0⟩ (shown "")) ∧
      OnlyEntities (element (.text ⟨0, 0⟩ "</text>&lt;" .topCenter Color.axis)).toList ∧
      document ⟨0, 0⟩ (shown "</text>&lt;") ≠ document ⟨0, 0⟩ (shown "") := by
  intro shown
  obtain ⟨-, -, hbrackets, hentities, -, htexts⟩ :=
    document_reads_back ⟨0, 0⟩ (shown "</text>&lt;")
  refine ⟨hbrackets _ _ rfl, hentities _ (List.mem_cons_of_mem _ List.mem_cons_self), ?_⟩
  intro hdocument
  exact absurd (htexts _ _ hdocument) (by decide)

end PoolWatch.Svg
