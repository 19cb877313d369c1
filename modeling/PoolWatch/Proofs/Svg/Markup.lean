import PoolWatch.Proofs.Svg.Escaping
/-!
# Mark-up

A document is a list of pieces, each of them a tag and the text after it.  It is read by cutting
it at the angle brackets, wherever they stand, and a tag by cutting it at the quotes.  Pieces whose
names and values are plain are read back as they were written, whatever their texts are.
-/

namespace PoolWatch.Svg

/-- A tag with its name and its attributes, or the name alone if it ends an element. -/
inductive Tag where
  | opening (name : String) (attributes : List (String × String))
  | closing (name : String)
  | empty (name : String) (attributes : List (String × String))
  deriving DecidableEq

/-- A tag and the text after it, up to the next tag. -/
structure Piece where
  tag : Tag
  text : String
  deriving DecidableEq

/-! ## Writing -/

def writeAttribute (a : String × String) : List Char :=
  ' ' :: a.1.toList ++ '=' :: '"' :: a.2.toList ++ ['"']

def Tag.inside : Tag → List Char
  | .opening name attributes => name.toList ++ attributes.flatMap writeAttribute
  | .closing name => '/' :: name.toList
  | .empty name attributes => name.toList ++ attributes.flatMap writeAttribute ++ ['/']

def Piece.body (p : Piece) : List Char := p.tag.inside ++ '>' :: (escape p.text).toList

def Piece.write (p : Piece) : List Char := '<' :: p.body

/-! ## Reading -/

def readKey : List Char → Option String
  | ' ' :: key => if key.getLast? = some '=' then some (String.ofList key.dropLast) else none
  | _ => none

/-- Attributes that have been cut at the quotes: names and values by turns, and nothing after the
last quote. -/
def readAttributes : List (List Char) → Option (List (String × String))
  | [[]] => some []
  | key :: value :: rest => do
    let name ← readKey key
    let attributes ← readAttributes rest
    return (name, String.ofList value) :: attributes
  | _ => none

def readNamed (cs : List Char) : Option (String × List (String × String)) :=
  (readAttributes ((cs.dropWhile (· ≠ ' ')).splitOn '"')).map fun attributes =>
    (String.ofList (cs.takeWhile (· ≠ ' ')), attributes)

/-- A slash at the head ends an element, and one at the end makes it empty. -/
def readTag (inside : List Char) : Option Tag :=
  if inside.head? = some '/' then some (.closing (String.ofList inside.tail))
  else if inside.getLast? = some '/' then
    (readNamed inside.dropLast).map fun (name, attributes) => .empty name attributes
  else (readNamed inside).map fun (name, attributes) => .opening name attributes

def readPiece (body : List Char) : Option Piece :=
  match body.splitOn '>' with
  | [inside, text] => (readTag inside).map fun tag => ⟨tag, String.ofList (unescape text)⟩
  | _ => none

/-- The pieces of a document that begins with a tag. -/
def read (document : String) : Option (List Piece) :=
  match document.toList.splitOn '<' with
  | [] :: bodies => bodies.mapM readPiece
  | _ => none

/-! ## Plain names and values -/

def markup : List Char := ['<', '>', '&']

def IsName (s : String) : Prop := s ≠ "" ∧ ∀ c ∈ s.toList, c.isAlphanum = true ∨ c = '-'

instance (s : String) : Decidable (IsName s) :=
  have : Decidable (∀ c ∈ s.toList, c.isAlphanum = true ∨ c = '-') := List.decidableBAll _ _
  inferInstanceAs (Decidable (_ ∧ _))

/-- None of the characters of mark-up, and no quote. -/
def IsPlain (cs : List Char) : Prop := ∀ c ∈ cs, c ∉ '"' :: markup

instance (cs : List Char) : Decidable (IsPlain cs) := List.decidableBAll _ cs

def AreAttributes (attributes : List (String × String)) : Prop :=
  ∀ a ∈ attributes, IsName a.1 ∧ IsPlain a.2.toList

def Tag.IsPlain : Tag → Prop
  | .closing name => IsName name
  | .opening name attributes | .empty name attributes => IsName name ∧ AreAttributes attributes

@[simp] theorem isPlain_nil : IsPlain [] := fun _ h => absurd h List.not_mem_nil

@[simp] theorem isPlain_append {a b : List Char} : IsPlain (a ++ b) ↔ IsPlain a ∧ IsPlain b :=
  List.forall_mem_append

@[simp] theorem isPlain_cons {c : Char} {cs : List Char} :
    IsPlain (c :: cs) ↔ c ∉ '"' :: markup ∧ IsPlain cs :=
  List.forall_mem_cons

theorem IsPlain.quote_not_mem {cs : List Char} (h : IsPlain cs) : '"' ∉ cs :=
  fun hmem => h '"' hmem List.mem_cons_self

theorem IsPlain.not_mem {cs : List Char} (h : IsPlain cs) {c : Char} (hc : c ∈ markup) : c ∉ cs :=
  fun hmem => h c hmem (List.mem_cons_of_mem _ hc)

theorem IsName.not_mem {s : String} (h : IsName s) {c : Char}
    (hc : c ∈ ' ' :: '/' :: '"' :: markup) : c ∉ s.toList := by
  intro hmem
  have hnone : ∀ d ∈ ' ' :: '/' :: '"' :: markup, ¬(d.isAlphanum = true ∨ d = '-') := by
    simp [markup]
  exact hnone c hc (h.2 c hmem)

theorem IsName.isPlain {s : String} (h : IsName s) : IsPlain s.toList :=
  fun _ hmem hc => h.not_mem (List.mem_cons_of_mem _ (List.mem_cons_of_mem _ hc)) hmem

/-! ## Cuts -/

theorem splitOn_append_cons {c : Char} {a : List Char} (h : c ∉ a) (b : List Char) :
    (a ++ c :: b).splitOn c = a :: b.splitOn c := by
  have hnone : ∀ d ∈ a, (d == c) = false := by
    intro d hd
    rw [beq_eq_false_iff_ne]
    rintro rfl
    exact h hd
  exact List.splitOnP_append_cons_of_forall_mem hnone c (beq_self_eq_true c) b

theorem readKey_name (name : String) : readKey (' ' :: name.toList ++ ['=']) = some name := by
  simp [readKey]

theorem splitOn_writeAttribute {a : String × String} (hname : IsName a.1)
    (hvalue : IsPlain a.2.toList)
    (rest : List Char) :
    (writeAttribute a ++ rest).splitOn '"' =
      (' ' :: a.1.toList ++ ['=']) :: a.2.toList :: rest.splitOn '"' := by
  have hkey : '"' ∉ ' ' :: a.1.toList ++ ['='] := by
    simpa using hname.not_mem (c := '"') (by decide)
  have hsplit : writeAttribute a ++ rest =
      (' ' :: a.1.toList ++ ['=']) ++ '"' :: (a.2.toList ++ '"' :: rest) := by
    simp [writeAttribute]
  rw [hsplit, splitOn_append_cons hkey, splitOn_append_cons hvalue.quote_not_mem]

theorem readAttributes_write {attributes : List (String × String)} (h : AreAttributes attributes) :
    readAttributes ((attributes.flatMap writeAttribute).splitOn '"') = some attributes := by
  induction attributes with
  | nil => rfl
  | cons a attributes ih =>
    obtain ⟨⟨hname, hvalue⟩, hrest⟩ := List.forall_mem_cons.1 h
    rw [List.flatMap_cons, splitOn_writeAttribute hname hvalue, readAttributes, readKey_name,
      ih hrest, String.ofList_toList]
    rfl

theorem readNamed_write {name : String} {attributes : List (String × String)} (hname : IsName name)
    (h : AreAttributes attributes) :
    readNamed (name.toList ++ attributes.flatMap writeAttribute) = some (name, attributes) := by
  have hword : ∀ c ∈ name.toList, decide (c ≠ ' ') = true := by
    intro c hc
    rw [decide_eq_true_eq]
    rintro rfl
    exact hname.not_mem (by decide) hc
  have hblank : (attributes.flatMap writeAttribute).takeWhile (· ≠ ' ') = [] ∧
      (attributes.flatMap writeAttribute).dropWhile (· ≠ ' ') =
        attributes.flatMap writeAttribute := by
    cases attributes <;> simp [writeAttribute]
  rw [readNamed, List.dropWhile_append_of_pos hword, List.takeWhile_append_of_pos hword, hblank.1,
    hblank.2, readAttributes_write h, List.append_nil, String.ofList_toList]
  rfl

/-! ## Tags -/

section

variable {name : String} {attributes : List (String × String)}

theorem head?_named (hname : IsName name) (rest : List Char) :
    (name.toList ++ rest).head? ≠ some '/' := by
  have hslash : '/' ∉ name.toList := hname.not_mem (by decide)
  cases hcs : name.toList with
  | nil => exact absurd (String.toList_eq_nil_iff.1 hcs) hname.1
  | cons c cs =>
    rw [hcs] at hslash
    rintro h
    cases h
    exact hslash List.mem_cons_self

theorem getLast?_named (hname : IsName name) :
    (name.toList ++ attributes.flatMap writeAttribute).getLast? ≠ some '/' := by
  rcases attributes.eq_nil_or_concat with rfl | ⟨before, a, rfl⟩
  · intro h
    rw [List.flatMap_nil, List.append_nil] at h
    exact hname.not_mem (by decide) (List.mem_of_getLast? h)
  · have hquote : (writeAttribute a).getLast? = some '"' := List.getLast?_concat
    simp [hquote]

theorem readTag_inside {tag : Tag} (h : tag.IsPlain) : readTag tag.inside = some tag := by
  cases tag with
  | closing name => simp [readTag, Tag.inside]
  | opening name attributes =>
    obtain ⟨hname, hattributes⟩ := h
    rw [readTag, Tag.inside, if_neg (head?_named hname _), if_neg (getLast?_named hname),
      readNamed_write hname hattributes]
    rfl
  | empty name attributes =>
    obtain ⟨hname, hattributes⟩ := h
    rw [readTag, Tag.inside, List.append_assoc, if_neg (head?_named hname _), ← List.append_assoc,
      if_pos List.getLast?_concat, List.dropLast_concat, readNamed_write hname hattributes]
    rfl

theorem not_mem_attributes (h : AreAttributes attributes) {c : Char} (hc : c ∈ markup) :
    c ∉ attributes.flatMap writeAttribute := by
  intro hmem
  obtain ⟨a, ha, hmem⟩ := List.mem_flatMap.1 hmem
  have hkey := (h a ha).1.isPlain.not_mem hc
  have hvalue := (h a ha).2.not_mem hc
  have hsigns : ∀ c ∈ markup, c ∉ [' ', '=', '"'] := by simp [markup]
  have hsign := hsigns c hc
  simp_all [writeAttribute]

theorem not_mem_inside {tag : Tag} (h : tag.IsPlain) {c : Char} (hc : c ∈ markup) :
    c ∉ tag.inside := by
  have hslash : ∀ c ∈ markup, c ≠ '/' := by simp [markup]
  cases tag with
  | closing name =>
    rw [Tag.inside, List.mem_cons, not_or]
    exact ⟨hslash c hc, IsName.isPlain h |>.not_mem hc⟩
  | opening name attributes =>
    rw [Tag.inside, List.mem_append, not_or]
    exact ⟨h.1.isPlain.not_mem hc, not_mem_attributes h.2 hc⟩
  | empty name attributes =>
    rw [Tag.inside, List.mem_append, List.mem_append, not_or, not_or, List.mem_singleton]
    exact ⟨⟨h.1.isPlain.not_mem hc, not_mem_attributes h.2 hc⟩, hslash c hc⟩

end

/-! ## Pieces -/

theorem readPiece_body {p : Piece} (h : p.tag.IsPlain) : readPiece p.body = some p := by
  rw [readPiece, Piece.body, splitOn_append_cons (not_mem_inside h (by decide)),
    List.splitOn_eq_singleton (not_mem_escape p.text).2]
  dsimp only
  rw [readTag_inside h, unescape_escape, String.ofList_toList]
  rfl

theorem not_mem_body {p : Piece} (h : p.tag.IsPlain) : '<' ∉ p.body := by
  have hinside := not_mem_inside h (c := '<') (by decide)
  have hescape := (not_mem_escape p.text).1
  simp [Piece.body, hinside, hescape]

theorem splitOn_write {pieces : List Piece} (h : ∀ p ∈ pieces, p.tag.IsPlain) {before : List Char}
    (hbefore : '<' ∉ before) :
    (before ++ pieces.flatMap Piece.write).splitOn '<' = before :: pieces.map Piece.body := by
  induction pieces generalizing before with
  | nil => simpa using List.splitOn_eq_singleton hbefore
  | cons p pieces ih =>
    obtain ⟨hp, hrest⟩ := List.forall_mem_cons.1 h
    rw [List.flatMap_cons, Piece.write, List.cons_append, splitOn_append_cons hbefore,
      ih hrest (not_mem_body hp)]
    rfl

theorem mapM_readPiece {pieces : List Piece} (h : ∀ p ∈ pieces, p.tag.IsPlain) :
    (pieces.map Piece.body).mapM readPiece = some pieces := by
  induction pieces with
  | nil => rfl
  | cons p pieces ih =>
    obtain ⟨hp, hrest⟩ := List.forall_mem_cons.1 h
    rw [List.map_cons, List.mapM_cons, readPiece_body hp, ih hrest]
    rfl

/-- Pieces with plain tags are read back, whatever their texts are. -/
theorem read_write {pieces : List Piece} (h : ∀ p ∈ pieces, p.tag.IsPlain) :
    read (String.ofList (pieces.flatMap Piece.write)) = some pieces := by
  have hsplit : ([] ++ pieces.flatMap Piece.write).splitOn '<' = [] :: pieces.map Piece.body :=
    splitOn_write h List.not_mem_nil
  rw [List.nil_append] at hsplit
  rw [read, String.toList_ofList, hsplit]
  exact mapM_readPiece h

/-! ## Angle brackets and ampersands -/

def isBracket (c : Char) : Bool := c = '<' ∨ c = '>'

def brackets (document : String) : List Char := document.toList.filter isBracket

theorem filter_isBracket_eq_nil {cs : List Char} (hopen : '<' ∉ cs) (hclose : '>' ∉ cs) :
    cs.filter isBracket = [] := by
  rw [List.filter_eq_nil_iff]
  intro c hc hbracket
  obtain rfl | rfl : c = '<' ∨ c = '>' := of_decide_eq_true hbracket
  · exact hopen hc
  · exact hclose hc

theorem filter_isBracket_write {p : Piece} (h : p.tag.IsPlain) :
    p.write.filter isBracket = ['<', '>'] := by
  have hinside := filter_isBracket_eq_nil (not_mem_inside h (c := '<') (by decide))
    (not_mem_inside h (c := '>') (by decide))
  have hescape := filter_isBracket_eq_nil (not_mem_escape p.text).1 (not_mem_escape p.text).2
  simp [Piece.write, Piece.body, hinside, hescape, isBracket]

theorem brackets_write {pieces : List Piece} (h : ∀ p ∈ pieces, p.tag.IsPlain) :
    brackets (String.ofList (pieces.flatMap Piece.write)) =
      (List.replicate pieces.length ['<', '>']).flatten := by
  rw [brackets, String.toList_ofList]
  induction pieces with
  | nil => rfl
  | cons p pieces ih =>
    obtain ⟨hp, hrest⟩ := List.forall_mem_cons.1 h
    rw [List.flatMap_cons, List.filter_append, filter_isBracket_write hp, ih hrest,
      List.length_cons, List.replicate_succ, List.flatten_cons]

theorem onlyEntities_write {p : Piece} (h : p.tag.IsPlain) : OnlyEntities p.write := by
  have hinside : '&' ∉ '<' :: (p.tag.inside ++ ['>']) := by
    simpa using not_mem_inside h (c := '&') (by decide)
  have hwrite : p.write = '<' :: (p.tag.inside ++ ['>']) ++ (escape p.text).toList := by
    simp [Piece.write, Piece.body]
  rw [hwrite]
  exact (onlyEntities_of_not_mem hinside).append (onlyEntities_escape p.text)

end PoolWatch.Svg
