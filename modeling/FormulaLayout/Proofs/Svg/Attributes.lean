/-
The elements of a document, read back with their numbers.

A reader finds the value of an attribute by its name (`value?`), takes a line from its ends and a text from its place, its
font size and its content, or from a matrix, whose six entries stand in the order of `matrix(a, b, c, d, e, f)`
(`matrix?`). What is read of a printed element is the element with its numbers as texts (`read?_piece`); a matrix is cut
at the right places because no number has a comma or a parenthesis in its text.

- `elements_document`: behind the lines of the grid, a document is read as the elements of its commands in order.
-/
import FormulaLayout.Proofs.Decimal.Characters
import FormulaLayout.Proofs.Svg.Recovery

namespace FormulaLayout

/-! ## The values of a tag -/

namespace Text

/-- the value of an attribute of the tag that a segment begins with -/
def value? (segment : List Char) (key : String) : Option String :=
  ((attributes (segment.drop (tagName segment).length)).lookup key.toList).map (String.ofList ∘ decode)

theorem lookup_escaped (as : Attributes) (key : String) :
    ((as.map fun (name, value) => (name.toList, (escapeAttribute value).toList)).lookup key.toList).map
        (String.ofList ∘ decode) = as.lookup key := by
  induction as with
  | nil => rfl
  | cons a as ih =>
    obtain ⟨name, value⟩ := a
    by_cases hkey : key = name
    · subst hkey
      simp [decode_attribute]
    · have hkey' : (key.toList == name.toList) = false := beq_false_of_ne fun h => hkey (String.toList_inj.1 h)
      rw [List.map_cons, List.lookup_cons, List.lookup_cons, hkey', beq_false_of_ne hkey]
      exact ih

/-- the values of a tag are read as they were before they were escaped -/
theorem value?_render {name : String} {as : Attributes} (hname : isPlainName name) (has : as.all (isPlainName ·.1))
    {close : List Char} (hclose : close = ['>'] ∨ close = ['/', '>']) (rest : List Char) (key : String) :
    value? (name.toList ++ as.render.toList ++ (close ++ rest)) key = as.lookup key := by
  have htag : tagName (name.toList ++ as.render.toList ++ (close ++ rest)) = name.toList := by
    rcases hclose with rfl | rfl
    · exact tagName_render hname as (.inr rfl) rest
    · exact tagName_render hname as (.inl rfl) ('>' :: rest)
  rw [value?, htag, List.append_assoc, List.drop_left, attributes_render has (attributes_end hclose rest), lookup_escaped]

end Text

/-! ## The elements -/

section

variable {α β : Type}

/-- the point with other numbers -/
def Point.map (f : α → β) (p : Point α) : Point β :=
  ⟨f p.x, f p.y⟩

/-- the transform with other numbers -/
def Transform.map (f : α → β) (t : Transform α) : Transform β :=
  ⟨f t.a, f t.b, f t.c, f t.d, f t.e, f t.f⟩

/-- the element with other numbers -/
def Svg.Element.map (f : α → β) : Element α → Element β
  | plainText x baseline fontSize content => .plainText (f x) (f baseline) (f fontSize) content
  | mappedText fontSize matrix content => .mappedText (f fontSize) (matrix.map f) content
  | line start finish strokeWidth => .line (start.map f) (finish.map f) (f strokeWidth)

end

namespace Svg

open Text (Piece Attributes tagName behindTag segments decode escapeContent value?)

/-- the entries of a matrix in their order -/
def matrix? (text : String) : Option (Transform String) :=
  match text.toList with
  | 'm' :: 'a' :: 't' :: 'r' :: 'i' :: 'x' :: '(' :: entries =>
    match entries.splitOn ',' with
    | [a, b, c, d, e, f] =>
      some ⟨.ofList a, .ofList b, .ofList c, .ofList d, .ofList e, .ofList (f.takeWhile (· != ')'))⟩
    | _ => none
  | _ => none

/-- the element that a segment begins with, and its numbers as texts; text with a matrix stands at the origin -/
def Element.read? (segment : List Char) : Option (Element String) :=
  let value := value? segment
  let content := String.ofList (decode (behindTag none segment))
  if tagName segment = "line".toList then do
    return .line ⟨← value "x1", ← value "y1"⟩ ⟨← value "x2", ← value "y2"⟩ (← value "stroke-width")
  else if tagName segment = "text".toList then
    match value "transform" with
    | none => do return .plainText (← value "x") (← value "y") (← value "font-size") content
    | some transform => do
      guard (value "x" = some "0" ∧ value "y" = some "0")
      return .mappedText (← value "font-size") (← matrix? transform) content
  else none

/-- entries without commas and parentheses in their texts are read in the order in which they stand -/
theorem matrix?_printed (m : Transform String)
    (h : ∀ entry ∈ [m.a, m.b, m.c, m.d, m.e, m.f], ',' ∉ entry.toList ∧ ')' ∉ entry.toList) :
    matrix? ("matrix(" ++ ",".intercalate [m.a, m.b, m.c, m.d, m.e, m.f] ++ ")") = some m := by
  obtain ⟨a, b, c, d, e, f⟩ := m
  simp only [List.forall_mem_cons] at h
  have hsplit : ([','].intercalate [a.toList, b.toList, c.toList, d.toList, e.toList, f.toList ++ [')']]).splitOn ',' =
      [a.toList, b.toList, c.toList, d.toList, e.toList, f.toList ++ [')']] :=
    List.splitOn_intercalate ',' (by simp [h]) (by simp)
  have hentries : ("matrix(" ++ ",".intercalate [a, b, c, d, e, f] ++ ")").toList =
      'm' :: 'a' :: 't' :: 'r' :: 'i' :: 'x' :: '(' ::
        [','].intercalate [a.toList, b.toList, c.toList, d.toList, e.toList, f.toList ++ [')']] := by
    simp [List.intercalate]
  have hlast : (f.toList ++ [')']).takeWhile (· != ')') = f.toList := by
    have hf : ∀ c ∈ f.toList, (c != ')') = true := fun c hc => bne_iff_ne.2 fun heq => h.2.2.2.2.2.1.2 (heq ▸ hc)
    rw [List.takeWhile_append_of_pos hf]
    simp
  rw [matrix?, hentries]
  simp only [hsplit, hlast, String.ofList_toList]

theorem matrix?_numbers (m : Transform Float32) :
    matrix? ("matrix(" ++ ",".intercalate ([m.a, m.b, m.c, m.d, m.e, m.f].map Decimal.text) ++ ")") =
      some (m.map Decimal.text) := by
  have hnumber : ∀ x : Float32, ',' ∉ (Decimal.text x).toList ∧ ')' ∉ (Decimal.text x).toList :=
    fun x => ⟨fun h => absurd (Decimal.mem_text h) (by decide), fun h => absurd (Decimal.mem_text h) (by decide)⟩
  exact matrix?_printed (m.map Decimal.text) (by simp [Transform.map, hnumber])

namespace Element

/-- the tag that ends an element is none -/
theorem read?_finish {name : String} (rest : List Char) : read? ('/' :: name.toList ++ rest) = none := by
  have hline : tagName ('/' :: (name.toList ++ rest)) ≠ "line".toList := Text.tagName_slash_ne (by decide) _
  have htext : tagName ('/' :: (name.toList ++ rest)) ≠ "text".toList := Text.tagName_slash_ne (by decide) _
  rw [List.cons_append, read?, if_neg hline, if_neg htext]

/-- what a reader makes of a line element it makes of its attributes -/
theorem empty_cases {as : Attributes} (h : (Piece.empty "line" as).isPlain) : ∃ segment,
    (Piece.empty "line" as).segments.filterMap read? = (read? segment).toList ∧
      tagName segment = "line".toList ∧ ∀ key, value? segment key = as.lookup key := by
  rw [Piece.isPlain, Bool.and_eq_true] at h
  obtain ⟨hline, hkeys⟩ := h
  refine ⟨"line".toList ++ as.render.toList ++ "/>\n".toList, ?_, ?_, fun key => ?_⟩
  · rw [Piece.segments, List.filterMap_cons]
    cases read? ("line".toList ++ as.render.toList ++ "/>\n".toList) <;> rfl
  · exact Text.tagName_render hline as (.inl rfl) _
  · exact Text.value?_render hline hkeys (.inr rfl) ['\n'] key

/-- what a reader makes of a text element it makes of its attributes and its content -/
theorem element_cases {as : Attributes} {content : String} (h : (Piece.element "text" as content).isPlain) :
    ∃ segment, (Piece.element "text" as content).segments.filterMap read? = (read? segment).toList ∧
      tagName segment = "text".toList ∧ (∀ key, value? segment key = as.lookup key) ∧
      String.ofList (decode (behindTag none segment)) = content := by
  rw [Piece.isPlain, Bool.and_eq_true] at h
  obtain ⟨htext, hkeys⟩ := h
  refine ⟨"text".toList ++ as.render.toList ++ '>' :: (escapeContent content).toList, ?_, ?_, fun key => ?_, ?_⟩
  · rw [Piece.segments, List.filterMap_cons, List.filterMap_cons, read?_finish]
    cases read? ("text".toList ++ as.render.toList ++ '>' :: (escapeContent content).toList) <;> rfl
  · exact Text.tagName_render htext as (.inr rfl) _
  · exact Text.value?_render htext hkeys (.inl rfl) _ key
  · rw [List.append_assoc, Text.behindTag_name htext, Text.behindTag_render hkeys, Text.decode_content,
      String.ofList_toList]

theorem read?_linePiece (x1 y1 x2 y2 strokeWidth : String) :
    (linePiece x1 y1 x2 y2 strokeWidth).segments.filterMap read? = [.line ⟨x1, y1⟩ ⟨x2, y2⟩ strokeWidth] := by
  obtain ⟨segment, hread, htag, hvalue⟩ := empty_cases (linePiece_plain x1 y1 x2 y2 strokeWidth)
  rw [linePiece, hread, read?]
  simp [htag, hvalue, List.lookup_cons]

/-- a printed element is read with its numbers as they were printed, each in its place -/
theorem read?_piece (e : Element Float32) : e.piece.segments.filterMap read? = [e.map Decimal.text] := by
  cases e with
  | plainText x baseline fontSize content =>
    obtain ⟨segment, hread, htag, hvalue, hcontent⟩ := element_cases (piece_plain (.plainText x baseline fontSize content))
    rw [piece, hread, read?, hcontent]
    simp [htag, hvalue, map, List.lookup_cons]
  | mappedText fontSize m content =>
    obtain ⟨segment, hread, htag, hvalue, hcontent⟩ := element_cases (piece_plain (.mappedText fontSize m content))
    have hmatrix := matrix?_numbers m
    rw [piece, hread, read?, hcontent]
    generalize "matrix(" ++ ",".intercalate ([m.a, m.b, m.c, m.d, m.e, m.f].map Decimal.text) ++ ")" = transform
      at hvalue hmatrix
    simp [htag, hvalue, map, List.lookup_cons, hmatrix]
  | line start finish strokeWidth => exact read?_linePiece ..

/-- the other tags of a document are no elements with numbers -/
theorem read?_other {p : Piece} (h : p.isPlain) (hline : p.opens? ≠ some "line") (htext : p.opens? ≠ some "text") :
    p.segments.filterMap read? = [] := by
  rw [List.filterMap_eq_nil_iff]
  intro segment hsegment
  rw [read?, if_neg (Piece.tagName_ne h (by decide) hline segment hsegment),
    if_neg (Piece.tagName_ne h (by decide) htext segment hsegment)]

end Element

/-- **The elements of a document have the numbers of their commands.** A document is read as the elements of the commands
of its drawing, in order and with each number as the text of its attribute or of its entry in the matrix; in front of
them stand lines, if there is a grid. -/
theorem elements_document (options : Options) (drawing : Drawing Float32) : ∃ grid : List (Element String),
    (segments (document options drawing).toList).filterMap Element.read? =
        grid ++ drawing.toList.map (fun c => (Element.ofCommand c).map Decimal.text) ∧
      (∀ e ∈ grid, ∃ start finish strokeWidth, e = .line start finish strokeWidth) ∧
      (options.grid = none → grid = []) := by
  have hopening : (opening options).flatMap (·.segments.filterMap Element.read?) = [] := by
    have hnames : ∀ p ∈ opening options, p.opens? ≠ some "line" ∧ p.opens? ≠ some "text" := by
      simp [opening, Piece.opens?]
    rw [List.flatMap_eq_nil_iff]
    exact fun p hp => Element.read?_other (opening_plain options p hp) (hnames p hp).1 (hnames p hp).2
  have hclosing : closing.flatMap (·.segments.filterMap Element.read?) = [] := by
    have hnames : ∀ p ∈ closing, p.isPlain ∧ p.opens? ≠ some "line" ∧ p.opens? ≠ some "text" := by decide
    rw [List.flatMap_eq_nil_iff]
    exact fun p hp => Element.read?_other (hnames p hp).1 (hnames p hp).2.1 (hnames p hp).2.2
  have hcommands :
      (drawing.toList.map fun c => (Element.ofCommand c).piece).flatMap (·.segments.filterMap Element.read?) =
        drawing.toList.map (fun c => (Element.ofCommand c).map Decimal.text) := by
    rw [List.flatMap_map, List.map_eq_flatMap]
    exact List.flatMap_congr fun c _ => Element.read?_piece (Element.ofCommand c)
  refine ⟨(options.grid.elim [] gridPieces).flatMap (·.segments.filterMap Element.read?), ?_, ?_,
    fun hnone => by simp [hnone]⟩
  · rw [toList_document, Text.segments_lines (pieces_plain options drawing), List.filterMap_flatMap, pieces]
    simp only [List.flatMap_append]
    rw [hopening, hclosing, hcommands, List.append_nil, List.nil_append]
  · intro e he
    obtain ⟨p, hp, he⟩ := List.mem_flatMap.1 he
    cases hgrid : options.grid with
    | none => simp [hgrid] at hp
    | some extent =>
      rw [hgrid] at hp
      obtain ⟨x1, y1, x2, y2, w, rfl⟩ := eq_linePiece_of_mem_grid hp
      rw [Element.read?_linePiece, List.mem_singleton] at he
      exact ⟨_, _, _, he⟩

end Svg

end FormulaLayout
