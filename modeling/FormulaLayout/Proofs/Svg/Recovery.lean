/-
What a reader gets back from an SVG document.

All names in a document are fixed and plain (`pieces_plain`), so nothing that a drawing or the options bring into it can
begin or end markup. A reader then finds one `<` for every tag, between the tags of its text elements the contents of
the text commands, and in the tag of its group the font.

- `document_recovers`: the count of `<`, the contents in order, and the font, for every drawing and all options.
-/
import FormulaLayout.Proofs.Svg.Document
import FormulaLayout.Proofs.Text.Reader

namespace FormulaLayout.Svg

open Text (Piece contents attribute? decode isPlainName segments)

/-! ## The names in a document -/

theorem linePiece_plain (x1 y1 x2 y2 strokeWidth : String) :
    (Element.linePiece x1 y1 x2 y2 strokeWidth).isPlain := by
  simp only [Element.linePiece, Piece.isPlain, List.all_cons, List.all_nil]
  decide

/-- a text command is drawn by a text element with its content -/
theorem piece_text (t : TextCommand Float32) :
    ∃ as : Text.Attributes, as.all (isPlainName ·.1) ∧
      (Element.ofCommand (.text t)).piece = .element "text" as t.content := by
  simp only [Element.ofCommand]
  split_ifs
  · refine ⟨_, ?_, rfl⟩
    simp only [List.all_cons, List.all_nil]
    decide
  · refine ⟨_, ?_, rfl⟩
    simp only [List.all_cons, List.all_nil]
    decide

theorem Element.piece_plain (e : Element Float32) : e.piece.isPlain := by
  cases e with
  | plainText x baseline fontSize content =>
    simp only [piece, Piece.isPlain, List.all_cons, List.all_nil]
    decide
  | mappedText fontSize matrix content =>
    simp only [piece, Piece.isPlain, List.all_cons, List.all_nil]
    decide
  | line start finish strokeWidth => exact linePiece_plain _ _ _ _ _

theorem opening_plain (options : Options) : ∀ p ∈ opening options, p.isPlain := by
  simp only [opening, List.forall_mem_cons, List.not_mem_nil, false_implies, implies_true, and_true, Piece.isPlain,
    List.all_cons, List.all_nil]
  decide

/-- a grid consists of lines -/
theorem eq_linePiece_of_mem_grid {extent : Nat} {p : Piece} (hp : p ∈ gridPieces extent) :
    ∃ x1 y1 x2 y2 strokeWidth, p = Element.linePiece x1 y1 x2 y2 strokeWidth := by
  simp only [gridPieces, axes, unitLines, horizontal, vertical, List.mem_append, List.mem_flatMap, List.mem_cons,
    List.not_mem_nil, or_false] at hp
  rcases hp with (rfl | rfl) | ⟨i, -, rfl | rfl⟩ <;> exact ⟨_, _, _, _, _, rfl⟩

/-- all names in a document are plain -/
theorem pieces_plain (options : Options) (drawing : Drawing Float32) : ∀ p ∈ pieces options drawing, p.isPlain := by
  have hclosing : ∀ p ∈ closing, p.isPlain := by decide
  intro p hp
  simp only [pieces, List.mem_append, List.mem_map] at hp
  rcases hp with ((hp | hp) | ⟨c, -, rfl⟩) | hp
  · exact opening_plain options p hp
  · cases hgrid : options.grid with
    | none => simp [hgrid] at hp
    | some extent =>
      rw [hgrid] at hp
      obtain ⟨x1, y1, x2, y2, w, rfl⟩ := eq_linePiece_of_mem_grid hp
      exact linePiece_plain x1 y1 x2 y2 w
  · exact (Element.ofCommand c).piece_plain
  · exact hclosing p hp

theorem toList_document (options : Options) (drawing : Drawing Float32) :
    (document options drawing).toList = (pieces options drawing).flatMap (·.line.toList) := by
  rw [document_eq, String.toList_join, List.flatMap_map]

/-! ## What a reader finds -/

/-- the tags of the commands of a drawing -/
theorem length_segments_commands (cs : List (Command Float32)) :
    ((cs.map fun c => (Element.ofCommand c).piece).map (·.segments.length)).sum =
      2 * (cs.filterMap Command.text?).length + (cs.filterMap Command.line?).length := by
  induction cs with
  | nil => rfl
  | cons c cs ih =>
    rw [List.map_cons, List.map_cons, List.sum_cons, ih]
    cases c with
    | text t =>
      obtain ⟨as, -, hpiece⟩ := piece_text t
      simp only [hpiece, Piece.segments, List.filterMap_cons, Command.text?, Command.line?, List.length_cons,
        List.length_nil]
      omega
    | line l =>
      simp only [Element.ofCommand, Element.piece, Element.linePiece, Piece.segments, List.filterMap_cons,
        Command.text?, Command.line?, List.length_cons, List.length_nil]
      omega

theorem length_segments_grid (extent : Nat) :
    ((gridPieces extent).map (·.segments.length)).sum = 2 + 2 * extent := by
  have hone : ∀ p ∈ gridPieces extent, p.segments.length = 1 := by
    intro p hp
    obtain ⟨x1, y1, x2, y2, w, rfl⟩ := eq_linePiece_of_mem_grid hp
    rfl
  have hlength : (gridPieces extent).length = 2 + 2 * extent := by
    simp [gridPieces, axes, unitLines, List.length_flatMap]
    omega
  rw [List.map_congr_left hone, ← hlength]
  simp

/-- a document has one raw `<` for every tag -/
theorem count_document (options : Options) (drawing : Drawing Float32) :
    (document options drawing).toList.count '<' =
      5 + (options.grid.elim 0 fun extent => 2 + 2 * extent) + 2 * drawing.texts.length + drawing.lines.length := by
  have hgrid : ((options.grid.elim [] gridPieces).map (·.segments.length)).sum =
      options.grid.elim 0 fun extent => 2 + 2 * extent := by
    cases options.grid with
    | none => rfl
    | some extent => exact length_segments_grid extent
  have hopening : ((opening options).map (·.segments.length)).sum = 3 := rfl
  have hclosing : (closing.map (·.segments.length)).sum = 2 := rfl
  rw [toList_document, Text.count_lines (pieces_plain options drawing), pieces, List.map_append, List.map_append,
    List.map_append, List.sum_append, List.sum_append, List.sum_append, hgrid, hopening, hclosing,
    length_segments_commands, Drawing.texts, Drawing.lines]
  omega

/-- pieces that begin no element of a name have no contents of that name -/
theorem contents_none {ps : List Piece} (hplain : ∀ p ∈ ps, p.isPlain) {name : String} (hname : isPlainName name)
    (hps : ∀ p ∈ ps, p.opens? ≠ some name) :
    (ps.flatMap fun p => (p.segments.filter (Text.tagName · = name.toList)).map (Text.behindTag none)) = [] := by
  rw [List.flatMap_eq_nil_iff]
  intro p hp
  rw [List.map_eq_nil_iff, List.filter_eq_nil_iff]
  intro s hs
  simpa using Piece.tagName_ne (hplain p hp) hname (hps p hp) s hs

/-- the contents of the text elements of commands, in order -/
theorem contents_commands (cs : List (Command Float32)) :
    ((cs.map fun c => (Element.ofCommand c).piece).flatMap fun p =>
        (p.segments.filter (Text.tagName · = "text".toList)).map (Text.behindTag none)) =
      (cs.filterMap Command.text?).map fun t => (Text.escapeContent t.content).toList := by
  have htext : isPlainName "text" := by decide
  induction cs with
  | nil => rfl
  | cons c cs ih =>
    rw [List.map_cons, List.flatMap_cons, ih]
    cases c with
    | text t =>
      obtain ⟨as, has, hpiece⟩ := piece_text t
      rw [hpiece, Text.contents_element htext has, List.filterMap_cons, Command.text?, List.map_cons,
        List.singleton_append]
    | line l =>
      have hnone : ∀ p ∈ [(Element.ofCommand (.line l)).piece], p.opens? ≠ some "text" := by
        simp [Element.ofCommand, Element.piece, Element.linePiece, Piece.opens?]
      have hempty := contents_none (by simp [Element.piece_plain]) htext hnone
      rw [List.flatMap_singleton] at hempty
      rw [hempty, List.filterMap_cons, Command.text?, List.nil_append]

/-- the contents of the text elements of a document, in order -/
theorem contents_document (options : Options) (drawing : Drawing Float32) :
    contents "text" (document options drawing).toList =
      drawing.texts.map fun t => (Text.escapeContent t.content).toList := by
  have htext : isPlainName "text" := by decide
  have hopening : ∀ p ∈ opening options, p.opens? ≠ some "text" := by simp [opening, Piece.opens?]
  have hgrid : ∀ p ∈ options.grid.elim [] gridPieces, p.opens? ≠ some "text" := by
    cases options.grid with
    | none => exact List.forall_mem_nil _
    | some extent =>
      intro p hp
      obtain ⟨x1, y1, x2, y2, w, rfl⟩ := eq_linePiece_of_mem_grid hp
      simp [Element.linePiece, Piece.opens?]
  have hclosing : ∀ p ∈ closing, p.opens? ≠ some "text" := by decide
  have hplain := pieces_plain options drawing
  rw [toList_document, Text.contents_lines hplain]
  simp only [pieces, List.forall_mem_append] at hplain ⊢
  obtain ⟨⟨⟨hplainOpening, hplainGrid⟩, -⟩, hplainClosing⟩ := hplain
  rw [List.flatMap_append, List.flatMap_append, List.flatMap_append, contents_none hplainOpening htext hopening,
    contents_none hplainGrid htext hgrid, contents_none hplainClosing htext hclosing, contents_commands,
    List.append_nil, List.nil_append]
  rfl

/-- the attributes of the group of a document -/
def groupAttributes (options : Options) : Text.Attributes :=
  [("transform", "scale(" ++ Decimal.text options.scale ++ ") translate(" ++ Decimal.text options.offset.x ++ ","
      ++ Decimal.text options.offset.y ++ ")"),
    ("font-family", options.fontFamily)]

theorem opening_eq (options : Options) :
    opening options = [.declaration, .start "svg" [("xmlns", "http://www.w3.org/2000/svg"), ("version", "1.1")],
      .start "g" (groupAttributes options)] :=
  rfl

/-- the font of a document, as its group states it -/
theorem attribute_document (options : Options) (drawing : Drawing Float32) :
    attribute? "g" "font-family" (document options drawing).toList =
      some (Text.escapeAttribute options.fontFamily).toList := by
  have hg : isPlainName "g" := by decide
  have hkeys : (groupAttributes options).all (isPlainName ·.1) := by
    simp only [groupAttributes, List.all_cons, List.all_nil]
    decide
  obtain ⟨group, hsegments⟩ : ∃ group, (Piece.start "g" (groupAttributes options)).segments = [group] := ⟨_, rfl⟩
  obtain ⟨htag, hattributes⟩ := Text.attributes_start hg hkeys (hsegments ▸ List.mem_singleton_self group)
  -- the tags in front of the group have other names
  have hfirst : (segments (document options drawing).toList).find? (Text.tagName · = "g".toList) = some group := by
    have hskip : ∀ p ∈ opening options, p.opens? ≠ some "g" →
        p.segments.find? (Text.tagName · = "g".toList) = none := by
      intro p hp hne
      simpa using Piece.tagName_ne (opening_plain options p hp) hg hne
    rw [opening_eq] at hskip
    simp only [List.forall_mem_cons] at hskip
    rw [toList_document, Text.segments_lines (pieces_plain options drawing), pieces, opening_eq]
    simp only [List.cons_append, List.nil_append, List.flatMap_cons, List.find?_append]
    rw [hskip.1 (by simp [Piece.opens?]), hskip.2.1 (by simp [Piece.opens?]), hsegments, List.find?_cons_of_pos (by simpa using htag)]
    rfl
  have hother : ("font-family".toList == "transform".toList) = false := by decide
  rw [attribute?, hfirst, Option.bind_some, hattributes, groupAttributes, List.map_cons, List.map_cons,
    List.lookup_cons, hother]
  simp

/-- **Nothing breaks out of a document, and a reader gets everything back.** Whatever the contents and the font are, a
document has one raw `<` for every tag; its text elements are those of the text commands in order, and what stands in
each of them decodes to the content; the font attribute decodes to the font. -/
theorem document_recovers (options : Options) (drawing : Drawing Float32) :
    let text := (document options drawing).toList
    text.count '<' = 5 + (options.grid.elim 0 fun extent => 2 + 2 * extent) + 2 * drawing.texts.length
        + drawing.lines.length ∧
      (contents "text" text).map decode = drawing.texts.map (·.content.toList) ∧
      (attribute? "g" "font-family" text).map decode = some options.fontFamily.toList ∧
      ∀ s : String, decode (Text.escapeContent s).toList = s.toList ∧ decode (Text.escapeAttribute s).toList = s.toList := by
  intro text
  refine ⟨?_, ?_, ?_, fun s => ⟨Text.decode_content s, Text.decode_attribute s⟩⟩
  · exact count_document options drawing
  · simp only [text, contents_document, List.map_map, Function.comp_def, Text.decode_content]
  · rw [attribute_document, Option.map_some, Text.decode_attribute]

end FormulaLayout.Svg
