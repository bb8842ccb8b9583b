/-
Every document is XML, character by character as far as its texts allow.

The pieces of a document nest: a declaration, the start tags of the root and of its group, elements, and the two end
tags. So a document has the form of an XML document whatever is in it (`isDocument_document`). Numbers are written in
digits, signs, points and three words, which leaves two sources of characters that XML does not allow: the font, and the
contents of the text commands (`isText_document`).
-/
import FormulaLayout.Proofs.Decimal.Characters
import FormulaLayout.Proofs.Svg.Recovery
import FormulaLayout.Proofs.Text.Xml

namespace FormulaLayout.Svg

open Text (Piece isText)
open Text.Xml (IsDocument WellFormed Element Content Declaration)

/-! ## The form of a document -/

theorem linePiece_sound (x1 y1 x2 y2 strokeWidth : String) :
    (Element.linePiece x1 y1 x2 y2 strokeWidth).IsSound ∧ (Element.linePiece x1 y1 x2 y2 strokeWidth).isWhole := by
  refine ⟨⟨linePiece_plain x1 y1 x2 y2 strokeWidth, ?_⟩, rfl⟩
  simp only [Element.linePiece, Piece.attributes, List.map_cons, List.map_nil]
  decide

theorem Element.piece_sound (e : Element Float32) : e.piece.IsSound ∧ e.piece.isWhole := by
  cases e with
  | plainText x baseline fontSize content =>
    refine ⟨⟨Element.piece_plain _, ?_⟩, rfl⟩
    simp only [piece, Piece.attributes, List.map_cons, List.map_nil]
    decide
  | mappedText fontSize matrix content =>
    refine ⟨⟨Element.piece_plain _, ?_⟩, rfl⟩
    simp only [piece, Piece.attributes, List.map_cons, List.map_nil]
    decide
  | line start finish strokeWidth => exact linePiece_sound _ _ _ _ _

theorem opening_sound (options : Options) : ∀ p ∈ opening options, p.IsSound := by
  intro p hp
  refine ⟨opening_plain options p hp, ?_⟩
  rw [opening_eq] at hp
  simp only [List.mem_cons, List.not_mem_nil, or_false] at hp
  rcases hp with rfl | rfl | rfl
  · decide
  · decide
  · simp only [Piece.attributes, groupAttributes, List.map_cons, List.map_nil]
    decide

/-- the elements of a document, in order: those of the grid and those of the drawing -/
def elementPieces (options : Options) (drawing : Drawing Float32) : List Piece :=
  options.grid.elim [] gridPieces ++ drawing.toList.map fun c => (Element.ofCommand c).piece

theorem elementPieces_sound (options : Options) (drawing : Drawing Float32) :
    ∀ p ∈ elementPieces options drawing, p.IsSound ∧ p.isWhole := by
  intro p hp
  rw [elementPieces, List.mem_append, List.mem_map] at hp
  rcases hp with hp | ⟨c, -, rfl⟩
  · cases hgrid : options.grid with
    | none => simp [hgrid] at hp
    | some extent =>
      rw [hgrid] at hp
      obtain ⟨x1, y1, x2, y2, w, rfl⟩ := eq_linePiece_of_mem_grid hp
      exact linePiece_sound x1 y1 x2 y2 w
  · exact (Element.ofCommand c).piece_sound

/-- **A document has one root element**, with all others nested in it. -/
theorem isDocument_document (options : Options) (drawing : Drawing Float32) :
    IsDocument (document options drawing).toList := by
  have hsound := opening_sound options
  rw [opening_eq] at hsound
  simp only [List.forall_mem_cons] at hsound
  obtain ⟨-, hsvg, hgroup, -⟩ := hsound
  have helements : Content ((elementPieces options drawing).flatMap (·.line.toList) ++ []) :=
    Text.Xml.content_lines (elementPieces_sound options drawing) .nil
  have hg := Text.Xml.element_enclosed hgroup helements.newline
  have hroot := Text.Xml.element_enclosed hsvg (Content.element hg Content.nil.newline).newline
  have hdeclaration : Declaration "<?xml version=\"1.0\"?>".toList :=
    @Declaration.version [' '] [] [] ['0'] [] '\x22' (by decide) rfl rfl rfl (.inl rfl) (by decide) rfl rfl
  refine ⟨_, ['\n'], _, ['\n'], ?_, .inr hdeclaration, rfl, hroot, rfl⟩
  rw [toList_document, pieces, List.append_assoc (opening options), ← elementPieces, opening_eq]
  simp [closing, Piece.line, Piece.render]

/-! ## The characters of a document -/

theorem isChar_of_isDigit {c : Char} (h : c.isDigit) : Text.Xml.isChar c :=
  Text.isChar_of_isAlphanum (by rw [Char.isAlphanum, h, Bool.or_true])

theorem isText_toString (n : Nat) : isText (toString n) := by
  rw [isText, Nat.toString_eq_ofList_toDigits, String.toList_ofList, List.all_eq_true]
  intro c hc
  exact isChar_of_isDigit (Nat.isDigit_of_mem_toDigits (by decide) (by decide) hc)

theorem isText_toString_neg (n : Nat) : isText (toString (-(n : Int))) := by
  cases n with
  | zero => decide
  | succ n =>
    have hsign : toString (-((n + 1 : Nat) : Int)) = "-" ++ toString (n + 1) := rfl
    have hminus : isText "-" = true := by decide
    rw [hsign, Text.isText_append, hminus, isText_toString, Bool.and_true]

/-- the text of a number is allowed, also where the number is not finite -/
theorem isText_number (x : Float32) : isText (Decimal.text x) := by
  refine List.all_eq_true.2 fun c hc => ?_
  rcases Decimal.mem_text hc with hdigit | hmark
  · exact isChar_of_isDigit hdigit
  · have hmarks : ("-.NaNinf".toList.all Text.Xml.isChar) = true := by decide
    exact List.all_eq_true.1 hmarks c hmark

theorem isText_linePiece (x1 y1 x2 y2 strokeWidth : String) :
    (Element.linePiece x1 y1 x2 y2 strokeWidth).texts.all isText =
      (isText x1 && isText y1 && isText x2 && isText y2 && isText strokeWidth) := by
  have hblack : isText "black" = true := by decide
  simp [Element.linePiece, Piece.texts, hblack, Bool.and_assoc]

/-- a grid has numbers in its texts, and nothing else -/
theorem isText_grid {extent : Nat} {p : Piece} (hp : p ∈ gridPieces extent) : p.texts.all isText := by
  have hwidths : isText "0.02" = true ∧ isText "0.01" = true := by decide
  simp only [gridPieces, axes, unitLines, List.mem_append, List.mem_flatMap, List.mem_cons, List.not_mem_nil,
    or_false] at hp
  rcases hp with (rfl | rfl) | ⟨i, -, rfl | rfl⟩
  all_goals
    simp only [horizontal, vertical, isText_linePiece, isText_toString, isText_toString_neg, hwidths, Bool.and_self]

/-- a command has numbers in its texts, and its content if it is text -/
theorem isText_command (c : Command Float32) :
    (Element.ofCommand c).piece.texts.all isText = c.text?.all (isText ·.content) := by
  have hmarks : isText "0" = true ∧ isText "," = true ∧ isText "matrix(" = true ∧ isText ")" = true := by decide
  cases c with
  | line l => simp [Element.ofCommand, Element.piece, isText_linePiece, isText_number, Command.text?]
  | text t =>
    simp only [Element.ofCommand, Command.text?, Option.all_some]
    split_ifs
    · simp [Element.piece, Piece.texts, isText_number]
    · simp only [Element.piece, Piece.texts]
      simp [Text.isText_append, isText_number, hmarks]

/-- **A document has only allowed characters exactly if its font and its contents have.** -/
theorem isText_document (options : Options) (drawing : Drawing Float32) :
    isText (document options drawing) = (isText options.fontFamily && drawing.texts.all (isText ·.content)) := by
  have hopening : (opening options).all (·.texts.all isText) = isText options.fontFamily := by
    have hfixed : isText "http://www.w3.org/2000/svg" = true ∧ isText "1.1" = true ∧ isText "scale(" = true ∧
        isText ") translate(" = true ∧ isText "," = true ∧ isText ")" = true := by decide
    simp [opening_eq, groupAttributes, Piece.texts, Text.isText_append, isText_number, hfixed]
  have hgrid : (options.grid.elim [] gridPieces).all (·.texts.all isText) = true := by
    cases options.grid with
    | none => rfl
    | some extent => exact List.all_eq_true.2 fun p hp => isText_grid hp
  have hclosing : closing.all (·.texts.all isText) = true := by decide
  have hcommands : (drawing.toList.map fun c => (Element.ofCommand c).piece).all (·.texts.all isText) =
      drawing.texts.all (isText ·.content) := by
    rw [List.all_map, Drawing.texts]
    induction drawing.toList with
    | nil => rfl
    | cons c cs ih =>
      rw [List.all_cons, ih, Function.comp_apply, isText_command, List.filterMap_cons]
      cases c.text? <;> simp
  rw [isText, toList_document, Text.all_lines (pieces_plain options drawing), pieces, List.all_append, List.all_append,
    List.all_append, hopening, hgrid, hcommands, hclosing, Bool.and_true, Bool.and_true]

/-- **A document is well-formed exactly if its font and its contents have only allowed characters.** -/
theorem wellFormed_document_iff (options : Options) (drawing : Drawing Float32) :
    WellFormed (document options drawing).toList ↔
      isText options.fontFamily ∧ ∀ t ∈ drawing.texts, isText t.content := by
  have htext := isText_document options drawing
  rw [Bool.eq_iff_iff, isText, Bool.and_eq_true, List.all_eq_true, List.all_eq_true] at htext
  constructor
  · intro h
    exact htext.1 h.chars
  · intro h
    exact ⟨isDocument_document options drawing, htext.2 h⟩

end FormulaLayout.Svg
