/-
Which runs write readable XML.

A run that succeeds has written its whole document, and a document is well-formed up to the characters of its font and
of its contents. The contents are the glyphs of the input, and all other characters that an input may have are allowed
(`isText_iff_ink`). So with a font that is allowed, the input alone decides (`output_wellFormed_iff`). The notation
takes every character for a glyph, and nothing behind it refuses or replaces one: a control character is written as it
is.
-/
import FormulaLayout.Proofs.Pipeline.Depiction
import FormulaLayout.Proofs.Pipeline.Runs
import FormulaLayout.Proofs.Svg.WellFormed

namespace FormulaLayout

open Text (isText)
open Text.Xml (isChar IsDocument WellFormed)

/-! ## From the characters of a text to the contents of its drawing -/

/-- a character is allowed exactly if its token draws only allowed characters -/
theorem Notation.TokenKind.isChar_iff_ink (c : Char) :
    isChar c ↔ ∀ i ∈ (ofChar c).ink?, i.caption.all isChar := by
  unfold ofChar
  split_ifs with h1 h2 h3 h4 h5 h6 h7
  · subst h1; decide
  · subst h2; decide
  · subst h3; decide
  · subst h4; decide
  · subst h5; decide
  · subst h6; decide
  · subst h7; decide
  · simp [ink?, Ink.caption]

/-- a text is allowed exactly if its tokens draw only allowed characters -/
theorem Notation.all_isChar_iff_ink (offset : Nat) (cs : List Char) :
    (∀ c ∈ cs, isChar c) ↔ ∀ i ∈ (scan offset cs).filterMap (·.kind.ink?), i.caption.all isChar := by
  have hskipped : ∀ c, isSkipped c → isChar c := by
    intro c hc
    simp only [isSkipped, Bool.or_eq_true, beq_iff_eq] at hc
    rcases hc with (rfl | rfl) | rfl <;> decide
  induction cs generalizing offset with
  | nil => exact iff_of_true nofun nofun
  | cons c cs ih =>
    rw [List.forall_mem_cons, scan]
    by_cases hc : isSkipped c
    · rw [if_pos hc]
      exact (and_iff_right (hskipped c hc)).trans (ih (offset + 1))
    · rw [if_neg hc, List.filterMap_cons]
      refine (and_congr (TokenKind.isChar_iff_ink c) (ih (offset + 1))).trans ?_
      cases (TokenKind.ofChar c).ink? with
      | none => simp
      | some i => simp

/-- a drawing that depicts a text is as allowed as the text -/
theorem Drawing.Depicts.isText_iff {α : Type} {drawing : Drawing α} {input : String} {e : Expr}
    (h : drawing.Depicts input e) : (∀ t ∈ drawing.texts, isText t.content) ↔ isText input := by
  have hslash : Ink.rule.caption.all isChar := by decide
  have hink : (∀ t ∈ drawing.texts, isText t.content) ↔
      ∀ i ∈ drawing.toList.map Command.ink, i.caption.all isChar := by
    simp only [Drawing.texts, List.mem_filterMap, List.mem_map, forall_exists_index, and_imp, forall_apply_eq_imp_iff₂]
    constructor
    · rintro h (t | l) hc
      · exact h t _ hc rfl
      · exact hslash
    · rintro h t c hc htext
      cases c with
      | text t' =>
        obtain rfl : t' = t := by simpa [Command.text?] using htext
        exact h _ hc
      | line l => simp [Command.text?] at htext
  rw [hink, isText, List.all_eq_true, Notation.all_isChar_iff_ink 0, ← Notation.tokenize]
  exact forall_congr' fun i => by rw [h.marks.mem_iff]

/-! ## Runs -/

namespace Pipeline

/-- a run that succeeds has written the whole document of the drawing of its input -/
theorem output_eq_document {p : Pipeline} {job : Job} {rendering : Rendering}
    (h : (p.perform job).2.result = .ok rendering) :
    typeset job.input p.config = .ok rendering.drawing ∧
      (p.perform job).2.output = p.config.document rendering.drawing := by
  obtain ⟨fault, -, hp⟩ | ⟨rendering', htypeset, ⟨message, -, hp⟩ | ⟨hcomplaint, hp⟩⟩ := p.perform_cases job
  · rw [hp] at h
    exact absurd h nofun
  · rw [hp] at h
    exact absurd h nofun
  · rw [hp] at h ⊢
    obtain rfl : rendering' = rendering := Except.ok.inj h
    obtain ⟨body, hbody⟩ := p.config.document_ends_line rendering'.drawing
    have hfit := (Job.complaint?_eq_none_iff.1 hcomplaint).1
    refine ⟨htypeset, ?_⟩
    dsimp only
    rw [hbody] at hfit ⊢
    exact keepLines_eq_self_iff.2 hfit

/-- **A run writes readable XML exactly if its input has only characters that XML allows.** The form of a document is
right for every input; a character that is not allowed goes into it as it is. -/
theorem output_wellFormed_iff {p : Pipeline} {job : Job} {rendering : Rendering} (hformat : p.config.format = .svg)
    (hfont : isText p.config.fontFamily) (h : (p.perform job).2.result = .ok rendering) :
    IsDocument (p.perform job).2.output.toList ∧
      (WellFormed (p.perform job).2.output.toList ↔ ∀ c ∈ job.input.toList, isChar c) := by
  obtain ⟨htypeset, houtput⟩ := output_eq_document h
  obtain ⟨e, -, hdepicts, -⟩ := typeset_depicts htypeset
  have hdocument : p.config.document rendering.drawing = Svg.document p.config.svgOptions rendering.drawing := by
    rw [Config.document, hformat]
  rw [houtput, hdocument]
  refine ⟨Svg.isDocument_document p.config.svgOptions rendering.drawing, ?_⟩
  rw [Svg.wellFormed_document_iff, hdepicts.isText_iff, ← List.all_eq_true]
  exact and_iff_right hfont

/-- a comparison in parentheses, over an ampersand -/
theorem comparison_readable :
    ∃ rendering, ((mk .standard 0).perform ⟨"(a<b)/&", none, "", none⟩).2.result = .ok rendering ∧
      WellFormed ((mk .standard 0).perform ⟨"(a<b)/&", none, "", none⟩).2.output.toList := by
  have hok : ((mk .standard 0).perform ⟨"(a<b)/&", none, "", none⟩).2.result.isOk = true := by decide +kernel
  cases h : ((mk .standard 0).perform ⟨"(a<b)/&", none, "", none⟩).2.result with
  | error fault => rw [h] at hok; exact absurd hok nofun
  | ok rendering => exact ⟨rendering, rfl, (output_wellFormed_iff rfl (by decide) h).2.2 (List.all_eq_true.1 (by decide))⟩

/-- **A control character is written as it is**: the run succeeds, and what it wrote is not XML -/
theorem control_character_unreadable :
    ∃ rendering, ((mk .standard 0).perform ⟨"\x01", none, "", none⟩).2.result = .ok rendering ∧
      ¬ WellFormed ((mk .standard 0).perform ⟨"\x01", none, "", none⟩).2.output.toList := by
  have hok : ((mk .standard 0).perform ⟨"\x01", none, "", none⟩).2.result.isOk = true := by decide +kernel
  have hwritten : '\x01' ∈ ((mk .standard 0).perform ⟨"\x01", none, "", none⟩).2.output.toList := by decide +kernel
  cases h : ((mk .standard 0).perform ⟨"\x01", none, "", none⟩).2.result with
  | error fault => rw [h] at hok; exact absurd hok nofun
  | ok rendering =>
    refine ⟨rendering, rfl, ?_⟩
    intro hwellFormed
    exact absurd (hwellFormed.chars _ hwritten) (by decide)

end Pipeline

end FormulaLayout
