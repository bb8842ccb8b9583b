/-
From the characters of a text to the commands of its drawing.

A drawing depicts a text and its formula if its commands, read in order with a slash for every line, are the notation of
the formula without script markers, and if they are the marks of the tokens, each drawn once. The commands are those of
the formula wherever they are placed, so this holds in any arithmetic.

- `typeset_depicts`: whatever is typeset depicts its text.
-/
import Mathlib.Tactic
import FormulaLayout.Pipeline
import FormulaLayout.Proofs.Drawing.Recording
import FormulaLayout.Proofs.Layout.Checks
import FormulaLayout.Proofs.Notation.Conservation

namespace FormulaLayout

open Notation (bind_eq_ok mapError_eq_ok)

/-- the text that a command stands for in the notation -/
def Command.caption {α : Type} : Command α → String
  | .text t => t.content
  | .line _ => "/"

/-- the drawing shows the formula in order, and the tokens of the text, each of them once -/
structure Drawing.Depicts {α : Type} (drawing : Drawing α) (input : String) (e : Expr) : Prop where
  captions : String.join (drawing.toList.map Command.caption) =
    String.ofList (e.value.toList.filter (!isMarker ·))
  marks : ((Notation.tokenize input).filterMap (·.kind.ink?)).Perm (drawing.toList.map Command.ink)
  texts : drawing.texts.length = (Notation.tokenize input).countP (·.kind.isText)
  lines : drawing.lines.length = (Notation.tokenize input).countP (·.kind = .slash)

/-! ## Commands by their ink -/

section

variable {α : Type}

theorem Command.toList_caption (c : Command α) : c.caption.toList = c.ink.caption := by
  cases c with
  | text t => rfl
  | line l => simp [caption, ink, Ink.caption]

theorem Drawing.texts_length (drawing : Drawing α) :
    drawing.texts.length = (drawing.toList.map Command.ink).countP Ink.isText := by
  rw [texts, List.length_filterMap_eq_countP, List.countP_map]
  refine List.countP_congr fun c _ => ?_
  cases c <;> simp [Command.text?, Command.ink, Ink.isText]

theorem Drawing.lines_length (drawing : Drawing α) :
    drawing.lines.length = (drawing.toList.map Command.ink).countP (· = .rule) := by
  rw [lines, List.length_filterMap_eq_countP, List.countP_map]
  refine List.countP_congr fun c _ => ?_
  cases c <;> simp [Command.line?, Command.ink]

/-- a drawing with the ink of the formula depicts the text -/
theorem Drawing.depicts_of_ink {drawing : Drawing α} {input : String} {e : Expr}
    (hparse : Notation.parse input = .ok e) (hink : drawing.toList.map Command.ink = e.ink) :
    drawing.Depicts input e := by
  have hmarks := Notation.parse_ink_perm hparse
  refine ⟨?_, hink ▸ hmarks, ?_, ?_⟩
  · rw [← String.toList_inj]
    calc (String.join (drawing.toList.map Command.caption)).toList
        = drawing.toList.flatMap (·.caption.toList) := by rw [String.toList_join, List.flatMap_map]
      _ = drawing.toList.flatMap (·.ink.caption) := List.flatMap_congr fun c _ => c.toList_caption
      _ = e.ink.flatMap Ink.caption := by rw [← hink, List.flatMap_map]
      _ = e.source.filter (!isMarker ·) := (e.source_eq_ink (Notation.parse_ink_not_isMarker hparse)).symm
      _ = (String.ofList (e.value.toList.filter (!isMarker ·))).toList := by
        rw [Formula.value, String.toList_ofList, String.toList_ofList]
  · rw [texts_length, hink, ← hmarks.countP_eq, List.countP_filterMap]
    exact List.countP_congr fun t _ => by rw [Notation.TokenKind.isText_ink?]
  · rw [lines_length, hink, ← hmarks.countP_eq, List.countP_filterMap]
    exact List.countP_congr fun t _ => by rw [Notation.TokenKind.isRule_ink?]

end

/-! ## The pipeline -/

/-- a typeset text has a formula, and its drawing holds the commands of that formula -/
theorem typeset_eq_ok {input : String} {config : Config} {drawing : Drawing Float32}
    (h : typeset input config = .ok drawing) :
    ∃ e, Notation.parse input = .ok e ∧
      drawing = (e.laidOut config.engine.scale config.engine.origin).commands.toArray := by
  unfold typeset at h
  obtain ⟨e, hparse, h⟩ := bind_eq_ok.1 h
  unfold drawExpr at h
  obtain ⟨tree, hlayout, hdraw⟩ := bind_eq_ok.1 h
  have hdrawing := (Formula.draw_eq_ok_iff.1 (mapError_eq_ok.1 hdraw)).2
  rw [Engine.eq_laidOut_of_layout (mapError_eq_ok.1 hlayout)] at hdrawing
  exact ⟨e, mapError_eq_ok.1 hparse, hdrawing⟩

/-- **Nothing is lost, duplicated or reordered.** What is typeset depicts its text, and so do the commands of the
formula in any arithmetic. -/
theorem typeset_depicts {input : String} {config : Config} {drawing : Drawing Float32}
    (h : typeset input config = .ok drawing) :
    ∃ e, Notation.parse input = .ok e ∧ drawing.Depicts input e ∧
      ∀ {α : Type} [Scalar α] (scale : α) (origin : Point α),
        Drawing.Depicts (e.laidOut scale origin).commands.toArray input e := by
  obtain ⟨e, hparse, rfl⟩ := typeset_eq_ok h
  exact ⟨e, hparse, Drawing.depicts_of_ink hparse (e.ink_laidOut _ _),
    fun scale origin => Drawing.depicts_of_ink hparse (e.ink_laidOut scale origin)⟩

/-- a quotient in parentheses with a neighbour, and with both scripts in the order that is not drawn -/
theorem scripted_quotient_depicted :
    ∃ drawing e, typeset "(x_i^2/{ab})c_{k/2}" .standard = .ok drawing ∧
      Notation.parse "(x_i^2/{ab})c_{k/2}" = .ok e ∧ drawing.Depicts "(x_i^2/{ab})c_{k/2}" e ∧
        drawing.texts.length = 10 ∧ drawing.lines.length = 2 := by
  have hok : (typeset "(x_i^2/{ab})c_{k/2}" .standard).isOk = true := by decide +kernel
  cases h : typeset "(x_i^2/{ab})c_{k/2}" .standard with
  | error fault => rw [h] at hok; exact absurd hok nofun
  | ok drawing =>
    obtain ⟨e, hparse, hdepicts, -⟩ := typeset_depicts h
    have htexts := hdepicts.texts.trans (show _ = 10 by decide +kernel)
    have hlines := hdepicts.lines.trans (show _ = 2 by decide +kernel)
    exact ⟨drawing, e, rfl, hparse, hdepicts, htexts, hlines⟩

end FormulaLayout
