/-
Drawings at another scale and another place.

The painter commutes with a similarity as the passes do: a command of a magnified formula is the magnified command
(`commands_magnify`). Over the rational numbers the checks of the engine refuse nothing but a scale that is not positive
and a tree that is too deep (`Engine.layout_exact`), and every command is finite, so both drawings exist.

- `drawing_similar`: the drawing at a scale and a corner is the drawing at scale one and the origin, command by command,
  with every point moved and every font size and stroke width multiplied. The stretch of parentheses stays.
-/
import Mathlib.Tactic
import FormulaLayout.Layout.Engine
import FormulaLayout.Notation.Parser
import FormulaLayout.Proofs.Drawing.Recording
import FormulaLayout.Proofs.Layout.Magnified

namespace FormulaLayout

/-- the text under the similarity; a stretch is no length -/
def TextCommand.magnify (s : ℚ) (o : Point ℚ) (t : TextCommand ℚ) : TextCommand ℚ :=
  { t with position := .magnify s o t.position, fontSize := s * t.fontSize }

/-- the line under the similarity -/
def LineCommand.magnify (s : ℚ) (o : Point ℚ) (l : LineCommand ℚ) : LineCommand ℚ where
  start := .magnify s o l.start
  finish := .magnify s o l.finish
  strokeWidth := s * l.strokeWidth

/-- the command under the similarity -/
def Command.magnify (s : ℚ) (o : Point ℚ) : Command ℚ → Command ℚ
  | .text t => .text (t.magnify s o)
  | .line l => .line (l.magnify s o)

variable {s : ℚ}

namespace Placed

theorem rule_magnify (hs : 0 ≤ s) (o : Point ℚ) (p n m : Placed ℚ) :
    (p.magnify s o).rule (n.magnify s o).box (m.magnify s o).box = (p.rule n.box m.box).magnify s o := by
  simp only [rule, dividerY, magnify, LineCommand.magnify, Point.magnify, Sized.magnify, Size.magnify, larger_eq_max,
    Metrics.ruleThickness_mul, mul_max_of_nonneg _ _ hs, mul_add, add_assoc]

theorem glyphY_magnify (o : Point ℚ) (p : Placed ℚ) : (p.magnify s o).glyphY = o.y + s * p.glyphY := by
  simp only [glyphY, stretch, magnify, Point.magnify, Sized.magnify, Size.magnify, mul_add, ← mul_div_assoc, mul_sub,
    mul_assoc, add_assoc]

theorem leftParen_magnify (o : Point ℚ) (p : Placed ℚ) : (p.magnify s o).leftParen = p.leftParen.magnify s o := by
  rw [leftParen, glyphY_magnify]; rfl

theorem rightParen_magnify (o : Point ℚ) (p c : Placed ℚ) :
    (p.magnify s o).rightParen (c.magnify s o).box = (p.rightParen c.box).magnify s o := by
  rw [rightParen, glyphY_magnify]
  simp only [rightParen, TextCommand.magnify, Point.magnify, magnify, Sized.magnify, Size.magnify, stretch,
    Metrics.parenPadding_mul, mul_add, add_assoc]

end Placed

namespace Formula

/-- the painter commutes with a similarity -/
theorem commands_magnify (hs : 0 ≤ s) (o : Point ℚ) (t : Formula (Placed ℚ)) :
    (t.map (Placed.magnify s o)).commands = t.commands.map (Command.magnify s o) := by
  induction t using Formula.ind with
  | char p c => rfl
  | concat p l r hl hr => rw [map, commands, commands, hl, hr, List.map_append]
  | fraction p n m hn hm =>
    simp only [map, commands, hn, hm, datum_map, Placed.rule_magnify hs, List.map_append, List.map_cons,
      Command.magnify]
  | scripts p b u v hb hu hv =>
    have hpart : ∀ w : Option (Formula (Placed ℚ)),
        (∀ t ∈ w, (t.map (Placed.magnify s o)).commands = t.commands.map (Command.magnify s o)) →
          (w.map (map (Placed.magnify s o))).elim [] commands = (w.elim [] commands).map (Command.magnify s o) := by
      rintro (_ | t) ht
      · rfl
      · exact ht t rfl
    rw [map_scripts, commands_scripts, commands_scripts, hb, hpart u hu, hpart v hv, List.map_append, List.map_append]
  | paren p t ht =>
    simp only [map, commands, ht, datum_map, Placed.leftParen_magnify, Placed.rightParen_magnify, List.map_append,
      List.map_cons, List.map_nil, Command.magnify]

end Formula

/-! ## The checks over the rational numbers -/

theorem Command.isFinite_exact (c : Command ℚ) : c.isFinite := by
  cases c <;> rfl

/-- a formula over the rational numbers always has its drawing -/
theorem Formula.draw_exact (t : Formula (Placed ℚ)) : t.draw = .ok t.commands.toArray :=
  draw_eq_ok_iff.2 ⟨fun c _ => c.isFinite_exact, rfl⟩

theorem Engine.validate_exact {scale : ℚ} (hscale : 0 < scale) (origin : Point ℚ) :
    (Engine.mk scale origin).validate = .ok () := by
  simp [validate, Scalar.isFinite, Point.isFinite, zero_literal, hscale]

/-- at a positive scale the engine lays out what is not too deep -/
theorem Engine.layout_exact {e : Expr} (hdepth : e.depth ≤ Formula.maxDepth) {scale : ℚ} (hscale : 0 < scale)
    (origin : Point ℚ) : (Engine.mk scale origin).layout e = .ok (e.laidOut scale origin) := by
  have hproper : (e.boxed scale).datum.Proper := (Formula.boxed_built hscale e).proper
  have hvalidate := validate_exact hscale origin
  have hbox : checkBox (e.boxed scale).datum = .ok () := by
    simp [checkBox, Scalar.isFinite, zero_literal, hproper.width_pos, hproper.height_pos]
  have hbounds : checkBounds (e.laidOut scale origin).datum.bounds = .ok () := by
    simp [checkBounds, Scalar.isFinite]
  rw [Formula.boxed] at hbox
  rw [Formula.laidOut] at hbounds ⊢
  simp only [layout, hvalidate, Nat.not_lt.2 hdepth, if_false, hbox, hbounds, bind, Except.bind, pure, Except.pure]

/-- at a positive scale the engine refuses what is too deep, and says how deep it is -/
theorem Engine.layout_tooDeep {e : Expr} (hdepth : Formula.maxDepth < e.depth) {scale : ℚ} (hscale : 0 < scale)
    (origin : Point ℚ) : (Engine.mk scale origin).layout e = .error (.tooDeep e.depth Formula.maxDepth) := by
  simp only [layout, validate_exact hscale origin, hdepth, if_true, bind, Except.bind]
  rfl

/-- **Layout commutes with similarity.** Every tree that is not too deep is drawn at every positive scale and every
corner, and its drawing is the one at scale one and the origin under the similarity. -/
theorem drawing_similar {e : Expr} (hdepth : e.depth ≤ Formula.maxDepth) {scale : ℚ} (hscale : 0 < scale)
    (origin : Point ℚ) :
    ∃ (unit tree : Formula (Placed ℚ)) (drawing : Drawing ℚ),
      Engine.standard.layout e = .ok unit ∧ unit.draw = .ok drawing ∧
        (Engine.mk scale origin).layout e = .ok tree ∧ tree.draw = .ok (drawing.map (Command.magnify scale origin)) := by
  have hunit : (Engine.standard : Engine ℚ) = ⟨1, ⟨0, 0⟩⟩ := by
    simp only [Engine.standard, Point.zero, zero_literal, one_literal]
  have horigin : Point.magnify scale origin ⟨0, 0⟩ = origin := by
    simp only [Point.magnify, mul_zero, add_zero]
  have htree : e.laidOut scale origin = (e.laidOut 1 ⟨0, 0⟩).map (Placed.magnify scale origin) := by
    rw [← Formula.laidOut_magnify hscale.le, mul_one, horigin]
  refine ⟨_, _, _, hunit ▸ Engine.layout_exact hdepth one_pos ⟨0, 0⟩, Formula.draw_exact _,
    Engine.layout_exact hdepth hscale origin, ?_⟩
  rw [Formula.draw_exact, htree, Formula.commands_magnify hscale.le, List.map_toArray]

/-- a stretched pair of parentheses around a fraction with a script, at twice the size from another corner -/
theorem quotient_doubled : ∃ e, Notation.parse "(a_i/b)c" = .ok e ∧ e.depth ≤ Formula.maxDepth ∧ (0 : ℚ) < 2 ∧
    ∃ (unit tree : Formula (Placed ℚ)) (drawing : Drawing ℚ),
      Engine.standard.layout e = .ok unit ∧ unit.draw = .ok drawing ∧
        (Engine.mk 2 ⟨3, 5⟩).layout e = .ok tree ∧ tree.draw = .ok (drawing.map (Command.magnify 2 ⟨3, 5⟩)) := by
  have hdepth : ∃ e, Notation.parse "(a_i/b)c" = .ok e ∧ e.depth ≤ Formula.maxDepth := ⟨_, rfl, by decide +kernel⟩
  obtain ⟨e, he, hdepth⟩ := hdepth
  exact ⟨e, he, hdepth, two_pos, drawing_similar hdepth two_pos ⟨3, 5⟩⟩

end FormulaLayout
