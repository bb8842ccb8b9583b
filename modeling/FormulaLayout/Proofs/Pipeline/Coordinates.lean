/-
Which runs write only finite numbers.

A run succeeds only if every command of its drawing is finite. Of the numbers that the writer computes from the
commands, all but the baselines of texts are finite then (`Svg.Element.stored_finite`). So the numbers in a document are
finite exactly if the baselines of the drawing are, and that is so wherever the root of the formula leaves headroom
(`output_numbers_finite`). The painter has checked the corner and the size of a text, not where the text stands.
-/
import FormulaLayout.Proofs.Pipeline.Readable
import FormulaLayout.Proofs.Svg.Numbers

namespace FormulaLayout.Pipeline

open Notation (bind_eq_ok mapError_eq_ok)
open Single (value)
open Svg (Element)

variable {p : Pipeline} {job : Job} {rendering : Rendering}

/-- what a run gives is what the stages in front of its output gave -/
theorem render_of_perform (h : (p.perform job).2.result = .ok rendering) :
    render p.config job.input = .ok rendering := by
  rw [perform, run] at h
  cases hrender : render p.config job.input with
  | error fault =>
    rw [hrender] at h
    cases h
  | ok rendering' =>
    rw [hrender] at h
    dsimp only at h
    rcases hwritten : writeDrawing job.device p.config rendering'.drawing job.blank with ⟨out, _ | message⟩
    · rw [hwritten] at h
      exact h
    · rw [hwritten] at h
      cases h

/-- the stages in front of the output give a tree that was laid out and the finite commands of it -/
theorem render_eq_ok {config : Config} {input : String} (h : render config input = .ok rendering) :
    ∃ e, config.engine.layout e = .ok rendering.tree ∧ (∀ c ∈ rendering.tree.commands, c.isFinite) ∧
      rendering.drawing = rendering.tree.commands.toArray := by
  unfold render at h
  obtain ⟨e, -, h⟩ := bind_eq_ok.1 h
  obtain ⟨tree, hlayout, h⟩ := bind_eq_ok.1 h
  obtain ⟨drawing, hdraw, h⟩ := bind_eq_ok.1 h
  obtain rfl := Except.ok.inj h
  obtain ⟨hfinite, hdrawing⟩ := Formula.draw_eq_ok_iff.1 (mapError_eq_ok.1 hdraw)
  exact ⟨e, mapError_eq_ok.1 hlayout, hfinite, hdrawing⟩

/-- **Baselines alone can leave the range.** The document of a run that succeeds has the elements of finite commands;
all its numbers are finite exactly if the baselines of its texts are, and they are if the root has headroom. -/
theorem output_numbers_finite (hformat : p.config.format = .svg) (h : (p.perform job).2.result = .ok rendering) :
    (p.perform job).2.output = Svg.document p.config.svgOptions rendering.drawing ∧
      (∀ c ∈ rendering.drawing.toList, ∀ x ∈ (Element.ofCommand c).stored, x.isFinite) ∧
        ((∀ c ∈ rendering.drawing.toList, ∀ x ∈ (Element.ofCommand c).numbers, x.isFinite) ↔
          ∀ t ∈ rendering.drawing.texts, t.baseline.isFinite) ∧
          (rendering.tree.datum.HasGlyphRoom →
            ∀ c ∈ rendering.drawing.toList, ∀ x ∈ (Element.ofCommand c).numbers, x.isFinite) := by
  obtain ⟨-, houtput⟩ := output_eq_document h
  obtain ⟨e, hlayout, hfinite, hdrawing⟩ := render_eq_ok (render_of_perform h)
  have hcommands : rendering.drawing.toList = rendering.tree.commands := by
    rw [hdrawing]
  rw [houtput, Config.document, hformat, Drawing.texts, hcommands]
  refine ⟨rfl, ?_, ?_, ?_⟩
  · intro c hc
    exact Element.stored_finite (hfinite c hc)
  · simp only [List.mem_filterMap, forall_exists_index, and_imp]
    constructor
    · intro hnumbers t c hc ht
      exact (Element.numbers_finite_iff (hfinite c hc)).1 (hnumbers c hc) t ht
    · intro hbaselines c hc
      rw [Element.numbers_finite_iff (hfinite c hc)]
      intro t ht
      exact hbaselines t c hc ht
  · intro hroom c hc
    rw [Element.numbers_finite_iff (hfinite c hc)]
    exact Engine.layout_baselines_finite hlayout hroom c hc

/-- stretched parentheses around two fractions, far from the origin -/
theorem parentheses_written_finite :
    let p : Pipeline := ⟨{ Config.standard with scale := 1e35, origin := ⟨-1.5e38, 1.5e38⟩ }, 0⟩
    ∃ rendering, (p.perform ⟨"({a/b}{c/d})", none, "", none⟩).2.result = .ok rendering ∧
      ∀ c ∈ rendering.drawing.toList, ∀ x ∈ (Element.ofCommand c).numbers, x.isFinite := by
  intro p
  have hroom : (match (p.perform ⟨"({a/b}{c/d})", none, "", none⟩).2.result with
      | .ok r => (decide (|value r.tree.datum.origin.x| ≤ 2 ^ 127) && decide (|value r.tree.datum.origin.y| ≤ 2 ^ 127)
        && decide (value r.tree.datum.box.size.width ≤ 2 ^ 119) && decide (value r.tree.datum.box.size.height ≤ 2 ^ 119)
        && r.tree.datum.box.glyphHeight.isFinite && decide (value r.tree.datum.box.glyphHeight ≤ 2 ^ 119))
      | .error _ => false) = true := by decide +kernel
  cases h : (p.perform ⟨"({a/b}{c/d})", none, "", none⟩).2.result with
  | error fault => rw [h] at hroom; exact absurd hroom nofun
  | ok rendering =>
    rw [h] at hroom
    simp only [Bool.and_eq_true, decide_eq_true_eq] at hroom
    obtain ⟨⟨⟨⟨⟨hx, hy⟩, hwidth⟩, hheight⟩, hfinite⟩, hglyph⟩ := hroom
    exact ⟨rendering, rfl, (output_numbers_finite rfl h).2.2.2 ⟨⟨hx, hy, hwidth, hheight⟩, hfinite, hglyph⟩⟩

/-- **The baseline is not checked**: the run succeeds, and writes a text at a height that is not finite -/
theorem infinite_baseline_written :
    let p : Pipeline := ⟨{ Config.standard with scale := 1e38, origin := ⟨0.0, 1.9e38⟩ }, 0⟩
    ∃ rendering, (p.perform ⟨"a_bc^d", none, "", none⟩).2.result = .ok rendering ∧
      ∃ c ∈ rendering.drawing.toList, ∃ x ∈ (Element.ofCommand c).numbers, x.isFinite = false := by
  intro p
  have hinfinite : (match (p.perform ⟨"a_bc^d", none, "", none⟩).2.result with
      | .ok r => decide (∃ c ∈ r.drawing.toList, ∃ x ∈ (Element.ofCommand c).numbers, x.isFinite = false)
      | .error _ => false) = true := by decide +kernel
  cases h : (p.perform ⟨"a_bc^d", none, "", none⟩).2.result with
  | error fault => rw [h] at hinfinite; exact absurd hinfinite nofun
  | ok rendering =>
    rw [h] at hinfinite
    exact ⟨rendering, rfl, of_decide_eq_true hinfinite⟩

end FormulaLayout.Pipeline
