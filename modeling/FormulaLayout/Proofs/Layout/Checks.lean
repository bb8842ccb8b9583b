/-
What a layout that succeeds has passed.

An engine succeeds exactly if its scale and its corner are allowed, the formula is not too deep, and the root has a box
and a far corner that are allowed; what it gives then is the result of the three passes (`layout_eq_ok_iff`).
-/
import FormulaLayout.Layout.Engine
import FormulaLayout.Proofs.Layout.Insets
import FormulaLayout.Proofs.Notation.Limits

namespace FormulaLayout.Engine

open Notation (bind_eq_ok)

variable {α : Type} [Scalar α]

theorem validate_eq_ok_iff {engine : Engine α} :
    engine.validate = .ok () ↔
      Scalar.isFinite engine.scale ∧ ¬ engine.scale ≤ 0.0 ∧ engine.origin.isFinite := by
  unfold validate
  split_ifs with hscale horigin
  · refine iff_of_false nofun ?_
    rintro ⟨hfinite, hpos, -⟩
    simp [hfinite, hpos] at hscale
  · refine iff_of_false nofun ?_
    rintro ⟨-, -, hfinite⟩
    simp [hfinite] at horigin
  · simp_all

theorem checkBox_eq_ok_iff {box : Sized α} :
    checkBox box = .ok () ↔
      (Scalar.isFinite box.size.width ∧ Scalar.isFinite box.size.height ∧ Scalar.isFinite box.divider) ∧
        ¬ box.size.width ≤ 0.0 ∧ ¬ box.size.height ≤ 0.0 := by
  unfold checkBox
  dsimp only
  split_ifs with hbox
  · refine iff_of_false nofun ?_
    rintro ⟨⟨hwidth, hheight, hdivider⟩, hwide, htall⟩
    simp [hwidth, hheight, hdivider, hwide, htall] at hbox
  · simp_all

theorem checkBounds_eq_ok_iff {bounds : Rect α} :
    checkBounds bounds = .ok () ↔ Scalar.isFinite bounds.right ∧ Scalar.isFinite bounds.bottom := by
  unfold checkBounds
  split_ifs with hbounds
  · refine iff_of_false nofun ?_
    rintro ⟨hright, hbottom⟩
    simp [hright, hbottom] at hbounds
  · simp_all

/-- an engine succeeds exactly if all checks do, and gives what the passes give -/
theorem layout_eq_ok_iff {engine : Engine α} {e : Expr} {tree : Formula (Placed α)} :
    engine.layout e = .ok tree ↔
      engine.validate = .ok () ∧ e.depth ≤ Formula.maxDepth ∧
        checkBox (e.scaled engine.scale).sized.datum = .ok () ∧
          checkBounds (e.laidOut engine.scale engine.origin).datum.bounds = .ok () ∧
            tree = e.laidOut engine.scale engine.origin := by
  unfold layout
  rw [bind_eq_ok]
  constructor
  · rintro ⟨⟨⟩, hvalidate, h⟩
    by_cases hdepth : Formula.maxDepth < e.depth
    · rw [if_pos hdepth] at h
      exact absurd h nofun
    · rw [if_neg hdepth] at h
      obtain ⟨⟨⟩, hbox, h⟩ := bind_eq_ok.1 h
      obtain ⟨⟨⟩, hbounds, h⟩ := bind_eq_ok.1 h
      exact ⟨hvalidate, not_lt.1 hdepth, hbox, hbounds, (Except.ok.inj h).symm⟩
  · rintro ⟨hvalidate, hdepth, hbox, hbounds, rfl⟩
    refine ⟨(), hvalidate, ?_⟩
    rw [if_neg (not_lt.2 hdepth)]
    exact bind_eq_ok.2 ⟨(), hbox, bind_eq_ok.2 ⟨(), hbounds, rfl⟩⟩

/-- an engine that succeeds has laid the formula out at its scale and its corner -/
theorem eq_laidOut_of_layout {engine : Engine α} {e : Expr} {tree : Formula (Placed α)}
    (h : engine.layout e = .ok tree) : tree = e.laidOut engine.scale engine.origin := by
  obtain ⟨-, -, -, -, h⟩ := layout_eq_ok_iff.1 h
  exact h

end FormulaLayout.Engine
