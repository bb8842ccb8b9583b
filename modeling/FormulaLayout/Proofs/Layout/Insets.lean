/-
Where a node places its parts.

An inset is a part of a sized node with its distance from the node's top-left corner. The third pass places every part
at its inset (`children_placed`), so it moves a whole tree by moving its root, and a property of all placed nodes that
depends on the node's own insets only is a property of the sized tree (`forall_nodes_placed`).

In a tree that is built no part begins left of its node or above it, and none ends right of it (`Built.inset_left`,
`Built.inset_top`, `Built.inset_right`).
-/
import Mathlib.Tactic
import FormulaLayout.Proofs.Formula.Nodes
import FormulaLayout.Proofs.Layout.Exact
import FormulaLayout.Proofs.Layout.Passes

namespace FormulaLayout

/-- the point so far to the right and further down -/
def Point.shift (o : Point ℚ) (dx dy : ℚ) : Point ℚ :=
  ⟨o.x + dx, o.y + dy⟩

namespace Formula

/-- a part of a node and its distance from the node's corner -/
structure Inset where
  left : ℚ
  top : ℚ
  part : Formula (Sized ℚ)

/-- the parts of a node in order, with their distances -/
def insets : Formula (Sized ℚ) → List Inset
  | .char _ _ => []
  | .concat d l r =>
    [⟨0, d.divider - l.datum.divider, l⟩, ⟨l.datum.size.width, d.divider - r.datum.divider, r⟩]
  | .fraction d n m =>
    [⟨(d.size.width - n.datum.size.width) / 2, 0, n⟩,
      ⟨(d.size.width - m.datum.size.width) / 2, d.divider + Metrics.fractionGap d.scale / 2, m⟩]
  | .scripts _ b p q =>
    let a := Sized.placement b.datum (p.map datum) (q.map datum)
    ⟨0, a.baseTop, b⟩ :: (p.toList.map (⟨b.datum.size.width, a.baseTop - a.superOffset, ·⟩)
      ++ q.toList.map (⟨b.datum.size.width, a.baseTop + a.subOffset, ·⟩))
  | .paren d t => [⟨Metrics.parenPadding d.scale, 0, t⟩]

/-- the part of an inset, when the node has its corner at the point -/
def Inset.at (o : Point ℚ) (i : Inset) : Formula (Placed ℚ) :=
  i.part.placed (o.shift i.left i.top)

/-- a box that is placed has its corner there -/
theorem placed_bounds (t : Formula (Sized ℚ)) (o : Point ℚ) :
    (t.placed o).datum.bounds = ⟨o.x, o.y, t.datum.size.width, t.datum.size.height⟩ := by
  rw [placed_datum]; rfl

theorem placed_concat (o : Point ℚ) (d : Sized ℚ) (l r : Formula (Sized ℚ)) :
    placed o (.concat d l r) =
      .concat ⟨d, o⟩ (l.placed (o.shift 0 (d.divider - l.datum.divider)))
        (r.placed (o.shift l.datum.size.width (d.divider - r.datum.divider))) := by
  simp only [Point.shift, add_zero, ← add_sub_assoc]; rfl

theorem placed_fraction (o : Point ℚ) (d : Sized ℚ) (n m : Formula (Sized ℚ)) :
    placed o (.fraction d n m) =
      .fraction ⟨d, o⟩ (n.placed (o.shift ((d.size.width - n.datum.size.width) / 2) 0))
        (m.placed (o.shift ((d.size.width - m.datum.size.width) / 2)
          (d.divider + Metrics.fractionGap d.scale / 2))) := by
  simp only [Point.shift, add_zero, ← add_assoc, ← two_literal]; rfl

theorem placed_scripts_shift (o : Point ℚ) (d : Sized ℚ) (b : Formula (Sized ℚ)) (p q : Option (Formula (Sized ℚ))) :
    placed o (.scripts d b p q) =
      let a := Sized.placement b.datum (p.map datum) (q.map datum)
      .scripts ⟨d, o⟩ (b.placed (o.shift 0 a.baseTop))
        (p.map (placed (o.shift b.datum.size.width (a.baseTop - a.superOffset))))
        (q.map (placed (o.shift b.datum.size.width (a.baseTop + a.subOffset)))) := by
  simp only [Point.shift, add_zero, ← add_assoc, ← add_sub_assoc]
  exact placed_scripts o d b p q

theorem placed_paren (o : Point ℚ) (d : Sized ℚ) (t : Formula (Sized ℚ)) :
    placed o (.paren d t) = .paren ⟨d, o⟩ (t.placed (o.shift (Metrics.parenPadding d.scale) 0)) := by
  simp only [Point.shift, add_zero]; rfl

/-- the parts of a placed node are its parts at their insets -/
theorem children_placed (t : Formula (Sized ℚ)) (o : Point ℚ) :
    (t.placed o).children = t.insets.map (Inset.at o) := by
  cases t with
  | char d c => rfl
  | concat d l r => rw [placed_concat]; rfl
  | fraction d n m => rw [placed_fraction]; rfl
  | scripts d b p q => rw [placed_scripts_shift]; cases p <;> cases q <;> rfl
  | paren d t => rw [placed_paren]; rfl

theorem children_eq_insets (t : Formula (Sized ℚ)) : t.children = t.insets.map Inset.part := by
  cases t with
  | scripts d b p q => cases p <;> cases q <;> rfl
  | _ => rfl

/-- induction over the parts of a node at their insets -/
theorem insets_ind {motive : Formula (Sized ℚ) → Prop} (h : ∀ t, (∀ i ∈ t.insets, motive i.part) → motive t)
    (t : Formula (Sized ℚ)) : motive t := by
  induction t using children_ind with
  | h t ih =>
    refine h t fun i hi => ih i.part ?_
    rw [children_eq_insets]
    exact List.mem_map_of_mem hi

/-! ## A property of all parts -/

section

variable {P : Inset → Prop} {d : Sized ℚ}

theorem forall_insets_concat {l r : Formula (Sized ℚ)} :
    (∀ i ∈ insets (.concat d l r), P i) ↔
      P ⟨0, d.divider - l.datum.divider, l⟩ ∧ P ⟨l.datum.size.width, d.divider - r.datum.divider, r⟩ := by
  simp [insets]

theorem forall_insets_fraction {n m : Formula (Sized ℚ)} :
    (∀ i ∈ insets (.fraction d n m), P i) ↔
      P ⟨(d.size.width - n.datum.size.width) / 2, 0, n⟩ ∧
        P ⟨(d.size.width - m.datum.size.width) / 2, d.divider + Metrics.fractionGap d.scale / 2, m⟩ := by
  simp [insets]

theorem forall_insets_scripts {b : Formula (Sized ℚ)} {p q : Option (Formula (Sized ℚ))} :
    (∀ i ∈ insets (.scripts d b p q), P i) ↔
      let a := Sized.placement b.datum (p.map datum) (q.map datum)
      P ⟨0, a.baseTop, b⟩ ∧ (∀ t ∈ p, P ⟨b.datum.size.width, a.baseTop - a.superOffset, t⟩) ∧
        ∀ t ∈ q, P ⟨b.datum.size.width, a.baseTop + a.subOffset, t⟩ := by
  cases p <;> cases q <;> simp [insets]

theorem forall_insets_paren {t : Formula (Sized ℚ)} :
    (∀ i ∈ insets (.paren d t), P i) ↔ P ⟨Metrics.parenPadding d.scale, 0, t⟩ := by
  simp [insets]

end

/-! ## Insets of a built node -/

theorem Built.of_inset {t : Formula (Sized ℚ)} (h : t.Built) : ∀ i ∈ t.insets, i.part.Built := by
  cases h with
  | char hd => exact nofun
  | concat hd hl hr => exact forall_insets_concat.2 ⟨hl, hr⟩
  | fraction hd hn hm => exact forall_insets_fraction.2 ⟨hn, hm⟩
  | scripts hd hb hp hq => exact forall_insets_scripts.2 ⟨hb, hp, hq⟩
  | paren hd ht => exact forall_insets_paren.2 ht

/-- no part begins left of its node -/
theorem Built.inset_left {t : Formula (Sized ℚ)} (h : t.Built) : ∀ i ∈ t.insets, 0 ≤ i.left := by
  cases h with
  | char hd => exact nofun
  | concat hd hl hr => exact forall_insets_concat.2 ⟨le_rfl, hl.proper.width_pos.le⟩
  | @fraction d n m hd hn hm =>
    rw [forall_insets_fraction, Sized.stacked_width]
    constructor
    · linarith [le_max_left n.datum.size.width m.datum.size.width]
    · linarith [le_max_right n.datum.size.width m.datum.size.width]
  | scripts hd hb hp hq =>
    have hwidth := hb.proper.width_pos.le
    exact forall_insets_scripts.2 ⟨le_rfl, fun _ _ => hwidth, fun _ _ => hwidth⟩
  | paren hd ht => exact forall_insets_paren.2 (Metrics.parenPadding_pos hd).le

/-- no part begins above its node -/
theorem Built.inset_top {t : Formula (Sized ℚ)} (h : t.Built) : ∀ i ∈ t.insets, 0 ≤ i.top := by
  cases h with
  | char hd => exact nofun
  | @concat d l r hd hl hr =>
    rw [forall_insets_concat, Sized.beside_divider]
    exact ⟨sub_nonneg.2 (le_max_left _ _), sub_nonneg.2 (le_max_right _ _)⟩
  | @fraction d n m hd hn hm =>
    have hgap := Metrics.fractionGap_pos hd
    have hheight := hn.proper.height_pos
    rw [forall_insets_fraction, Sized.stacked_divider, Sized.stacked_scale]
    exact ⟨le_rfl, by linarith⟩
  | @scripts d b p q hd hb hp hq =>
    have ha := Sized.placement_arranged b.datum (p.map datum) (q.map datum)
    have hheight := hb.proper.height_pos
    refine forall_insets_scripts.2 ⟨ha.baseTop_nonneg, fun t ht => ?_, fun t ht => ?_⟩
    · exact ha.superscript_nonneg t.datum.size (Option.mem_map_of_mem _ (Option.mem_map_of_mem datum ht))
    · rw [ha.subscript_top]
      linarith [ha.baseTop_nonneg]
  | paren hd ht => exact forall_insets_paren.2 le_rfl

/-- no part ends right of its node -/
theorem Built.inset_right {t : Formula (Sized ℚ)} (h : t.Built) :
    ∀ i ∈ t.insets, i.left + i.part.datum.size.width ≤ t.datum.size.width := by
  cases h with
  | char hd => exact nofun
  | @concat d l r hd hl hr =>
    rw [forall_insets_concat, datum_concat, Sized.beside_width]
    constructor
    · linarith [hr.proper.width_pos]
    · exact le_rfl
  | @fraction d n m hd hn hm =>
    rw [forall_insets_fraction, datum_fraction, Sized.stacked_width]
    constructor
    · linarith [le_max_left n.datum.size.width m.datum.size.width]
    · linarith [le_max_right n.datum.size.width m.datum.size.width]
  | @scripts d b p q hd hb hp hq =>
    have hnonneg := scriptWidth_datum_nonneg hp (q.map datum)
    rw [forall_insets_scripts, datum_scripts, Sized.scripted_width]
    refine ⟨by linarith, fun t ht => ?_, fun t ht => ?_⟩
    · have hscript := Sized.le_scriptWidth_left (q := q.map datum) t.datum (Option.mem_map_of_mem datum ht)
      linarith
    · have hscript := Sized.le_scriptWidth_right (p := p.map datum) t.datum (Option.mem_map_of_mem datum ht)
      linarith
  | @paren d t hd ht =>
    have hpad := Metrics.parenPadding_pos hd
    rw [forall_insets_paren, datum_paren, Sized.enclosed_width, Sized.enclosed_scale]
    linarith

/-! ## All placed nodes -/

/-- what a placed node has by its insets alone, all placed nodes have by those of the sized tree -/
theorem forall_nodes_placed {P : Formula (Placed ℚ) → Prop} {Q : Formula (Sized ℚ) → Prop}
    (hPQ : ∀ t : Formula (Sized ℚ), t.Built → ∀ o, P (t.placed o) ↔ Q t) {t : Formula (Sized ℚ)} (h : t.Built)
    (o : Point ℚ) : (∀ n ∈ (t.placed o).nodes, P n) ↔ ∀ n ∈ t.nodes, Q n := by
  induction t using insets_ind generalizing o with
  | h t ih =>
    have hpart : ∀ i ∈ t.insets, ((∀ n ∈ (i.at o).nodes, P n) ↔ ∀ n ∈ i.part.nodes, Q n) :=
      fun i hi => ih i hi (h.of_inset i hi) _
    rw [forall_nodes_iff, forall_nodes_iff, hPQ t h o, children_placed, children_eq_insets]
    simp only [List.forall_mem_map]
    exact and_congr_right fun _ => forall₂_congr hpart

end Formula

end FormulaLayout
