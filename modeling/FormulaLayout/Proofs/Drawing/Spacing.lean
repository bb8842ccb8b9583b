/-
How the parts of a node are spaced.

A node keeps the boxes of its parts apart in one of two ways. What stands side by side shares an edge at most: neighbours,
and a base and its scripts. What stands one above another has a space between: the two parts of a fraction half a gap on
either side of the rule, and the two scripts the middle of their base, since a superscript ends above it and a subscript
starts below it. How tall the parts are does not matter.

`Spaced` collects what holds of the boxes of one node and its parts. The conditions lean on each other: the middle of a
base lies strictly between its scripts because the base has a height, and the rule strictly between the parts because the
scale is positive.

- `nodes_spaced`: at a positive scale every node of a layout is spaced, and no box of it is degenerate, so that the
  engine refuses nothing but a formula that is too deep.
-/
import Mathlib.Tactic
import FormulaLayout.Proofs.Drawing.Similarity
import FormulaLayout.Proofs.Drawing.Elements
import FormulaLayout.Proofs.Layout.Containment

namespace FormulaLayout

namespace Formula

/-- the boxes of any two parts share no inner point -/
def SiblingsApart (t : Formula (Placed ℚ)) : Prop :=
  t.children.Pairwise fun c c' => c.datum.bounds.intersects c'.datum.bounds = false

/-- the rule of a fraction runs half a gap below the numerator and half a gap above the denominator -/
def RuleCentred : Formula (Placed ℚ) → Prop
  | .fraction p n m =>
    let y := (p.rule n.datum.box m.datum.box).start.y
    (n.datum.bounds.bottom < y ∧ y < m.datum.bounds.y) ∧
      y - n.datum.bounds.bottom = Metrics.fractionGap p.box.scale / 2 ∧
        m.datum.bounds.y - y = Metrics.fractionGap p.box.scale / 2
  | _ => True

/-- a superscript ends above the middle of the base, and a subscript starts below it -/
def ScriptsBesideMiddle : Formula (Placed ℚ) → Prop
  | .scripts _ b p q =>
    (∀ s ∈ p, s.datum.bounds.bottom < b.datum.bounds.center.y) ∧
      ∀ s ∈ q, b.datum.bounds.center.y < s.datum.bounds.y
  | _ => True

/-- the box of a node and those of its parts -/
structure Spaced (t : Formula (Placed ℚ)) : Prop where
  proper : t.datum.box.Proper
  top_le : ∀ c ∈ t.children, t.datum.bounds.y ≤ c.datum.bounds.y
  siblings : t.SiblingsApart
  rule : t.RuleCentred
  scripts : t.ScriptsBesideMiddle

/-! ## Two boxes -/

variable {t u : Formula (Sized ℚ)} {o o' : Point ℚ}

/-- a box that ends where the other one begins, or left of it -/
theorem bounds_apart_beside (h : o.x + t.datum.size.width ≤ o'.x) :
    (t.placed o).datum.bounds.Apart (u.placed o').datum.bounds := by
  rw [placed_bounds, placed_bounds, Rect.apart_iff]
  exact Or.inr (Or.inl h)

/-- a box that ends where the other one begins, or above it -/
theorem bounds_apart_above (h : o.y + t.datum.size.height ≤ o'.y) :
    (t.placed o).datum.bounds.Apart (u.placed o').datum.bounds := by
  rw [placed_bounds, placed_bounds, Rect.apart_iff]
  exact Or.inr (Or.inr (Or.inr h))

/-! ## One node -/

/-- the siblings of a placed node are the parts at their insets -/
theorem siblingsApart_placed (t : Formula (Sized ℚ)) (o : Point ℚ) :
    (t.placed o).SiblingsApart ↔
      t.insets.Pairwise fun i j => (i.at o).datum.bounds.Apart (j.at o).datum.bounds := by
  rw [SiblingsApart, children_placed, List.pairwise_map]
  rfl

/-- a base is apart from both scripts, and these are apart from each other -/
theorem Built.scripts_siblingsApart {d : Sized ℚ} {b : Formula (Sized ℚ)} {p q : Option (Formula (Sized ℚ))}
    (hb : b.Built) (o : Point ℚ) : (placed o (.scripts d b p q)).SiblingsApart := by
  have hheight := hb.proper.height_pos
  have hbase : ∀ (s : Formula (Sized ℚ)) (y y' : ℚ),
      (b.placed (o.shift 0 y)).datum.bounds.Apart (s.placed (o.shift b.datum.size.width y')).datum.bounds := by
    intro s y y'
    apply bounds_apart_beside
    simp only [Point.shift, add_zero, le_refl]
  rw [siblingsApart_placed]
  cases p with
  | none =>
    cases q with
    | none => exact List.pairwise_singleton _ _
    | some q => exact List.pairwise_pair.2 (hbase q _ _)
  | some p =>
    cases q with
    | none => exact List.pairwise_pair.2 (hbase p _ _)
    | some q =>
      have ha := Sized.placement_arranged b.datum (some p.datum) (some q.datum)
      refine List.pairwise_cons.2 ⟨?_, List.pairwise_pair.2 ?_⟩
      · exact List.forall_mem_cons.2 ⟨hbase p _ _, List.forall_mem_singleton.2 (hbase q _ _)⟩
      · -- the superscript ends at two fifths of the base, and the subscript starts at seven tenths of it
        have hbottom := ha.superscript_bottom p.datum.size rfl
        have htop := ha.subscript_top
        apply bounds_apart_above
        simp only [Point.shift, Option.map_some]
        linarith

theorem Built.siblingsApart (h : t.Built) (o : Point ℚ) : (t.placed o).SiblingsApart := by
  cases h with
  | char hd =>
    rw [siblingsApart_placed]
    exact List.Pairwise.nil
  | concat hd hl hr =>
    rw [siblingsApart_placed]
    apply List.pairwise_pair.2
    apply bounds_apart_beside
    simp only [Point.shift, add_zero, le_refl]
  | @fraction d n m hd hn hm =>
    have hgap := Metrics.fractionGap_pos hd
    rw [siblingsApart_placed]
    apply List.pairwise_pair.2
    apply bounds_apart_above
    simp only [Point.shift, Sized.stacked_divider, Sized.stacked_scale]
    linarith
  | scripts hd hb hp hq => exact hb.scripts_siblingsApart o
  | paren hd ht =>
    rw [siblingsApart_placed]
    exact List.pairwise_singleton _ _

theorem Built.ruleCentred (h : t.Built) (o : Point ℚ) : (t.placed o).RuleCentred := by
  cases h with
  | @fraction d n m hd hn hm =>
    have hgap := Metrics.fractionGap_pos hd
    rw [placed_fraction]
    simp only [RuleCentred, Placed.rule, Placed.dividerY, placed_bounds, Rect.bottom, Point.shift,
      Sized.stacked_divider, Sized.stacked_scale, add_zero]
    refine ⟨⟨?_, ?_⟩, ?_, ?_⟩
    · linarith
    · linarith
    · ring
    · ring
  | scripts hd hb hp hq => rw [placed_scripts_shift]; trivial
  | _ => trivial

theorem Built.scriptsBesideMiddle (h : t.Built) (o : Point ℚ) : (t.placed o).ScriptsBesideMiddle := by
  cases h with
  | @scripts d b p q hd hb hp hq =>
    have hheight := hb.proper.height_pos
    have ha := Sized.placement_arranged b.datum (p.map datum) (q.map datum)
    rw [placed_scripts_shift]
    constructor
    · intro s hs
      obtain ⟨u, hu, rfl⟩ := Option.mem_map.1 hs
      have hbottom := ha.superscript_bottom u.datum.size (Option.mem_map_of_mem _ (Option.mem_map_of_mem datum hu))
      simp only [placed_bounds, Rect.bottom, Rect.center, Point.shift, two_literal]
      linarith
    · intro s hs
      obtain ⟨u, -, rfl⟩ := Option.mem_map.1 hs
      have htop := ha.subscript_top
      simp only [placed_bounds, Rect.center, Point.shift, two_literal]
      linarith
  | _ => trivial

theorem Built.spaced (h : t.Built) (o : Point ℚ) : (t.placed o).Spaced where
  proper := by
    rw [placed_datum]
    exact h.proper
  top_le c hc := (h.nests_under o c hc).top
  siblings := h.siblingsApart o
  rule := h.ruleCentred o
  scripts := h.scriptsBesideMiddle o

/-! ## The layout -/

/-- **Every node of a layout is spaced.** At any positive scale and from any corner: each box has a width and a height,
and its alignment line strictly inside; no part begins above its node; the boxes of siblings share no inner point; a
rule has half a gap on either side; scripts keep to their sides of the middle of the base. So no box is degenerate, and
the engine refuses a formula only for its depth. -/
theorem nodes_spaced (t : Expr) {scale : ℚ} (hscale : 0 < scale) (origin : Point ℚ) :
    (∀ n ∈ (t.laidOut scale origin).nodes, n.Spaced) ∧
      (Engine.mk scale origin).layout t =
        if maxDepth < t.depth then .error (.tooDeep t.depth maxDepth) else .ok (t.laidOut scale origin) := by
  have hbuilt := boxed_built hscale t
  constructor
  · exact (forall_nodes_placed (Q := fun _ => True) (fun _ h o => iff_of_true (h.spaced o) trivial) hbuilt origin).2
      fun _ _ => trivial
  · split_ifs with hdepth
    · exact Engine.layout_tooDeep hdepth hscale origin
    · exact Engine.layout_exact (not_lt.1 hdepth) hscale origin

/-- a superscript that is taller than its base, above a subscript in parentheses -/
theorem tall_superscript_spaced : ∃ e, Notation.parse "x^\x7ba/b/c\x7d_\x7b(i)\x7d" = .ok e ∧ (0 : ℚ) < 1 ∧
    (∃ n ∈ (e.laidOut (1 : ℚ) ⟨0, 0⟩).nodes, n.kindName = "SuperSubscript" ∧ n.Spaced) ∧
      (Engine.mk (1 : ℚ) ⟨0, 0⟩).layout e = .ok (e.laidOut 1 ⟨0, 0⟩) := by
  have hnode : ∃ e, Notation.parse "x^\x7ba/b/c\x7d_\x7b(i)\x7d" = .ok e ∧ ¬ maxDepth < e.depth ∧
      ∃ n ∈ (e.laidOut (1 : ℚ) ⟨0, 0⟩).nodes, n.kindName = "SuperSubscript" :=
    ⟨_, rfl, by decide +kernel, by decide +kernel⟩
  obtain ⟨e, he, hdepth, n, hn, hkind⟩ := hnode
  obtain ⟨hspaced, hlayout⟩ := nodes_spaced e one_pos ⟨0, 0⟩
  rw [if_neg hdepth] at hlayout
  exact ⟨e, he, one_pos, ⟨n, hn, hkind, hspaced n hn⟩, hlayout⟩

end Formula

end FormulaLayout
