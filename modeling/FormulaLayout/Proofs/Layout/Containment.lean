/-
Which boxes lie inside the box of their parent.

Every part lies in the strip that hangs from the box of its node: it begins neither left of it nor above it, and it
does not end right of it (`Built.nests_under`). At the lower edge one kind of node can fail. Two parts side by side are
shifted down to a common alignment line, and the height of the pair is the greater of their two heights. So the pair is
`Covered` if the part that is not shifted also reaches as far below the line as the one that is, and only then does its
box hold both (`Built.nests_within_iff`).

- `boxes_nested_iff_covered`: all boxes of a formula are nested, and all lie in that of the root, exactly if all its
  pairs are covered.
- `pair_sticks_out`: a base with a subscript beside one with a superscript is not covered.
-/
import Mathlib.Tactic
import FormulaLayout.Notation.Parser
import FormulaLayout.Proofs.Layout.Insets

namespace FormulaLayout

namespace Rect

/-- a box in the strip that hangs from another one, edges included -/
structure Under (r s : Rect ℚ) : Prop where
  left : s.x ≤ r.x
  top : s.y ≤ r.y
  right : r.right ≤ s.right

/-- a box inside another one, edges included -/
structure Within (r s : Rect ℚ) : Prop extends Under r s where
  bottom : r.bottom ≤ s.bottom

instance (r s : Rect ℚ) : Decidable (r.Within s) :=
  decidable_of_iff (s.x ≤ r.x ∧ s.y ≤ r.y ∧ r.right ≤ s.right ∧ r.bottom ≤ s.bottom)
    ⟨fun ⟨hleft, htop, hright, hbottom⟩ => ⟨⟨hleft, htop, hright⟩, hbottom⟩,
      fun h => ⟨h.left, h.top, h.right, h.bottom⟩⟩

theorem Under.refl (r : Rect ℚ) : r.Under r :=
  ⟨le_rfl, le_rfl, le_rfl⟩

theorem Under.trans {r s t : Rect ℚ} (h : r.Under s) (h' : s.Under t) : r.Under t :=
  ⟨h'.left.trans h.left, h'.top.trans h.top, h.right.trans h'.right⟩

theorem Within.refl (r : Rect ℚ) : r.Within r :=
  ⟨Under.refl r, le_rfl⟩

theorem Within.trans {r s t : Rect ℚ} (h : r.Within s) (h' : s.Within t) : r.Within t :=
  ⟨h.toUnder.trans h'.toUnder, h.bottom.trans h'.bottom⟩

end Rect

/-- how far a box reaches below its alignment line -/
def Sized.below (b : Sized ℚ) : ℚ :=
  b.size.height - b.divider

namespace Formula

/-- the boxes of all parts are so related to the box of the node -/
def Nests (R : Rect ℚ → Rect ℚ → Prop) (t : Formula (Placed ℚ)) : Prop :=
  ∀ c ∈ t.children, R c.datum.bounds t.datum.bounds

instance (R : Rect ℚ → Rect ℚ → Prop) [DecidableRel R] (t : Formula (Placed ℚ)) : Decidable (t.Nests R) :=
  inferInstanceAs (Decidable (∀ c ∈ t.children, R c.datum.bounds t.datum.bounds))

/-- of two parts side by side, one that is shifted down does not reach lower than the other -/
def Covered : Formula (Sized ℚ) → Prop
  | .concat _ l r =>
    (l.datum.divider < r.datum.divider → l.datum.below ≤ r.datum.below) ∧
      (r.datum.divider < l.datum.divider → r.datum.below ≤ l.datum.below)
  | _ => True

instance : DecidablePred Covered
  | .concat _ l r =>
    inferInstanceAs (Decidable ((l.datum.divider < r.datum.divider → l.datum.below ≤ r.datum.below) ∧
      (r.datum.divider < l.datum.divider → r.datum.below ≤ l.datum.below)))
  | .char _ _ | .fraction _ _ _ | .scripts _ _ _ _ | .paren _ _ => isTrue trivial

/-! ## From a node to the tree -/

/-- a box is so related to that of the root if each is to that of its parent -/
theorem related_to_root {R : Rect ℚ → Rect ℚ → Prop} (hrefl : ∀ r, R r r)
    (htrans : ∀ {r s t}, R r s → R s t → R r t) {t : Formula (Placed ℚ)} (h : ∀ n ∈ t.nodes, n.Nests R) :
    ∀ n ∈ t.nodes, R n.datum.bounds t.datum.bounds := by
  induction t using children_ind with
  | h t ih =>
    obtain ⟨hroot, hparts⟩ := forall_nodes_iff.1 h
    exact forall_nodes_iff.2 ⟨hrefl _, fun c hc n hn => htrans (ih c hc (hparts c hc) n hn) (hroot c hc)⟩

/-- how a placed node nests its parts, by their insets -/
theorem nests_placed {R : Rect ℚ → Rect ℚ → Prop} (t : Formula (Sized ℚ)) (o : Point ℚ) :
    (t.placed o).Nests R ↔ ∀ i ∈ t.insets,
      R ⟨o.x + i.left, o.y + i.top, i.part.datum.size.width, i.part.datum.size.height⟩
        ⟨o.x, o.y, t.datum.size.width, t.datum.size.height⟩ := by
  rw [Nests, children_placed, placed_bounds]
  simp only [List.forall_mem_map, Inset.at, placed_bounds, Point.shift]

theorem Built.nests_under {t : Formula (Sized ℚ)} (h : t.Built) (o : Point ℚ) : (t.placed o).Nests Rect.Under := by
  rw [nests_placed]
  intro i hi
  have hleft := h.inset_left i hi
  have htop := h.inset_top i hi
  have hright := h.inset_right i hi
  refine ⟨?_, ?_, ?_⟩
  · simpa using hleft
  · simpa using htop
  · simp only [Rect.right]; linarith

/-- every box lies in the strip that hangs from that of the root -/
theorem Built.nodes_under {t : Formula (Sized ℚ)} (h : t.Built) (o : Point ℚ) :
    (∀ n ∈ (t.placed o).nodes, n.Nests Rect.Under) ∧
      ∀ n ∈ (t.placed o).nodes, n.datum.bounds.Under (t.placed o).datum.bounds := by
  have hnests : ∀ n ∈ (t.placed o).nodes, n.Nests Rect.Under :=
    (forall_nodes_placed (Q := fun _ => True) (fun _ h o => iff_of_true (h.nests_under o) trivial) h o).2
      fun _ _ => trivial
  exact ⟨hnests, related_to_root Rect.Under.refl Rect.Under.trans hnests⟩

/-! ## The lower edge -/

/-- two parts side by side end inside their box exactly if the pair is covered -/
theorem pair_bottom_iff (l r : Sized ℚ) :
    (max l.divider r.divider - l.divider + l.size.height ≤ max l.size.height r.size.height ∧
      max l.divider r.divider - r.divider + r.size.height ≤ max l.size.height r.size.height) ↔
    (l.divider < r.divider → l.below ≤ r.below) ∧ (r.divider < l.divider → r.below ≤ l.below) := by
  simp only [Sized.below]
  rcases lt_trichotomy l.divider r.divider with h | h | h
  · -- the left part is shifted, so it does not reach the height of the pair from its own top
    simp only [max_eq_right h.le, h, not_lt_of_gt h, le_max_iff, sub_self, zero_add, le_refl, or_true, and_true,
      false_implies, true_implies]
    refine ⟨fun hl => ?_, fun hl => .inr (by linarith)⟩
    rcases hl with hl | hl <;> linarith
  · simp [h]
  · simp only [max_eq_left h.le, h, not_lt_of_gt h, le_max_iff, sub_self, zero_add, le_refl, true_or, true_and,
      false_implies, true_implies]
    refine ⟨fun hr => ?_, fun hr => .inl (by linarith)⟩
    rcases hr with hr | hr <;> linarith

/-- no part ends below its node exactly if the node is covered -/
theorem Built.inset_bottom_iff {t : Formula (Sized ℚ)} (h : t.Built) :
    (∀ i ∈ t.insets, i.top + i.part.datum.size.height ≤ t.datum.size.height) ↔ t.Covered := by
  cases h with
  | char hd => exact iff_of_true nofun trivial
  | @concat d l r hd hl hr =>
    rw [forall_insets_concat, datum_concat, Sized.beside_divider, Sized.beside_height]
    exact pair_bottom_iff l.datum r.datum
  | @fraction d n m hd hn hm =>
    have hgap := Metrics.fractionGap_pos hd
    refine iff_of_true ?_ trivial
    rw [forall_insets_fraction, datum_fraction, Sized.stacked_height, Sized.stacked_divider, Sized.stacked_scale]
    constructor
    · linarith [hm.proper.height_pos]
    · linarith
  | @scripts d b p q hd hb hp hq =>
    have ha := Sized.placement_arranged b.datum (p.map datum) (q.map datum)
    refine iff_of_true ?_ trivial
    rw [forall_insets_scripts, datum_scripts, Sized.scripted_height]
    refine ⟨ha.base_le, fun t ht => ?_, fun t ht => ?_⟩
    · have hbottom := ha.superscript_bottom t.datum.size (Option.mem_map_of_mem _ (Option.mem_map_of_mem datum ht))
      linarith [hb.proper.height_pos, ha.base_le]
    · exact ha.subscript_le t.datum.size (Option.mem_map_of_mem _ (Option.mem_map_of_mem datum ht))
  | @paren d t hd ht =>
    refine iff_of_true ?_ trivial
    rw [forall_insets_paren, datum_paren, Sized.enclosed_height, zero_add]

/-- the box of a node holds its parts exactly if the node is covered -/
theorem Built.nests_within_iff {t : Formula (Sized ℚ)} (h : t.Built) (o : Point ℚ) :
    (t.placed o).Nests Rect.Within ↔ t.Covered := by
  rw [← h.inset_bottom_iff, nests_placed]
  have hunder := (nests_placed t o).1 (h.nests_under o)
  refine ⟨fun hw i hi => ?_, fun hb i hi => ⟨hunder i hi, ?_⟩⟩
  · have := (hw i hi).bottom
    simp only [Rect.bottom] at this
    linarith
  · have := hb i hi
    simp only [Rect.bottom]
    linarith

/-- **Boxes are nested exactly where pairs are covered.** All boxes of a formula lie inside that of their parent, and so
inside that of the root, exactly if every pair of parts side by side is covered. On the left, at the top and on the
right they do whatever the formula is. -/
theorem boxes_nested_iff_covered (t : Expr) {scale : ℚ} (hscale : 0 < scale) (origin : Point ℚ) :
    let root := t.laidOut scale origin
    (((∀ n ∈ root.nodes, n.Nests Rect.Within) ∧ ∀ n ∈ root.nodes, n.datum.bounds.Within root.datum.bounds) ↔
        ∀ n ∈ (t.boxed scale).nodes, n.Covered) ∧
      (∀ n ∈ root.nodes, n.Nests Rect.Under) ∧ ∀ n ∈ root.nodes, n.datum.bounds.Under root.datum.bounds := by
  intro root
  have hbuilt := boxed_built hscale t
  have hwithin : (∀ n ∈ root.nodes, n.Nests Rect.Within) ↔ ∀ n ∈ (t.boxed scale).nodes, n.Covered :=
    forall_nodes_placed (fun _ h o => h.nests_within_iff o) hbuilt origin
  refine ⟨?_, hbuilt.nodes_under origin⟩
  rw [← hwithin]
  exact and_iff_left_of_imp fun h => related_to_root Rect.Within.refl Rect.Within.trans h

/-- the right part is shifted down by the numerator and still ends in the box of the pair -/
theorem quotient_holds_neighbour : ∃ e, Notation.parse "{a/b}c" = .ok e ∧ (0 : ℚ) < 1 ∧
    (∀ n ∈ (e.laidOut (1 : ℚ) ⟨0, 0⟩).nodes, n.Nests Rect.Within) ∧
      ∀ n ∈ (e.laidOut (1 : ℚ) ⟨0, 0⟩).nodes, n.datum.bounds.Within (e.laidOut (1 : ℚ) ⟨0, 0⟩).datum.bounds := by
  refine ⟨_, rfl, one_pos, (boxes_nested_iff_covered _ one_pos ⟨0, 0⟩).1.2 ?_⟩
  decide +kernel

/-- a base whose subscript hangs low is shifted down beside a superscript, and then ends below the box of the pair -/
theorem pair_sticks_out : ∃ e, Notation.parse "a_bc^d" = .ok e ∧
    (∃ c ∈ (e.laidOut (1 : ℚ) ⟨0, 0⟩).children, c.datum.bounds.bottom = 17 / 10) ∧
      (e.laidOut (1 : ℚ) ⟨0, 0⟩).datum.bounds.bottom = 7 / 5 ∧
      ¬ ∀ n ∈ (e.laidOut (1 : ℚ) ⟨0, 0⟩).nodes, n.Nests Rect.Within := by
  refine ⟨_, rfl, ?_⟩
  decide +kernel

end Formula

end FormulaLayout
