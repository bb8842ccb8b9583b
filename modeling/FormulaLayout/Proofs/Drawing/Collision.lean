/-
Where the elements of a drawing collide.

Side by side nothing collides: neighbours, and a base and its scripts, share the width of their node. One above another
two kinds of node can fail, and only through what reaches below a box:
- a fraction, if its numerator reaches the rule;
- a base with two scripts, if an element of the superscript comes down to one of the subscript.
A node where this does not happen is `Clear`.

- `drawing_apart_iff_clear`: no two elements of a drawing collide, and every rule separates the parts of its fraction,
  exactly if all nodes are clear. So it is where all pairs are covered.
- `rule_through_numerator`: a numerator that sticks out of its box is crossed by the rule below it.
-/
import Mathlib.Tactic
import FormulaLayout.Notation.Parser
import FormulaLayout.Proofs.Drawing.Extent

namespace FormulaLayout.Formula

/-- the numerator ends above the rule, or the superscript is apart from the subscript -/
def Clear : Formula (Sized ℚ) → Prop
  | .fraction d n _ => n.reach < d.divider
  | .scripts _ b (some p) (some q) =>
    let a := Sized.placement b.datum (some p.datum) (some q.datum)
    ∀ r ∈ (p.placed ⟨0, 0⟩).elements, ∀ s ∈ (q.placed ⟨0, a.superOffset + a.subOffset⟩).elements, r.Apart s
  | _ => True

instance : DecidablePred Clear
  | .fraction d n _ => inferInstanceAs (Decidable (n.reach < d.divider))
  | .scripts _ b (some p) (some q) =>
    inferInstanceAs (Decidable (∀ r ∈ (p.placed ⟨0, 0⟩).elements, ∀ s ∈ (q.placed ⟨0,
      (Sized.placement b.datum (some p.datum) (some q.datum)).superOffset +
        (Sized.placement b.datum (some p.datum) (some q.datum)).subOffset⟩).elements, r.Apart s))
  | .char _ _ | .concat _ _ _ | .scripts _ _ none _ | .scripts _ _ (some _) none | .paren _ _ => isTrue trivial

/-! ## Two formulas -/

variable {t u : Formula (Sized ℚ)}

/-- formulas side by side are apart -/
theorem Built.apart_beside (ht : t.Built) (hu : u.Built) {o o' : Point ℚ} (h : o.x + t.datum.size.width ≤ o'.x) :
    ∀ r ∈ (t.placed o).elements, ∀ s ∈ (u.placed o').elements, r.Apart s := by
  intro r hr s hs
  have hright := (ht.elements_under o r hr).right
  have hleft := (hu.elements_under o' s hs).left
  rw [placed_bounds] at hright hleft
  exact Rect.apart_iff.2 (.inr (.inl (hright.trans (h.trans hleft))))

/-- formulas one above another are apart, if the upper does not reach the box of the lower -/
theorem Built.apart_above (ht : t.Built) (hu : u.Built) {o o' : Point ℚ} (h : o.y + t.reach ≤ o'.y) :
    ∀ r ∈ (t.placed o).elements, ∀ s ∈ (u.placed o').elements, r.Apart s := by
  intro r hr s hs
  have hbottom := ht.elements_bottom_le o r hr
  have htop := (hu.elements_under o' s hs).top
  rw [placed_bounds] at htop
  exact Rect.apart_iff.2 (.inr (.inr (.inr (hbottom.trans (h.trans htop)))))

/-- whether two formulas are apart depends on their distance only -/
theorem apart_shift_iff (t u : Formula (Sized ℚ)) (o o' : Point ℚ) (dx dy : ℚ) :
    (∀ r ∈ (t.placed (o.shift dx dy)).elements, ∀ s ∈ (u.placed (o'.shift dx dy)).elements, r.Apart s) ↔
      ∀ r ∈ (t.placed o).elements, ∀ s ∈ (u.placed o').elements, r.Apart s := by
  simp only [elements_shift, List.forall_mem_map, Rect.shift_apart]

/-! ## One node -/

theorem parted_placed (t : Formula (Sized ℚ)) (o : Point ℚ) :
    (t.placed o).Parted ↔
      (∀ r ∈ (t.placed o).element?, ∀ i ∈ t.insets, ∀ s ∈ (i.at o).elements, r.Apart s) ∧
        t.insets.Pairwise fun i j => ∀ r ∈ (i.at o).elements, ∀ s ∈ (j.at o).elements, r.Apart s := by
  rw [Parted, children_placed, List.pairwise_map]
  simp only [List.forall_mem_map]

/-- the rule of a fraction runs between its parts exactly if the numerator does not reach it -/
theorem Built.ruleSeparates_iff_clear {d : Scaled ℚ} {n m : Formula (Sized ℚ)} (hd : 0 < d.scale) (hn : n.Built)
    (hm : m.Built) (o : Point ℚ) :
    (placed o (.fraction (.stacked d n.datum m.datum) n m)).RuleSeparates ↔
      Clear (.fraction (.stacked d n.datum m.datum) n m) := by
  have hgap := Metrics.fractionGap_pos hd
  rw [placed_fraction, ruleSeparates_iff, hn.elements_bottom_lt_iff]
  simp only [Placed.dividerY, Point.shift, add_zero, add_lt_add_iff_left]
  refine and_iff_left fun r hr => ?_
  have htop := (hm.elements_under _ r hr).top
  simp only [placed_bounds, Sized.stacked_scale] at htop
  linarith

/-- the rule of a fraction whose numerator does not reach it is apart from both parts -/
theorem Built.parted_fraction {d : Scaled ℚ} {n m : Formula (Sized ℚ)} (hd : 0 < d.scale) (hn : n.Built)
    (hm : m.Built) (o : Point ℚ) (h : Clear (.fraction (.stacked d n.datum m.datum) n m)) :
    (placed o (.fraction (.stacked d n.datum m.datum) n m)).Parted := by
  have hgap := Metrics.fractionGap_pos hd
  obtain ⟨hnumerator, hdenominator⟩ :=
    ruleSeparates_iff.1 (by simpa only [placed_fraction] using (hn.ruleSeparates_iff_clear hd hm o).2 h)
  rw [Clear] at h
  rw [parted_placed, element?_placed]
  simp only [mark?, insets, Option.map_some, Option.mem_some_iff, forall_eq', List.forall_mem_cons, List.pairwise_pair,
    List.not_mem_nil, false_implies, implies_true, and_true]
  refine ⟨⟨fun s hs => ?_, fun s hs => ?_⟩, ?_⟩
  · have := hnumerator s hs
    refine Rect.apart_iff.2 (.inr (.inr (.inl ?_)))
    simp only [Rect.shift, Placed.dividerY] at this ⊢
    linarith
  · have := hdenominator s hs
    refine Rect.apart_iff.2 (.inr (.inr (.inr ?_)))
    simp only [Rect.shift, Rect.bottom, Placed.dividerY] at this ⊢
    linarith
  · refine hn.apart_above hm ?_
    simp only [Point.shift, Sized.stacked_scale]
    linarith

/-- two scripts are apart at their insets exactly if the node is clear -/
theorem scripts_apart_iff_clear (d : Sized ℚ) (b p q : Formula (Sized ℚ)) (o : Point ℚ) :
    let a := Sized.placement b.datum (some p.datum) (some q.datum)
    (∀ r ∈ (p.placed (o.shift b.datum.size.width (a.baseTop - a.superOffset))).elements,
      ∀ s ∈ (q.placed (o.shift b.datum.size.width (a.baseTop + a.subOffset))).elements, r.Apart s) ↔
        Clear (.scripts d b (some p) (some q)) := by
  intro a
  -- both stand at the right of the base, so only the distance of their tops is left
  have hcorner : ∀ y : ℚ, Point.shift ⟨0, y⟩ (o.x + b.datum.size.width) (o.y + (a.baseTop - a.superOffset)) =
      o.shift b.datum.size.width (a.baseTop - a.superOffset + y) := fun y => by
    simp only [Point.shift, zero_add, add_comm y, add_assoc]
  have hshift := apart_shift_iff p q ⟨0, 0⟩ ⟨0, a.superOffset + a.subOffset⟩ (o.x + b.datum.size.width)
    (o.y + (a.baseTop - a.superOffset))
  rwa [hcorner, hcorner, add_zero, ← add_assoc, sub_add_cancel] at hshift

/-- the denominator in the superscript comes down to the second character of the subscript -/
example : ∃ e, Notation.parse "x^{a_{b/c}d^{b/c}}_{yz}" = .ok e ∧ ¬ (e.boxed (1 : ℚ)).Clear := by
  refine ⟨_, rfl, ?_⟩
  decide +kernel

/-- the parts of a base with scripts are apart exactly if the scripts are -/
theorem Built.parted_scripts_iff {d : Sized ℚ} {b : Formula (Sized ℚ)} {p q : Option (Formula (Sized ℚ))}
    (hb : b.Built) (hp : ∀ t ∈ p, t.Built) (hq : ∀ t ∈ q, t.Built) (o : Point ℚ) :
    (placed o (.scripts d b p q)).Parted ↔ Clear (.scripts d b p q) := by
  have hscript : ∀ t : Formula (Sized ℚ), t.Built → ∀ y y' : ℚ,
      ∀ r ∈ (b.placed (o.shift 0 y)).elements, ∀ s ∈ (t.placed (o.shift b.datum.size.width y')).elements,
        r.Apart s := by
    intro t ht y y'
    refine hb.apart_beside ht ?_
    simp only [Point.shift, add_zero, le_refl]
  have hown : (placed o (.scripts d b p q)).element? = none := element?_placed _ o
  rw [parted_placed, hown]
  simp only [Option.not_mem_none, false_implies, implies_true, true_and]
  cases p with
  | none =>
    refine iff_of_true ?_ (by cases q <;> trivial)
    cases q with
    | none => exact List.pairwise_singleton _ _
    | some q => exact List.pairwise_pair.2 (hscript q (hq q rfl) _ _)
  | some p =>
    have hbase := hscript p (hp p rfl)
    cases q with
    | none => exact iff_of_true (List.pairwise_pair.2 (hbase _ _)) trivial
    | some q =>
      have hbase' := hscript q (hq q rfl)
      refine Iff.trans ?_ (scripts_apart_iff_clear d b p q o)
      refine ⟨fun h => List.pairwise_pair.1 (List.pairwise_cons.1 h).2, fun h => List.pairwise_cons.2 ⟨?_, ?_⟩⟩
      · exact List.forall_mem_cons.2 ⟨hbase _ _, List.forall_mem_singleton.2 (hbase' _ _)⟩
      · exact List.pairwise_pair.2 h

/-- what a node draws is in order exactly if the node is clear -/
theorem Built.parted_iff_clear (h : t.Built) (o : Point ℚ) :
    (t.placed o).Parted ∧ (t.placed o).RuleSeparates ↔ t.Clear := by
  cases h with
  | char hd =>
    refine iff_of_true ⟨?_, trivial⟩ trivial
    rw [parted_placed]
    simp [insets]
  | @concat d l r hd hl hr =>
    refine iff_of_true ⟨?_, trivial⟩ trivial
    rw [parted_placed, element?_placed]
    refine ⟨by simp [mark?], List.pairwise_pair.2 (hl.apart_beside hr ?_)⟩
    simp only [Point.shift, add_zero, le_refl]
  | @fraction d n m hd hn hm =>
    rw [hn.ruleSeparates_iff_clear hd hm]
    exact and_iff_right_of_imp (hn.parted_fraction hd hm o)
  | @scripts d b p q hd hb hp hq =>
    rw [hb.parted_scripts_iff hp hq, placed_scripts_shift]
    exact and_iff_left trivial
  | @paren d u hd hu =>
    refine iff_of_true ⟨?_, trivial⟩ trivial
    rw [parted_placed, element?_placed]
    exact ⟨by simp [mark?], List.pairwise_singleton _ _⟩

/-! ## The drawing -/

/-- a node whose parts stay in their boxes is clear -/
theorem Built.clear_of_reach_le (h : t.Built) (hreach : ∀ c ∈ t.children, c.reach ≤ c.datum.size.height) :
    t.Clear := by
  cases h with
  | @fraction d n m hd hn hm =>
    have hgap := Metrics.fractionGap_pos hd
    have hnumerator := hreach n (.head _)
    rw [Clear, Sized.stacked_divider]
    linarith
  | @scripts d b p q hd hb hp hq =>
    cases p with
    | none => cases q <;> trivial
    | some p =>
      cases q with
      | none => trivial
      | some q =>
        have ha := Sized.placement_arranged b.datum (some p.datum) (some q.datum)
        have hsuperscript := hreach p (.tail _ (.head _))
        have hheight := hb.proper.height_pos
        refine (hp p rfl).apart_above (hq q rfl) ?_
        simp only [ha.subscript_top]
        linarith [ha.superscript_bottom p.datum.size rfl]
  | _ => trivial

/-- where all pairs are covered all nodes are clear -/
theorem Built.clear_of_covered (h : t.Built) (hcovered : ∀ n ∈ t.nodes, n.Covered) : ∀ n ∈ t.nodes, n.Clear := by
  induction t using insets_ind with
  | h t ih =>
    obtain ⟨-, hparts⟩ := forall_nodes_iff.1 hcovered
    rw [forall_nodes_iff]
    rw [children_eq_insets, List.forall_mem_map] at hparts ⊢
    refine ⟨h.clear_of_reach_le ?_, fun i hi => ih i hi (h.of_inset i hi) (hparts i hi)⟩
    rw [children_eq_insets, List.forall_mem_map]
    exact fun i hi => (h.of_inset i hi).reach_le_height (hparts i hi)

/-- **Drawn elements collide only at nodes that are not clear.** No two characters overlap, no rule runs through a
character, and every rule separates the parts of its fraction, exactly if all nodes are clear; and they are where all
pairs are covered. -/
theorem drawing_apart_iff_clear (t : Expr) {scale : ℚ} (hscale : 0 < scale) (origin : Point ℚ) :
    let root := t.laidOut scale origin
    (root.CollisionFree ∧ (∀ n ∈ root.nodes, n.RuleSeparates) ↔ ∀ n ∈ (t.boxed scale).nodes, n.Clear) ∧
      ((∀ n ∈ (t.boxed scale).nodes, n.Covered) → root.CollisionFree ∧ ∀ n ∈ root.nodes, n.RuleSeparates) := by
  intro root
  have hbuilt := boxed_built hscale t
  have hclear : root.CollisionFree ∧ (∀ n ∈ root.nodes, n.RuleSeparates) ↔ ∀ n ∈ (t.boxed scale).nodes, n.Clear := by
    rw [collisionFree_iff_parted, ← forall₂_and]
    exact forall_nodes_placed (fun _ h o => h.parted_iff_clear o) hbuilt origin
  exact ⟨hclear, fun hcovered => hclear.2 (hbuilt.clear_of_covered hcovered)⟩

/-- the pair in the script sticks out of its box, but it ends above the lower edge of the numerator -/
theorem script_clears_rule : ∃ e, Notation.parse "x^{a_bc^d}/e" = .ok e ∧ (0 : ℚ) < 1 ∧
    (e.laidOut (1 : ℚ) ⟨0, 0⟩).CollisionFree ∧ ∀ n ∈ (e.laidOut (1 : ℚ) ⟨0, 0⟩).nodes, n.RuleSeparates := by
  refine ⟨_, rfl, one_pos, (drawing_apart_iff_clear _ one_pos ⟨0, 0⟩).1.2 ?_⟩
  decide +kernel

/-- a subscript that ends below the box of the numerator is crossed by the rule -/
theorem rule_through_numerator : ∃ e, Notation.parse "{a_bc^d}/e" = .ok e ∧
    (∃ rule ∈ (e.laidOut (1 : ℚ) ⟨0, 0⟩).rules, ∃ box ∈ (e.laidOut (1 : ℚ) ⟨0, 0⟩).glyphBoxes,
      rule.start.y = 31 / 20 ∧ box.y = 1 ∧ box.bottom = 17 / 10) ∧
      ¬ (e.laidOut (1 : ℚ) ⟨0, 0⟩).CollisionFree := by
  refine ⟨_, rfl, ?_⟩
  decide +kernel

end FormulaLayout.Formula
