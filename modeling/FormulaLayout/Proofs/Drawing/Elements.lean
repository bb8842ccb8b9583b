/-
The elements of a drawing: the boxes of the characters and the rules of the fractions.

A rule is a box without height here, so that one relation, that two boxes share no inner point, says both that
characters do not overlap and that no rule runs through a character (`collisionFree_iff_pairwise`).

The elements of a node are its own and those of its parts. A drawing is therefore free of collisions exactly if at every
node its own element and those of its parts keep apart (`collisionFree_iff_parted`).
-/
import Mathlib.Tactic
import FormulaLayout.Drawing.Painter
import FormulaLayout.Proofs.Formula.Nodes
import FormulaLayout.Proofs.Layout.Exact

namespace FormulaLayout

/-- the line as a box, which has no height if the line is level -/
def LineCommand.extent (l : LineCommand ℚ) : Rect ℚ :=
  ⟨l.start.x, l.start.y, l.finish.x - l.start.x, l.finish.y - l.start.y⟩

/-- the level line runs through the inside of the box -/
def LineCommand.Crosses (l : LineCommand ℚ) (r : Rect ℚ) : Prop :=
  (r.y < l.start.y ∧ l.start.y < r.bottom) ∧ l.start.x < r.right ∧ r.x < l.finish.x

instance (l : LineCommand ℚ) (r : Rect ℚ) : Decidable (l.Crosses r) :=
  inferInstanceAs (Decidable ((r.y < l.start.y ∧ l.start.y < r.bottom) ∧ l.start.x < r.right ∧ r.x < l.finish.x))

/-- the boxes share no inner point -/
def Rect.Apart (r s : Rect ℚ) : Prop :=
  r.intersects s = false

namespace Rect

instance (r s : Rect ℚ) : Decidable (r.Apart s) :=
  inferInstanceAs (Decidable (r.intersects s = false))

theorem apart_iff {r s : Rect ℚ} :
    r.Apart s ↔ s.right ≤ r.x ∨ r.right ≤ s.x ∨ s.bottom ≤ r.y ∨ r.bottom ≤ s.y := by
  simp only [Apart, intersects, Bool.and_eq_false_iff, decide_eq_false_iff_not, not_lt, or_assoc]

theorem Apart.symm {r s : Rect ℚ} (h : r.Apart s) : s.Apart r := by
  rw [apart_iff] at h ⊢
  tauto

end Rect

namespace Formula

/-- the box of a character -/
def glyphBox? : Formula (Placed ℚ) → Option (Rect ℚ)
  | .char p _ => some p.bounds
  | _ => none

/-- the rule of a fraction -/
def rule? : Formula (Placed ℚ) → Option (LineCommand ℚ)
  | .fraction p n m => some (p.rule n.datum.box m.datum.box)
  | _ => none

/-- the element that a node draws itself -/
def element? : Formula (Placed ℚ) → Option (Rect ℚ)
  | .char p _ => some p.bounds
  | .fraction p n m => some (p.rule n.datum.box m.datum.box).extent
  | _ => none

/-- the boxes of the characters in reading order -/
def glyphBoxes (t : Formula (Placed ℚ)) : List (Rect ℚ) :=
  t.nodes.filterMap glyphBox?

/-- the lines that are painted -/
def rules (t : Formula (Placed ℚ)) : List (LineCommand ℚ) :=
  t.commands.filterMap Command.line?

/-- boxes and rules in the order of their nodes -/
def elements (t : Formula (Placed ℚ)) : List (Rect ℚ) :=
  t.nodes.filterMap element?

/-- no two characters overlap, and no rule runs through a character -/
def CollisionFree (t : Formula (Placed ℚ)) : Prop :=
  t.glyphBoxes.Pairwise (fun r s => r.intersects s = false) ∧
    ∀ rule ∈ t.rules, ∀ box ∈ t.glyphBoxes, ¬ rule.Crosses box

instance (t : Formula (Placed ℚ)) : Decidable t.CollisionFree :=
  inferInstanceAs (Decidable (t.glyphBoxes.Pairwise (fun r s => r.intersects s = false) ∧
    ∀ rule ∈ t.rules, ∀ box ∈ t.glyphBoxes, ¬ rule.Crosses box))

/-- the rule of a fraction runs below all of its numerator and above all of its denominator -/
def RuleSeparates : Formula (Placed ℚ) → Prop
  | .fraction p n m =>
    let y := (p.rule n.datum.box m.datum.box).start.y
    (∀ box ∈ n.glyphBoxes, box.bottom < y) ∧ (∀ rule ∈ n.rules, rule.start.y < y) ∧
      (∀ box ∈ m.glyphBoxes, y < box.y) ∧ ∀ rule ∈ m.rules, y < rule.start.y
  | _ => True

/-- the element of a node is apart from those of its parts, and so are those of any two parts -/
def Parted (t : Formula (Placed ℚ)) : Prop :=
  (∀ r ∈ t.element?, ∀ c ∈ t.children, ∀ s ∈ c.elements, r.Apart s) ∧
    t.children.Pairwise fun c c' => ∀ r ∈ c.elements, ∀ s ∈ c'.elements, r.Apart s

/-! ## Elements of a node and of its parts -/

theorem elements_eq (t : Formula (Placed ℚ)) :
    t.elements = t.element?.toList ++ t.children.flatMap elements :=
  filterMap_nodes element? t

/-- the rules that are painted are those of the nodes -/
theorem rules_perm (t : Formula (Placed ℚ)) : t.rules.Perm (t.nodes.filterMap rule?) := by
  induction t using Formula.ind with
  | char p c => exact .refl _
  | concat p l r hl hr =>
    rw [filterMap_nodes, rules, commands, List.filterMap_append]
    simpa [rules, rule?, children] using hl.append hr
  | fraction p n m hn hm =>
    rw [filterMap_nodes, rules, commands, List.filterMap_append, List.filterMap_cons]
    -- the rule is painted between the parts
    refine List.perm_middle.trans ?_
    simpa [rules, rule?, children] using (hn.append hm).cons (p.rule n.datum.box m.datum.box)
  | scripts d b p q hb hp hq =>
    have hpart : ∀ o : Option (Formula (Placed ℚ)), (∀ t ∈ o, t.rules.Perm (t.nodes.filterMap rule?)) →
        ((o.elim [] commands).filterMap Command.line?).Perm (o.toList.flatMap fun t => t.nodes.filterMap rule?) := by
      rintro (_ | t) ht
      · exact .refl _
      · rw [Option.toList_some, List.flatMap_singleton]; exact ht t rfl
    rw [filterMap_nodes, rules, commands_scripts, List.filterMap_append, List.filterMap_append, List.append_assoc]
    simp only [rule?, children, Option.toList_none, List.nil_append, List.flatMap_cons, List.flatMap_append]
    exact hb.append ((hpart p hp).append (hpart q hq))
  | paren p t ht =>
    rw [filterMap_nodes, rules, commands, List.cons_append, List.filterMap_cons, List.filterMap_append]
    simpa [rules, rule?, children, Command.line?, List.filterMap_cons] using ht

/-- the elements are the boxes and the rules -/
theorem elements_perm (t : Formula (Placed ℚ)) : t.elements.Perm (t.glyphBoxes ++ t.rules.map LineCommand.extent) := by
  suffices h : ∀ l : List (Formula (Placed ℚ)),
      (l.filterMap element?).Perm (l.filterMap glyphBox? ++ (l.filterMap rule?).map LineCommand.extent) from
    (h t.nodes).trans (((rules_perm t).symm.map _).append_left _)
  intro l
  induction l with
  | nil => exact .refl _
  | cons n l ih =>
    cases n with
    | char p c => exact ih.cons p.bounds
    | fraction p n m => exact (ih.cons _).trans List.perm_middle.symm
    | _ => exact ih

theorem mem_elements {t : Formula (Placed ℚ)} {r : Rect ℚ} :
    r ∈ t.elements ↔ r ∈ t.glyphBoxes ∨ ∃ rule ∈ t.rules, rule.extent = r := by
  rw [(elements_perm t).mem_iff, List.mem_append, List.mem_map]

/-! ## Collisions -/

/-- every line of a drawing is level -/
theorem rules_level {t : Formula (Placed ℚ)} : ∀ rule ∈ t.rules, rule.finish.y = rule.start.y := by
  intro rule h
  obtain ⟨n, -, hn⟩ := List.mem_filterMap.1 ((rules_perm t).mem_iff.1 h)
  cases n with
  | fraction p n m => cases hn; rfl
  | _ => exact absurd hn nofun

theorem not_crosses_iff {rule : LineCommand ℚ} (h : rule.finish.y = rule.start.y) (r : Rect ℚ) :
    ¬ rule.Crosses r ↔ r.Apart rule.extent := by
  rw [Rect.apart_iff]
  simp only [LineCommand.Crosses, LineCommand.extent, Rect.right, Rect.bottom, h, not_and_or, not_lt, add_sub_cancel]
  tauto

/-- a rule separates exactly if it runs between all elements of the two parts -/
theorem ruleSeparates_iff {p : Placed ℚ} {n m : Formula (Placed ℚ)} :
    (fraction p n m).RuleSeparates ↔
      (∀ r ∈ n.elements, r.bottom < p.dividerY) ∧ ∀ r ∈ m.elements, p.dividerY < r.y := by
  have hbottom : ∀ rule ∈ n.rules, rule.extent.bottom = rule.start.y := fun rule h => by
    simp only [LineCommand.extent, Rect.bottom, rules_level rule h, sub_self, add_zero]
  simp only [mem_elements, or_imp, forall_and, forall_exists_index, and_imp, forall_apply_eq_imp_iff₂, and_assoc]
  exact and_congr_right fun _ => and_congr (forall₂_congr fun rule h => by rw [hbottom rule h]; rfl) .rfl

/-- two level lines have no inner point to share -/
theorem extent_apart {rule rule' : LineCommand ℚ} (h : rule.finish.y = rule.start.y)
    (h' : rule'.finish.y = rule'.start.y) : rule.extent.Apart rule'.extent := by
  rw [Rect.apart_iff]
  simp only [LineCommand.extent, Rect.bottom, h, h', sub_self, add_zero]
  exact .inr (.inr (le_total _ _))

/-- nothing collides exactly if all elements are apart -/
theorem collisionFree_iff_pairwise (t : Formula (Placed ℚ)) : t.CollisionFree ↔ t.elements.Pairwise Rect.Apart := by
  have hrules : (t.rules.map LineCommand.extent).Pairwise Rect.Apart :=
    List.pairwise_map.2 (List.Pairwise.imp_mem.2 (List.pairwise_of_forall fun rule rule' hr hr' =>
      extent_apart (rules_level rule hr) (rules_level rule' hr')))
  rw [(elements_perm t).pairwise_iff fun h => h.symm, List.pairwise_append]
  simp only [hrules, true_and, List.forall_mem_map, CollisionFree, Rect.Apart]
  refine and_congr_right fun _ => ⟨fun h r hr rule hrule => ?_, fun h rule hrule r hr => ?_⟩
  · exact (not_crosses_iff (rules_level rule hrule) r).1 (h rule hrule r hr)
  · exact (not_crosses_iff (rules_level rule hrule) r).2 (h r hr rule hrule)

/-- all elements are apart exactly if they are parted at every node -/
theorem collisionFree_iff_parted (t : Formula (Placed ℚ)) : t.CollisionFree ↔ ∀ n ∈ t.nodes, n.Parted := by
  rw [collisionFree_iff_pairwise]
  induction t using children_ind with
  | h t ih =>
    have hown : t.element?.toList.Pairwise Rect.Apart := by cases t.element? <;> simp
    rw [elements_eq, List.pairwise_append, List.pairwise_flatMap, forall_nodes_iff]
    simp only [hown, true_and, Option.mem_toList, List.mem_flatMap, Parted]
    constructor
    · rintro ⟨⟨hparts, hpairs⟩, hown⟩
      exact ⟨⟨fun r hr c hc s hs => hown r hr s ⟨c, hc, hs⟩, hpairs⟩, fun c hc => (ih c hc).1 (hparts c hc)⟩
    · rintro ⟨⟨hown, hpairs⟩, hparts⟩
      exact ⟨⟨fun c hc => (ih c hc).2 (hparts c hc), hpairs⟩, fun r hr s ⟨c, hc, hs⟩ => hown r hr c hc s hs⟩

end Formula

end FormulaLayout
