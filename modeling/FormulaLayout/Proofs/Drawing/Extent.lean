/-
How far the elements of a laid out formula extend.

The elements move with the corner of the formula (`elements_shift`). They lie in the strip that hangs from its box
(`Built.elements_under`), but they may end below it. How far down the lowest of them ends is computed from the leaves up
like the boxes (`Formula.reach`), and some element ends just there (`Built.elements_bottom_lt_iff`). Where every pair of
parts side by side is covered the elements stay in the box (`Built.reach_le_height`).
-/
import Mathlib.Tactic
import FormulaLayout.Proofs.Drawing.Elements
import FormulaLayout.Proofs.Layout.Containment

namespace FormulaLayout

/-- the box so far to the right and further down -/
def Rect.shift (r : Rect ℚ) (dx dy : ℚ) : Rect ℚ :=
  ⟨r.x + dx, r.y + dy, r.width, r.height⟩

theorem Rect.shift_apart (r s : Rect ℚ) (dx dy : ℚ) : (r.shift dx dy).Apart (s.shift dx dy) ↔ r.Apart s := by
  simp only [apart_iff, shift, right, bottom, add_right_comm _ _ (Rect.width _), add_right_comm _ _ (Rect.height _),
    add_le_add_iff_right]

theorem Point.shift_comm (o : Point ℚ) (a b c d : ℚ) : (o.shift a b).shift c d = (o.shift c d).shift a b := by
  simp only [shift, add_right_comm]

namespace Formula

/-- the element that a node draws itself, from the corner of the node -/
def mark? : Formula (Sized ℚ) → Option (Rect ℚ)
  | .char d _ => some ⟨0, 0, d.size.width, d.size.height⟩
  | .fraction d n m => some ⟨0, d.divider, max n.datum.size.width m.datum.size.width, 0⟩
  | _ => none

/-- how far below its top the lowest element of a formula ends -/
def reach : Formula (Sized ℚ) → ℚ
  | .char d _ => d.size.height
  | .concat d l r => max (d.divider - l.datum.divider + l.reach) (d.divider - r.datum.divider + r.reach)
  | .fraction d n m => max n.reach (d.divider + Metrics.fractionGap d.scale / 2 + m.reach)
  | .scripts _ b p q =>
    let a := Sized.placement b.datum (p.map datum) (q.map datum)
    let base := a.baseTop + b.reach
    let above := match p with | none => base | some p => max base (a.baseTop - a.superOffset + p.reach)
    match q with | none => above | some q => max above (a.baseTop + a.subOffset + q.reach)
  | .paren _ t => t.reach
termination_by structural t => t

/-! ## Where the elements are -/

theorem element?_placed (t : Formula (Sized ℚ)) (o : Point ℚ) :
    (t.placed o).element? = t.mark?.map (·.shift o.x o.y) := by
  cases t with
  | char d c => simp only [mark?, Rect.shift, Option.map_some, zero_add]; rfl
  | fraction d n m =>
    rw [placed_fraction]
    simp only [element?, mark?, Placed.rule, LineCommand.extent, placed_datum, larger_eq_max, add_sub_cancel_left,
      sub_self, Option.map_some, Rect.shift, zero_add, add_comm d.divider]
    rfl
  | scripts d b p q => rw [placed_scripts_shift]; rfl
  | _ => rfl

theorem elements_placed (t : Formula (Sized ℚ)) (o : Point ℚ) :
    (t.placed o).elements =
      (t.mark?.map (·.shift o.x o.y)).toList ++ t.insets.flatMap fun i => (i.at o).elements := by
  rw [elements_eq, element?_placed, children_placed, List.flatMap_map]

/-- the elements move with the corner -/
theorem elements_shift (t : Formula (Sized ℚ)) (o : Point ℚ) (dx dy : ℚ) :
    (t.placed (o.shift dx dy)).elements = (t.placed o).elements.map (·.shift dx dy) := by
  induction t using insets_ind generalizing o with
  | h t ih =>
    have hpart : ∀ i ∈ t.insets, (i.at (o.shift dx dy)).elements = (i.at o).elements.map (·.shift dx dy) := by
      intro i hi
      rw [Inset.at, Point.shift_comm]
      exact ih i hi _
    have hown : (t.mark?.map (·.shift (o.shift dx dy).x (o.shift dx dy).y)) =
        (t.mark?.map (·.shift o.x o.y)).map (·.shift dx dy) := by
      simp only [Option.map_map, Function.comp_def, Rect.shift, Point.shift, add_assoc]
    rw [elements_placed, elements_placed, hown, List.flatMap_congr hpart]
    simp only [List.map_append, List.map_flatMap, Option.toList_map]

/-- all elements lie in the strip that hangs from the box -/
theorem Built.elements_under {t : Formula (Sized ℚ)} (h : t.Built) (o : Point ℚ) :
    ∀ r ∈ (t.placed o).elements, r.Under (t.placed o).datum.bounds := by
  have hown : ∀ n ∈ (t.placed o).nodes, ∀ r ∈ n.element?, r.Under n.datum.bounds := by
    refine (forall_nodes_placed (Q := fun _ => True) (fun t h o => iff_of_true ?_ trivial) h o).2 fun _ _ => trivial
    rw [element?_placed, placed_bounds]
    cases h with
    | char hd =>
      rintro r ⟨⟩
      simp only [Rect.shift, zero_add]
      exact Rect.Under.refl _
    | @fraction d n m hd hn hm =>
      have hdivider := (Built.fraction hd hn hm).proper.divider_pos
      rintro r ⟨⟩
      refine ⟨?_, ?_, ?_⟩
      · simp [Rect.shift]
      · simpa [Rect.shift] using hdivider.le
      · simp [Rect.shift, Rect.right, Sized.stacked_width, add_comm]
    | _ => simp [mark?]
  intro r hr
  obtain ⟨n, hn, hr⟩ := List.mem_filterMap.1 hr
  exact (hown n hn r hr).trans ((h.nodes_under o).2 n hn)

/-! ## Where the lowest element ends -/

theorem inset_reach_le (t : Formula (Sized ℚ)) : ∀ i ∈ t.insets, i.top + i.part.reach ≤ t.reach := by
  cases t with
  | char d c => exact nofun
  | scripts d b p q => cases p <;> cases q <;> simp [insets, reach]
  | _ => simp [insets, reach]

theorem exists_inset_reach (t : Formula (Sized ℚ)) :
    (∃ d c, t = .char d c) ∨ ∃ i ∈ t.insets, i.top + i.part.reach = t.reach := by
  cases t with
  | char d c => exact .inl ⟨d, c, rfl⟩
  | concat d l r =>
    right
    rcases max_choice (d.divider - l.datum.divider + l.reach) (d.divider - r.datum.divider + r.reach) with h | h
    · exact ⟨_, .head _, h.symm⟩
    · exact ⟨_, .tail _ (.head _), h.symm⟩
  | fraction d n m =>
    right
    rcases max_choice n.reach (d.divider + Metrics.fractionGap d.scale / 2 + m.reach) with h | h
    · exact ⟨_, .head _, (zero_add _).trans h.symm⟩
    · exact ⟨_, .tail _ (.head _), h.symm⟩
  | scripts d b p q =>
    right
    cases p <;> cases q <;>
      simp only [insets, reach, Option.toList_some, Option.toList_none, List.map_cons, List.map_nil, List.cons_append,
        List.nil_append, List.mem_cons, List.not_mem_nil, or_false, exists_eq_or_imp, exists_eq_left] <;>
      grind
  | paren d t => exact .inr ⟨_, .head _, zero_add _⟩

theorem Built.reach_pos {t : Formula (Sized ℚ)} (h : t.Built) : 0 < t.reach := by
  induction t using insets_ind with
  | h t ih =>
    rcases exists_inset_reach t with ⟨d, c, rfl⟩ | ⟨i, hi, hreach⟩
    · exact h.proper.height_pos
    · have hpart := ih i hi (h.of_inset i hi)
      have htop := h.inset_top i hi
      linarith

/-- no element ends lower than that -/
theorem Built.elements_bottom_le {t : Formula (Sized ℚ)} (h : t.Built) (o : Point ℚ) :
    ∀ r ∈ (t.placed o).elements, r.bottom ≤ o.y + t.reach := by
  induction t using insets_ind generalizing o with
  | h t ih =>
    have hown : ∀ r ∈ t.mark?, r.bottom ≤ t.reach := by
      cases h with
      | char hd =>
        rintro r ⟨⟩
        simp only [Rect.bottom, reach, zero_add, le_refl]
      | @fraction d n m hd hn hm =>
        have hgap := Metrics.fractionGap_pos hd
        have hbelow := inset_reach_le (.fraction (.stacked d n.datum m.datum) n m) _ (.tail _ (.head _))
        rintro r ⟨⟩
        simp only [Rect.bottom, Sized.stacked_scale, add_zero] at hbelow ⊢
        linarith [hm.reach_pos]
      | _ => simp [mark?]
    intro r hr
    rw [elements_placed] at hr
    simp only [List.mem_append, Option.mem_toList, Option.map_eq_some_iff, List.mem_flatMap] at hr
    rcases hr with ⟨r, hr, rfl⟩ | ⟨i, hi, hr⟩
    · have := hown r hr
      simp only [Rect.bottom, Rect.shift] at this ⊢
      linarith
    · have hpart := ih i hi (h.of_inset i hi) _ r hr
      have hinset := inset_reach_le t i hi
      simp only [Point.shift] at hpart
      linarith

/-- some element ends just there -/
theorem exists_bottom_eq (t : Formula (Sized ℚ)) (o : Point ℚ) :
    ∃ r ∈ (t.placed o).elements, r.bottom = o.y + t.reach := by
  induction t using insets_ind generalizing o with
  | h t ih =>
    rcases exists_inset_reach t with ⟨d, c, rfl⟩ | ⟨i, hi, hreach⟩
    · exact ⟨_, .head _, rfl⟩
    · obtain ⟨r, hr, hbottom⟩ := ih i hi (o.shift i.left i.top)
      refine ⟨r, ?_, ?_⟩
      · rw [elements_placed]
        exact List.mem_append_right _ (List.mem_flatMap.2 ⟨i, hi, hr⟩)
      · rw [hbottom, ← hreach, ← add_assoc]; rfl

/-- all elements end above a line exactly if the formula does not reach it -/
theorem Built.elements_bottom_lt_iff {t : Formula (Sized ℚ)} (h : t.Built) (o : Point ℚ) (y : ℚ) :
    (∀ r ∈ (t.placed o).elements, r.bottom < y) ↔ o.y + t.reach < y := by
  refine ⟨fun hall => ?_, fun hy r hr => (h.elements_bottom_le o r hr).trans_lt hy⟩
  obtain ⟨r, hr, hbottom⟩ := exists_bottom_eq t o
  exact hbottom ▸ hall r hr

/-- where all pairs are covered nothing reaches below the box -/
theorem Built.reach_le_height {t : Formula (Sized ℚ)} (h : t.Built) (hcovered : ∀ n ∈ t.nodes, n.Covered) :
    t.reach ≤ t.datum.size.height := by
  induction t using insets_ind with
  | h t ih =>
    rcases exists_inset_reach t with ⟨d, c, rfl⟩ | ⟨i, hi, hreach⟩
    · exact le_rfl
    · obtain ⟨hroot, hparts⟩ := forall_nodes_iff.1 hcovered
      rw [children_eq_insets, List.forall_mem_map] at hparts
      have hpart := ih i hi (h.of_inset i hi) (hparts i hi)
      have hbottom := h.inset_bottom_iff.2 hroot i hi
      linarith

end Formula

end FormulaLayout
