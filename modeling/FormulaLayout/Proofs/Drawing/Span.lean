/-
How wide a drawing is.

A command spans an interval of the line: a text the width of one glyph of its font size, a rule what lies between its
ends. The width of a node is computed on the way up, spent on the way down, and drawn by the painter, which computes
rules and right parentheses again by itself. All three agree: what is drawn of a node spans its box from the left edge
to the right one, with nothing to spare at either end (`Built.spans`).

`Spans` says so of a list of commands: none reaches beyond the two ends, and at each end some command reaches it. Two
lists together span from the smaller left end to the greater right end (`Spans.append`), so the claim for a node follows
from those for its parts.

- `drawn_width_eq_box`: for every node of a layout the smallest interval that holds all its commands is that of its box,
  and parts that stand side by side are drawn one behind the other.
-/
import Mathlib.Order.Interval.Set.OrdConnected
import Mathlib.Tactic
import FormulaLayout.Proofs.Drawing.Similarity

namespace FormulaLayout

namespace Command

/-- where the command begins, from the left -/
def left : Command ℚ → ℚ
  | text t => t.position.x
  | line l => l.start.x

/-- where the command ends -/
def right : Command ℚ → ℚ
  | text t => t.position.x + 0.6 * t.fontSize
  | line l => l.finish.x

/-- the interval from the beginning to the end -/
def span (c : Command ℚ) : Set ℚ :=
  Set.Icc c.left c.right

end Command

/-! ## Lists of commands -/

/-- all commands lie between the two ends, and some reach them -/
structure Spans (cs : List (Command ℚ)) (a b : ℚ) : Prop where
  forward : ∀ c ∈ cs, c.left ≤ c.right
  le_left : ∀ c ∈ cs, a ≤ c.left
  right_le : ∀ c ∈ cs, c.right ≤ b
  exists_left : ∃ c ∈ cs, c.left = a
  exists_right : ∃ c ∈ cs, c.right = b

/-- the commands of the first list end where those of the second begin, or before -/
def Precedes (cs ds : List (Command ℚ)) : Prop :=
  ∀ c ∈ cs, ∀ d ∈ ds, c.right ≤ d.left

namespace Spans

variable {cs ds : List (Command ℚ)} {a a' b b' : ℚ}

theorem one {c : Command ℚ} (h : c.left ≤ c.right) : Spans [c] c.left c.right where
  forward := List.forall_mem_singleton.2 h
  le_left := List.forall_mem_singleton.2 le_rfl
  right_le := List.forall_mem_singleton.2 le_rfl
  exists_left := ⟨c, List.mem_singleton_self c, rfl⟩
  exists_right := ⟨c, List.mem_singleton_self c, rfl⟩

/-- two drawings together reach as far as the one that reaches further, at either end -/
theorem append (h : Spans cs a b) (h' : Spans ds a' b') : Spans (cs ++ ds) (min a a') (max b b') where
  forward := List.forall_mem_append.2 ⟨h.forward, h'.forward⟩
  le_left := by
    intro c hc
    rcases List.mem_append.1 hc with hc | hc
    · exact min_le_of_left_le (h.le_left c hc)
    · exact min_le_of_right_le (h'.le_left c hc)
  right_le := by
    intro c hc
    rcases List.mem_append.1 hc with hc | hc
    · exact le_max_of_le_left (h.right_le c hc)
    · exact le_max_of_le_right (h'.right_le c hc)
  exists_left := by
    obtain ⟨c, hc, hleft⟩ := h.exists_left
    obtain ⟨d, hd, hleft'⟩ := h'.exists_left
    rcases min_choice a a' with hmin | hmin
    · exact ⟨c, List.mem_append_left _ hc, hleft.trans hmin.symm⟩
    · exact ⟨d, List.mem_append_right _ hd, hleft'.trans hmin.symm⟩
  exists_right := by
    obtain ⟨c, hc, hright⟩ := h.exists_right
    obtain ⟨d, hd, hright'⟩ := h'.exists_right
    rcases max_choice b b' with hmax | hmax
    · exact ⟨c, List.mem_append_left _ hc, hright.trans hmax.symm⟩
    · exact ⟨d, List.mem_append_right _ hd, hright'.trans hmax.symm⟩

/-- what begins no further left and ends no earlier decides the right end -/
theorem append_behind (h : Spans cs a b) (h' : Spans ds a' b') (hleft : a ≤ a') (hright : b ≤ b') :
    Spans (cs ++ ds) a b' := by
  have happend := h.append h'
  rwa [min_eq_left hleft, max_eq_right hright] at happend

/-- what lies within the first drawing changes neither end -/
theorem append_within (h : Spans cs a b) (h' : Spans ds a' b') (hleft : a ≤ a') (hright : b' ≤ b) :
    Spans (cs ++ ds) a b := by
  have happend := h.append h'
  rwa [min_eq_left hleft, max_eq_left hright] at happend

/-- what lies within the second drawing changes neither end -/
theorem within_append (h : Spans cs a b) (h' : Spans ds a' b') (hleft : a' ≤ a) (hright : b ≤ b') :
    Spans (cs ++ ds) a' b' := by
  have happend := h.append h'
  rwa [min_eq_right hleft, max_eq_right hright] at happend

theorem precedes (h : Spans cs a b) (h' : Spans ds a' b') (hle : b ≤ a') : Precedes cs ds := by
  intro c hc d hd
  calc c.right ≤ b := h.right_le c hc
    _ ≤ a' := hle
    _ ≤ d.left := h'.le_left d hd

/-- the interval between the ends is the smallest one that holds all commands -/
theorem isLeast (h : Spans cs a b) :
    IsLeast {s : Set ℚ | s.OrdConnected ∧ ∀ c ∈ cs, c.span ⊆ s} (Set.Icc a b) := by
  constructor
  · refine ⟨Set.ordConnected_Icc, ?_⟩
    intro c hc
    exact Set.Icc_subset_Icc (h.le_left c hc) (h.right_le c hc)
  · rintro s ⟨hs, hspans⟩
    obtain ⟨c, hc, hleft⟩ := h.exists_left
    obtain ⟨d, hd, hright⟩ := h.exists_right
    have ha : a ∈ s := hspans c hc (hleft ▸ Set.left_mem_Icc.2 (h.forward c hc))
    have hb : b ∈ s := hspans d hd (hright ▸ Set.right_mem_Icc.2 (h.forward d hd))
    exact hs.out ha hb

end Spans

namespace Formula

/-! ## The commands of a node -/

/-- what stands side by side is drawn one behind the other: neighbours, scripts behind their base, and what is in
parentheses between the two glyphs -/
def InReadingOrder : Formula (Placed ℚ) → Prop
  | .concat _ l r => Precedes l.commands r.commands
  | .scripts _ b p q => (∀ s ∈ p, Precedes b.commands s.commands) ∧ ∀ s ∈ q, Precedes b.commands s.commands
  | .paren p t => [[.text p.leftParen], t.commands, [.text (p.rightParen t.datum.box)]].Pairwise Precedes
  | _ => True

/-- a text of a positive font size -/
theorem spans_text {t : TextCommand ℚ} (h : 0 < t.fontSize) :
    Spans [.text t] t.position.x (t.position.x + t.fontSize * (3 / 5)) := by
  have hone : Spans [.text t] t.position.x (t.position.x + 0.6 * t.fontSize) := by
    apply Spans.one
    simp only [Command.left, Command.right]
    linarith
  convert hone using 2
  ring

theorem parenPadding_eq (scale : ℚ) : Metrics.parenPadding scale = scale * (3 / 5) := by
  rw [Metrics.parenPadding]
  norm_num

/-- the two glyphs of a node in parentheses take up the width that is kept free for them -/
theorem spans_parens (p : Placed ℚ) (child : Sized ℚ) (h : 0 < p.box.scale) :
    let padding := Metrics.parenPadding p.box.scale
    Spans [.text p.leftParen] p.origin.x (p.origin.x + padding) ∧
      Spans [.text (p.rightParen child)] (p.origin.x + child.size.width + padding)
        (p.origin.x + child.size.width + padding + padding) := by
  intro padding
  constructor
  · have hleft := spans_text (t := p.leftParen) h
    rwa [Placed.leftParen, ← parenPadding_eq] at hleft
  · have hright := spans_text (t := p.rightParen child) h
    rwa [Placed.rightParen, ← parenPadding_eq] at hright

/-- the rule of a fraction is as wide as the wider part -/
theorem spans_rule {p : Placed ℚ} {n m : Sized ℚ} (hn : 0 < n.size.width) :
    Spans [.line (p.rule n m)] p.origin.x (p.origin.x + max n.size.width m.size.width) := by
  have hwide := le_max_left n.size.width m.size.width
  rw [← larger_eq_max] at hwide ⊢
  apply Spans.one (c := .line (p.rule n m))
  simp only [Command.left, Command.right, Placed.rule]
  linarith

/-- a script behind a base ends where the wider of the two ends; an empty slot adds nothing -/
theorem spans_slot {cs : List (Command ℚ)} {a b : ℚ} {slot : Option (Formula (Sized ℚ))} (corner : Point ℚ)
    (h : Spans cs a b) (hleft : a ≤ corner.x) (hright : corner.x ≤ b)
    (hslot : ∀ t ∈ slot, Spans (t.placed corner).commands corner.x (corner.x + t.datum.size.width)) :
    Spans (cs ++ (slot.map (placed corner)).elim [] commands) a
      (max b (corner.x + (slot.map datum).elim 0 (·.size.width))) := by
  cases slot with
  | none =>
    simp only [Option.map_none, Option.elim_none, List.append_nil, add_zero]
    rwa [max_eq_left hright]
  | some t =>
    have happend := h.append (hslot t rfl)
    rwa [min_eq_left hleft] at happend

/-- **What is drawn of a node spans its box**, by induction over what is drawn of its parts. -/
theorem Built.spans {t : Formula (Sized ℚ)} (h : t.Built) (o : Point ℚ) :
    Spans (t.placed o).commands o.x (o.x + t.datum.size.width) := by
  induction h generalizing o with
  | @char d c hd =>
    rw [datum_char, Sized.glyph_width]
    exact spans_text (t := ⟨o, d.scale, String.singleton c, 1.0⟩) hd
  | @concat d l r hd hl hr ihl ihr =>
    have hwidth := hl.proper.width_pos
    have hwidth' := hr.proper.width_pos
    have hleft : ∀ y, Spans (l.placed (o.shift 0 y)).commands o.x (o.x + l.datum.size.width) := by
      intro y
      simpa only [Point.shift, add_zero] using ihl (o.shift 0 y)
    rw [placed_concat, commands, datum_concat, Sized.beside_width, ← add_assoc]
    apply (hleft _).append_behind (ihr _)
    · simp only [Point.shift]
      linarith
    · simp only [Point.shift]
      linarith
  | @fraction d n m hd hn hm ihn ihm =>
    have hwide := le_max_left n.datum.size.width m.datum.size.width
    have hwide' := le_max_right n.datum.size.width m.datum.size.width
    have hrule := spans_rule (p := ⟨.stacked d n.datum m.datum, o⟩) (m := m.datum) hn.proper.width_pos
    rw [placed_fraction, commands, datum_fraction, Sized.stacked_width, placed_datum, placed_datum]
    -- the rule is the widest of the three, and both parts are centred on it
    refine (ihn _).within_append (hrule.append_within (ihm _) ?_ ?_) ?_ ?_
    all_goals simp only [Point.shift]
    all_goals linarith
  | @scripts d b p q hd hb hp hq ihb ihp ihq =>
    have hwidth := hb.proper.width_pos
    have hscript := scriptWidth_datum_nonneg hp (q.map datum)
    rw [placed_scripts_shift, commands_scripts, datum_scripts, Sized.scripted_width]
    set a := Sized.placement b.datum (p.map datum) (q.map datum)
    set x := o.x + b.datum.size.width
    have hbase : Spans (b.placed (o.shift 0 a.baseTop)).commands o.x x := by
      simpa only [Point.shift, add_zero] using ihb (o.shift 0 a.baseTop)
    -- both scripts begin where the base ends
    have habove := spans_slot (o.shift b.datum.size.width (a.baseTop - a.superOffset)) hbase
      (by simp only [Point.shift]; linarith) le_rfl fun u hu => ihp u hu _
    have hbelow := spans_slot (o.shift b.datum.size.width (a.baseTop + a.subOffset)) habove
      (by simp only [Point.shift]; linarith) (le_max_left _ _) fun u hu => ihq u hu _
    have hends : max (max x (x + (p.map datum).elim 0 (·.size.width))) (x + (q.map datum).elim 0 (·.size.width)) =
        o.x + (b.datum.size.width + Sized.scriptWidth (p.map datum) (q.map datum)) :=
      calc _ = max x (x + Sized.scriptWidth (p.map datum) (q.map datum)) := by
            rw [max_assoc, max_add_add_left, Sized.scriptWidth]
        _ = x + Sized.scriptWidth (p.map datum) (q.map datum) := max_eq_right (by linarith)
        _ = _ := add_assoc _ _ _
    rw [← hends]
    exact hbelow
  | @paren d t hd ht ih =>
    have hpadding := Metrics.parenPadding_pos hd
    have hwidth := ht.proper.width_pos
    obtain ⟨hleft, hright⟩ := spans_parens ⟨.enclosed d t.datum, o⟩ t.datum hd
    have hchild := ih (o.shift (Metrics.parenPadding d.scale) 0)
    have hends : o.x + t.datum.size.width + Metrics.parenPadding d.scale + Metrics.parenPadding d.scale =
        o.x + (t.datum.size.width + 2 * Metrics.parenPadding d.scale) := by ring
    rw [placed_paren, commands, datum_paren, Sized.enclosed_width, placed_datum, ← hends]
    -- one glyph ends where the child begins, and the other begins where the child ends
    refine (hleft.append_behind hchild ?_ ?_).append_behind hright ?_ ?_
    all_goals simp only [Point.shift, Sized.enclosed_scale]
    all_goals linarith

/-- the parts of a node that stand side by side are drawn in this order, since each spans its own box -/
theorem Built.inReadingOrder {t : Formula (Sized ℚ)} (h : t.Built) (o : Point ℚ) : (t.placed o).InReadingOrder := by
  cases h with
  | @concat d l r hd hl hr =>
    rw [placed_concat]
    apply (hl.spans _).precedes (hr.spans _)
    simp only [Point.shift, add_zero, le_refl]
  | @scripts d b p q hd hb hp hq =>
    rw [placed_scripts_shift]
    constructor
    · intro s hs
      obtain ⟨u, hu, rfl⟩ := Option.mem_map.1 hs
      apply (hb.spans _).precedes ((hp u hu).spans _)
      simp only [Point.shift, add_zero, le_refl]
    · intro s hs
      obtain ⟨u, hu, rfl⟩ := Option.mem_map.1 hs
      apply (hb.spans _).precedes ((hq u hu).spans _)
      simp only [Point.shift, add_zero, le_refl]
  | @paren d t hd ht =>
    have hpadding := Metrics.parenPadding_pos hd
    have hwidth := ht.proper.width_pos
    obtain ⟨hleft, hright⟩ := spans_parens ⟨.enclosed d t.datum, o⟩ t.datum hd
    have hchild := ht.spans (o.shift (Metrics.parenPadding d.scale) 0)
    have hinside : Precedes [.text (Placed.leftParen ⟨.enclosed d t.datum, o⟩)]
        (t.placed (o.shift (Metrics.parenPadding d.scale) 0)).commands := by
      apply hleft.precedes hchild
      simp only [Point.shift, Sized.enclosed_scale, le_refl]
    have hacross : Precedes [.text (Placed.leftParen ⟨.enclosed d t.datum, o⟩)]
        [.text (Placed.rightParen ⟨.enclosed d t.datum, o⟩ t.datum)] := by
      apply hleft.precedes hright
      linarith
    have hbehind : Precedes (t.placed (o.shift (Metrics.parenPadding d.scale) 0)).commands
        [.text (Placed.rightParen ⟨.enclosed d t.datum, o⟩ t.datum)] := by
      apply hchild.precedes hright
      simp only [Point.shift, Sized.enclosed_scale]
      linarith
    rw [placed_paren, InReadingOrder, placed_datum]
    exact List.pairwise_cons.2 ⟨List.forall_mem_cons.2 ⟨hinside, List.forall_mem_singleton.2 hacross⟩,
      List.pairwise_pair.2 hbehind⟩
  | _ => trivial

/-! ## The layout -/

/-- **A drawing is exactly as wide as its box.** At any positive scale and from any corner, the painter draws every node
of a layout, the smallest interval that holds what it draws is that of the box of the node, and what stands side by side
is drawn from left to right without overlap. -/
theorem drawn_width_eq_box (t : Expr) {scale : ℚ} (hscale : 0 < scale) (origin : Point ℚ) :
    ∀ n ∈ (t.laidOut scale origin).nodes, n.draw = .ok n.commands.toArray ∧
      IsLeast {s : Set ℚ | s.OrdConnected ∧ ∀ c ∈ n.commands, c.span ⊆ s}
        (Set.Icc n.datum.bounds.x n.datum.bounds.right) ∧
      n.InReadingOrder := by
  refine (forall_nodes_placed (Q := fun _ => True) ?_ (boxed_built hscale t) origin).2 fun _ _ => trivial
  intro u hu o
  refine iff_of_true ⟨draw_exact _, ?_, hu.inReadingOrder o⟩ trivial
  rw [placed_bounds]
  exact (hu.spans o).isLeast

/-- the parentheses around a quotient, which has scripts in it and a letter behind it -/
theorem quotient_width_eq_box : ∃ e, Notation.parse "(a_b^c/d)e" = .ok e ∧ (0 : ℚ) < 1 ∧
    ∃ n ∈ (e.laidOut (1 : ℚ) ⟨0, 0⟩).nodes, n.kindName = "Parenthesized" ∧ n.draw = .ok n.commands.toArray ∧
      IsLeast {s : Set ℚ | s.OrdConnected ∧ ∀ c ∈ n.commands, c.span ⊆ s}
        (Set.Icc n.datum.bounds.x n.datum.bounds.right) ∧
      n.InReadingOrder := by
  have hnode : ∃ e, Notation.parse "(a_b^c/d)e" = .ok e ∧
      ∃ n ∈ (e.laidOut (1 : ℚ) ⟨0, 0⟩).nodes, n.kindName = "Parenthesized" := ⟨_, rfl, by decide +kernel⟩
  obtain ⟨e, he, n, hn, hkind⟩ := hnode
  exact ⟨e, he, one_pos, n, hn, hkind, drawn_width_eq_box e one_pos ⟨0, 0⟩ n hn⟩

end Formula

end FormulaLayout
