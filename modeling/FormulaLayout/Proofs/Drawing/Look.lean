/-
What a formula shows to the formula around it.

The look of a formula at a scale is its box and the commands that draw it at any corner. The look of a node is composed
from the looks of its parts, by one operation for each kind of node (`look_adjoin`, `look_divide`, `look_withScripts`,
`look_parenthesize`). So formulas of one look can stand for each other wherever they are placed (`look_surround`).

Setting looks side by side is associative (`Look.beside_assoc`): widths add up, heights and alignment lines take the
maximum, and however a run is split each term is shifted down to the alignment line of the whole run. The look of a run
is therefore a chain of the looks of its terms, whatever its grouping (`look_of_grouping`).

- `grouping_changes_nothing`: two groupings of one run give the same box and the same drawing, in every surrounding.
-/
import Mathlib.Tactic
import FormulaLayout.Notation.Parser
import FormulaLayout.Drawing.Painter
import FormulaLayout.Proofs.Formula.Join
import FormulaLayout.Proofs.Layout.Insets

namespace FormulaLayout

/-- a box, and the commands that fill it when its corner is at a point -/
@[ext]
structure Look where
  box : Sized ℚ
  paint : Point ℚ → List (Command ℚ)

theorem Point.shift_shift (o : Point ℚ) (a b c d : ℚ) : (o.shift a b).shift c d = o.shift (a + c) (b + d) := by
  simp only [shift, add_assoc]

namespace Look

/-- two looks side by side, on one alignment line -/
def beside (scale : ℚ) (l r : Look) : Look :=
  let box := Sized.beside ⟨scale, l.box.divisions + r.box.divisions⟩ l.box r.box
  { box
    paint := fun o => l.paint (o.shift 0 (box.divider - l.box.divider))
      ++ r.paint (o.shift l.box.size.width (box.divider - r.box.divider)) }

/-- one look above another, with a rule between them -/
def stacked (scale : ℚ) (n m : Look) : Look :=
  let box := Sized.stacked ⟨scale, 1 + n.box.divisions + m.box.divisions⟩ n.box m.box
  { box
    paint := fun o => n.paint (o.shift ((box.size.width - n.box.size.width) / 2) 0)
      ++ .line (Placed.rule ⟨box, o⟩ n.box m.box)
        :: m.paint (o.shift ((box.size.width - m.box.size.width) / 2)
          (box.divider + Metrics.fractionGap scale / 2)) }

/-- a look with scripts -/
def scripted (scale : ℚ) (b : Look) (p q : Option Look) : Look :=
  let divisions := b.box.divisions + p.elim 0 (·.box.divisions) + q.elim 0 (·.box.divisions)
  let a := Sized.placement b.box (p.map box) (q.map box)
  { box := Sized.scripted ⟨scale, divisions⟩ b.box (p.map box) (q.map box)
    paint := fun o => b.paint (o.shift 0 a.baseTop)
      ++ p.elim [] (·.paint (o.shift b.box.size.width (a.baseTop - a.superOffset)))
      ++ q.elim [] (·.paint (o.shift b.box.size.width (a.baseTop + a.subOffset))) }

/-- a look between two parentheses -/
def enclosed (scale : ℚ) (t : Look) : Look :=
  let box := Sized.enclosed ⟨scale, t.box.divisions⟩ t.box
  { box
    paint := fun o => .text (Placed.leftParen ⟨box, o⟩) :: t.paint (o.shift (Metrics.parenPadding scale) 0)
      ++ [.text (Placed.rightParen ⟨box, o⟩ t.box)] }

/-- the box of three looks side by side -/
theorem beside_box_assoc (scale : ℚ) (a b c : Look) :
    (beside scale (beside scale a b) c).box = (beside scale a (beside scale b c)).box := by
  simp only [beside, Sized.beside, larger_eq_max, max_assoc, add_assoc]

/-- **Side by side is associative.** -/
theorem beside_assoc (scale : ℚ) (a b c : Look) :
    beside scale (beside scale a b) c = beside scale a (beside scale b c) := by
  refine Look.ext (beside_box_assoc scale a b c) (funext fun o => ?_)
  -- the shift to the line of the whole run goes by way of the line of a part of it
  simp only [beside, Sized.beside_divider, Sized.beside_width, Point.shift_shift, List.append_assoc, max_assoc,
    add_zero, zero_add, sub_add_sub_cancel]

/-- looks from left to right -/
def chain (scale : ℚ) (l : Look) : List Look → Look
  | [] => l
  | r :: rest => beside scale l (chain scale r rest)

theorem beside_chain (scale : ℚ) (l : Look) (ls : List Look) (r : Look) (rs : List Look) :
    beside scale (chain scale l ls) (chain scale r rs) = chain scale l (ls ++ r :: rs) := by
  induction ls generalizing l with
  | nil => rfl
  | cons l' ls ih => rw [chain, beside_assoc, ih, List.cons_append, chain]

end Look

namespace Formula

/-- the look of a formula at a scale -/
def look (scale : ℚ) (t : Expr) : Look :=
  ⟨(t.boxed scale).datum, fun o => (t.laidOut scale o).commands⟩

/-! ## The look of a node from those of its parts -/

theorem divisions_boxed (scale : ℚ) (t : Expr) : (t.scaled scale).datum.divisions = (t.boxed scale).datum.divisions :=
  (sized_datum_divisions _).symm

theorem look_adjoin (scale : ℚ) (l r : Expr) :
    (adjoin l r).look scale = .beside scale (l.look scale) (r.look scale) := by
  have hbox : (adjoin l r).boxed scale = .concat
      (.beside ⟨scale, (l.boxed scale).datum.divisions + (r.boxed scale).datum.divisions⟩ (l.boxed scale).datum
        (r.boxed scale).datum) (l.boxed scale) (r.boxed scale) := by
    rw [← divisions_boxed, ← divisions_boxed]; rfl
  refine Look.ext (congrArg datum hbox) (funext fun o => ?_)
  change (((adjoin l r).boxed scale).placed o).commands = _
  rw [hbox, placed_concat]
  rfl

theorem look_divide (scale : ℚ) (n m : Expr) :
    (divide n m).look scale = .stacked scale (n.look scale) (m.look scale) := by
  have hbox : (divide n m).boxed scale = .fraction
      (.stacked ⟨scale, 1 + (n.boxed scale).datum.divisions + (m.boxed scale).datum.divisions⟩ (n.boxed scale).datum
        (m.boxed scale).datum) (n.boxed scale) (m.boxed scale) := by
    rw [← divisions_boxed, ← divisions_boxed]; rfl
  refine Look.ext (congrArg datum hbox) (funext fun o => ?_)
  change (((divide n m).boxed scale).placed o).commands = _
  rw [hbox, placed_fraction, commands, placed_datum, placed_datum]
  rfl

theorem look_parenthesize (scale : ℚ) (t : Expr) :
    (parenthesize t).look scale = .enclosed scale (t.look scale) := by
  have hbox : (parenthesize t).boxed scale = .paren
      (.enclosed ⟨scale, (t.boxed scale).datum.divisions⟩ (t.boxed scale).datum) (t.boxed scale) := by
    rw [← divisions_boxed]; rfl
  refine Look.ext (congrArg datum hbox) (funext fun o => ?_)
  change (((parenthesize t).boxed scale).placed o).commands = _
  rw [hbox, placed_paren, commands, placed_datum]
  rfl

theorem look_withScripts (scale : ℚ) (b : Expr) (p q : Option Expr) :
    (withScripts b p q).look scale =
      .scripted scale (b.look scale) (p.map (look (scale * Metrics.scriptScale)))
        (q.map (look (scale * Metrics.scriptScale))) := by
  set small := scale * Metrics.scriptScale with hsmall
  have hdivisions : (scaled scale (.scripts () b p q)).datum.divisions = (b.boxed scale).datum.divisions
      + (p.map (look small)).elim 0 (·.box.divisions) + (q.map (look small)).elim 0 (·.box.divisions) := by
    rw [scaled_scripts, ← hsmall, ← divisions_boxed]
    cases p <;> cases q <;> simp [look, divisions_boxed]
  have hbox : (withScripts b p q).boxed scale = .scripts
      ((b.look scale).scripted scale (p.map (look small)) (q.map (look small))).box
      (b.boxed scale) (p.map (boxed small)) (q.map (boxed small)) := by
    rw [withScripts, boxed_scripts, hdivisions]
    cases p <;> cases q <;> rfl
  refine Look.ext (congrArg datum hbox) (funext fun o => ?_)
  change (((withScripts b p q).boxed scale).placed o).commands = _
  rw [hbox, placed_scripts_shift, commands_scripts]
  cases p <;> cases q <;> rfl

/-! ## Runs -/

/-- the look of a run does not depend on its grouping -/
theorem look_of_grouping {t : Expr} {ts : List Expr} {e : Expr} (h : Grouping (t :: ts) e) (scale : ℚ) :
    e.look scale = .chain scale (t.look scale) (ts.map (look scale)) := by
  generalize hrun : t :: ts = run at h
  induction h generalizing t ts with
  | single u =>
    cases hrun
    rfl
  | @join xs ys l r hl hr ihl ihr =>
    obtain ⟨x, xs, rfl⟩ := List.exists_cons_of_ne_nil hl.ne_nil
    obtain ⟨y, ys, rfl⟩ := List.exists_cons_of_ne_nil hr.ne_nil
    rw [List.cons_append] at hrun
    obtain ⟨rfl, rfl⟩ := List.cons.inj hrun
    rw [look_adjoin, ihl rfl, ihr rfl, Look.beside_chain, List.map_append, List.map_cons]

/-! ## Surroundings -/

/-- one level around a formula: what it stands beside, above, below, or inside -/
inductive Layer where
  | before (right : Expr)
  | behind (left : Expr)
  | numerator (denominator : Expr)
  | denominator (numerator : Expr)
  | base (superscript subscript : Option Expr)
  | superscript (base : Expr) (subscript : Option Expr)
  | subscript (base : Expr) (superscript : Option Expr)
  | parens

/-- the formula with one level around it -/
def Layer.around (t : Expr) : Layer → Expr
  | before r => adjoin t r
  | behind l => adjoin l t
  | numerator m => divide t m
  | denominator n => divide n t
  | base p q => withScripts t p q
  | superscript b q => withScripts b (some t) q
  | subscript b p => withScripts b p (some t)
  | parens => parenthesize t

/-- the formula in its surroundings, the innermost level first -/
def surround (t : Expr) (layers : List Layer) : Expr :=
  layers.foldl Layer.around t

theorem look_around {t u : Expr} (h : ∀ scale, t.look scale = u.look scale) (layer : Layer) (scale : ℚ) :
    (layer.around t).look scale = (layer.around u).look scale := by
  cases layer <;>
    simp only [Layer.around, look_adjoin, look_divide, look_withScripts, look_parenthesize, Option.map_some, h]

/-- formulas of one look stand for each other in every surrounding -/
theorem look_surround {t u : Expr} (h : ∀ scale, t.look scale = u.look scale) (layers : List Layer) (scale : ℚ) :
    (surround t layers).look scale = (surround u layers).look scale := by
  induction layers generalizing t u with
  | nil => exact h scale
  | cons layer layers ih => exact ih (look_around h layer)

/-- **The grouping of a run changes nothing.** The join of a run is one of its groupings, and any two groupings have the
same box and the same drawing in every surrounding, at every scale and every corner. -/
theorem grouping_changes_nothing (terms : List Expr) (hne : terms ≠ []) :
    (∃ e, concatAll terms = some e ∧ Grouping terms e) ∧
      ∀ t u : Expr, Grouping terms t → Grouping terms u → ∀ (layers : List Layer) (scale : ℚ) (origin : Point ℚ),
        ((surround t layers).laidOut scale origin).datum.box = ((surround u layers).laidOut scale origin).datum.box ∧
          ((surround t layers).laidOut scale origin).commands = ((surround u layers).laidOut scale origin).commands := by
  obtain ⟨e, he⟩ := concatAll_isSome hne
  refine ⟨⟨e, he, grouping_of_concatAll he⟩, fun t u ht hu layers scale origin => ?_⟩
  obtain ⟨first, rest, rfl⟩ := List.exists_cons_of_ne_nil hne
  have hlook : (surround t layers).look scale = (surround u layers).look scale :=
    look_surround (fun scale => (look_of_grouping ht scale).trans (look_of_grouping hu scale).symm) layers scale
  rw [laidOut, laidOut, placed_datum, placed_datum]
  exact ⟨congrArg Look.box hlook, congrFun (congrArg Look.paint hlook) origin⟩

/-- a fraction, a letter and a power, joined from the left and from the right, in parentheses above a fraction's rule -/
theorem three_terms_either_way : ∃ t u v : Expr, Notation.parse "{a/b}" = .ok t ∧ Notation.parse "c" = .ok u ∧
    Notation.parse "x^2" = .ok v ∧ [t, u, v] ≠ [] ∧ Grouping [t, u, v] (adjoin (adjoin t u) v) ∧
      Grouping [t, u, v] (adjoin t (adjoin u v)) ∧
        let left := surround (adjoin (adjoin t u) v) [.parens, .numerator u]
        let right := surround (adjoin t (adjoin u v)) [.parens, .numerator u]
        (left.laidOut (1 : ℚ) ⟨0, 0⟩).datum.box = (right.laidOut (1 : ℚ) ⟨0, 0⟩).datum.box ∧
          (left.laidOut (1 : ℚ) ⟨0, 0⟩).commands = (right.laidOut (1 : ℚ) ⟨0, 0⟩).commands := by
  obtain ⟨t, ht⟩ : ∃ t, Notation.parse "{a/b}" = .ok t := ⟨_, rfl⟩
  obtain ⟨u, hu⟩ : ∃ u, Notation.parse "c" = .ok u := ⟨_, rfl⟩
  obtain ⟨v, hv⟩ : ∃ v, Notation.parse "x^2" = .ok v := ⟨_, rfl⟩
  have hleft : Grouping [t, u, v] (adjoin (adjoin t u) v) := .join (.join (.single t) (.single u)) (.single v)
  have hright : Grouping [t, u, v] (adjoin t (adjoin u v)) := .join (.single t) (.join (.single u) (.single v))
  refine ⟨t, u, v, ht, hu, hv, List.cons_ne_nil _ _, hleft, hright, ?_⟩
  exact (grouping_changes_nothing [t, u, v] (List.cons_ne_nil _ _)).2 _ _ hleft hright _ 1 ⟨0, 0⟩

end Formula

end FormulaLayout
