/-
Layouts at another scale and another place.

A similarity multiplies lengths by a factor and moves the origin to a corner. Each pass commutes with it: a box computed
from magnified boxes is the magnified box, since sums and maxima are homogeneous, and a part that is placed at an inset
of a magnified node stands at the magnified inset. So the layout at a scale and a corner is the layout at scale one and
the origin under a similarity (`laidOut_magnify`), for every node and not only for the root.
-/
import Mathlib.Tactic
import FormulaLayout.Proofs.Layout.Insets

namespace FormulaLayout

/-! ## Similarities -/

/-- the point under the similarity that takes the origin to the corner `o` -/
def Point.magnify (s : ℚ) (o p : Point ℚ) : Point ℚ :=
  ⟨o.x + s * p.x, o.y + s * p.y⟩

/-- the extent, so many times as large -/
def Size.magnify (s : ℚ) (z : Size ℚ) : Size ℚ :=
  ⟨s * z.width, s * z.height⟩

/-- the node, so many times as large; the fractions in its tree are the same -/
def Scaled.magnify (s : ℚ) (d : Scaled ℚ) : Scaled ℚ :=
  { d with scale := s * d.scale }

/-- the box, so many times as large -/
def Sized.magnify (s : ℚ) (b : Sized ℚ) : Sized ℚ where
  scale := s * b.scale
  divisions := b.divisions
  size := b.size.magnify s
  divider := s * b.divider

/-- the box in its place, under the similarity -/
def Placed.magnify (s : ℚ) (o : Point ℚ) (p : Placed ℚ) : Placed ℚ :=
  ⟨p.box.magnify s, .magnify s o p.origin⟩

/-- the arrangement, so many times as high -/
def ScriptPlacement.magnify (s : ℚ) (a : ScriptPlacement ℚ) : ScriptPlacement ℚ where
  baseTop := s * a.baseTop
  superOffset := s * a.superOffset
  subOffset := s * a.subOffset
  height := s * a.height

variable {s : ℚ}

theorem Point.magnify_shift (o p : Point ℚ) (dx dy : ℚ) :
    magnify s o (p.shift dx dy) = (magnify s o p).shift (s * dx) (s * dy) := by
  simp only [magnify, shift, mul_add, add_assoc]

namespace Metrics

theorem fractionGap_mul (k : ℚ) : fractionGap (s * k) = s * fractionGap k := mul_assoc _ _ _

theorem parenPadding_mul (k : ℚ) : parenPadding (s * k) = s * parenPadding k := mul_assoc _ _ _

theorem ruleThickness_mul (k : ℚ) : ruleThickness (s * k) = s * ruleThickness k := mul_assoc _ _ _

end Metrics

/-! ## Boxes -/

/-- the lift of a base is clamped at zero, and a clamped height is homogeneous too -/
theorem ScriptPlacement.ofSizes_magnify (hs : 0 ≤ s) (b : Size ℚ) (p q : Option (Size ℚ)) :
    ofSizes (b.magnify s) (p.map (Size.magnify s)) (q.map (Size.magnify s)) = (ofSizes b p q).magnify s := by
  cases p <;> cases q <;>
    simp only [ofSizes, magnify, Size.magnify, larger_eq_max, zero_literal, Option.map_some, Option.map_none,
      Option.elim_some, Option.elim_none, Option.isSome_some, Option.isSome_none, if_true, Bool.false_eq_true, if_false,
      mul_max_of_nonneg _ _ hs, mul_add, mul_sub, mul_assoc, mul_zero]

namespace Sized

theorem placement_magnify (hs : 0 ≤ s) (b : Sized ℚ) (p q : Option (Sized ℚ)) :
    placement (b.magnify s) (p.map (magnify s)) (q.map (magnify s)) = (placement b p q).magnify s := by
  rw [placement, placement, ← ScriptPlacement.ofSizes_magnify hs]
  simp only [Option.map_map]
  rfl

theorem glyph_magnify (d : Scaled ℚ) : glyph (d.magnify s) = (glyph d).magnify s := by
  simp only [glyph, magnify, Scaled.magnify, Size.magnify, mul_assoc]

theorem beside_magnify (hs : 0 ≤ s) (d : Scaled ℚ) (l r : Sized ℚ) :
    beside (d.magnify s) (l.magnify s) (r.magnify s) = (beside d l r).magnify s := by
  simp only [beside, magnify, Scaled.magnify, Size.magnify, larger_eq_max, mul_max_of_nonneg _ _ hs, mul_add]

theorem stacked_magnify (hs : 0 ≤ s) (d : Scaled ℚ) (n m : Sized ℚ) :
    stacked (d.magnify s) (n.magnify s) (m.magnify s) = (stacked d n m).magnify s := by
  simp only [stacked, magnify, Scaled.magnify, Size.magnify, larger_eq_max, mul_max_of_nonneg _ _ hs, mul_add,
    Metrics.fractionGap_mul, mul_div_assoc]

theorem scripted_magnify (hs : 0 ≤ s) (d : Scaled ℚ) (b : Sized ℚ) (p q : Option (Sized ℚ)) :
    scripted (d.magnify s) (b.magnify s) (p.map (magnify s)) (q.map (magnify s)) = (scripted d b p q).magnify s := by
  have hwidth : ∀ o : Option (Sized ℚ),
      (o.map (magnify s)).elim 0 (·.size.width) = s * o.elim 0 (·.size.width) := by
    rintro (_ | t)
    · exact (mul_zero s).symm
    · rfl
  simp only [scripted, placement_magnify hs, zero_literal, hwidth]
  simp only [magnify, Scaled.magnify, Size.magnify, ScriptPlacement.magnify, larger_eq_max, mul_max_of_nonneg _ _ hs,
    mul_add]

theorem enclosed_magnify (d : Scaled ℚ) (t : Sized ℚ) :
    enclosed (d.magnify s) (t.magnify s) = (enclosed d t).magnify s := by
  simp only [enclosed, magnify, Scaled.magnify, Size.magnify, Metrics.parenPadding_mul, mul_add, mul_left_comm s]

end Sized

/-! ## Passes -/

namespace Formula

variable {δ ε : Type}

@[simp]
theorem datum_map (f : δ → ε) (t : Formula δ) : (t.map f).datum = f t.datum := by
  cases t with
  | scripts d b p q => rw [map_scripts]; rfl
  | _ => rfl

theorem scaled_magnify (k : ℚ) (t : Formula δ) : t.scaled (s * k) = (t.scaled k).map (Scaled.magnify s) := by
  induction t using Formula.ind generalizing k with
  | char d c => rfl
  | concat d l r hl hr => simp only [scaled, map, hl, hr, datum_map, Scaled.magnify]
  | fraction d n m hn hm => simp only [scaled, map, hn, hm, datum_map, Scaled.magnify]
  | scripts d b p q hb hp hq =>
    have hmap : ∀ o : Option (Formula δ),
        (∀ t ∈ o, ∀ k, t.scaled (s * k) = (t.scaled k).map (Scaled.magnify s)) →
          o.map (scaled (s * k * Metrics.scriptScale)) =
            (o.map (scaled (k * Metrics.scriptScale))).map (map (Scaled.magnify s)) := by
      rintro (_ | t) ht
      · rfl
      · rw [Option.map_some, Option.map_some, Option.map_some, mul_assoc, ht t rfl]
    rw [scaled_scripts, scaled_scripts, map_scripts, hmap p hp, hmap q hq, hb]
    cases p <;> cases q <;> simp [Scaled.magnify]
  | paren d t ht => simp only [scaled, map, ht, datum_map, Scaled.magnify]

theorem sized_magnify (hs : 0 ≤ s) (t : Formula (Scaled ℚ)) :
    (t.map (Scaled.magnify s)).sized = t.sized.map (Sized.magnify s) := by
  induction t using Formula.ind with
  | char d c => simp only [sized, map, Sized.glyph_magnify]
  | concat d l r hl hr => simp only [sized, map, hl, hr, datum_map, Sized.beside_magnify hs]
  | fraction d n m hn hm => simp only [sized, map, hn, hm, datum_map, Sized.stacked_magnify hs]
  | scripts d b p q hb hp hq =>
    have hpart : ∀ o : Option (Formula (Scaled ℚ)),
        (∀ t ∈ o, (t.map (Scaled.magnify s)).sized = t.sized.map (Sized.magnify s)) →
          (o.map (map (Scaled.magnify s))).map sized = (o.map sized).map (map (Sized.magnify s)) ∧
            (o.map (map (Scaled.magnify s))).map (·.sized.datum) =
              (o.map (·.sized.datum)).map (Sized.magnify s) := by
      rintro (_ | t) ht
      · exact ⟨rfl, rfl⟩
      · simp only [Option.map_some, ht t rfl, datum_map, and_self]
    obtain ⟨hptree, hpbox⟩ := hpart p hp
    obtain ⟨hqtree, hqbox⟩ := hpart q hq
    rw [map_scripts, sized_scripts, sized_scripts, map_scripts, hb, hptree, hqtree, hpbox, hqbox, datum_map,
      Sized.scripted_magnify hs]
  | paren d t ht => simp only [sized, map, ht, datum_map, Sized.enclosed_magnify]

theorem boxed_magnify (hs : 0 ≤ s) (k : ℚ) (t : Formula δ) : t.boxed (s * k) = (t.boxed k).map (Sized.magnify s) := by
  rw [boxed, scaled_magnify, sized_magnify hs, boxed]

theorem placed_magnify (hs : 0 ≤ s) (o : Point ℚ) (t : Formula (Sized ℚ)) (p : Point ℚ) :
    (t.map (Sized.magnify s)).placed (.magnify s o p) = (t.placed p).map (Placed.magnify s o) := by
  induction t using Formula.ind generalizing p with
  | char d c => rfl
  | concat d l r hl hr =>
    rw [placed_concat, map, map, placed_concat, ← hl, ← hr, Point.magnify_shift, Point.magnify_shift]
    simp only [datum_map, Sized.magnify, Size.magnify, mul_sub, mul_zero]
    rfl
  | fraction d n m hn hm =>
    rw [placed_fraction, map, map, placed_fraction, ← hn, ← hm, Point.magnify_shift, Point.magnify_shift]
    simp only [datum_map, Sized.magnify, Size.magnify, Metrics.fractionGap_mul, ← mul_sub, mul_add, mul_div_assoc,
      mul_zero]
    rfl
  | scripts d b u v hb hu hv =>
    have hpart : ∀ w : Option (Formula (Sized ℚ)),
        (∀ t ∈ w, ∀ p, (t.map (Sized.magnify s)).placed (.magnify s o p) = (t.placed p).map (Placed.magnify s o)) →
          ∀ p, (w.map (map (Sized.magnify s))).map (placed (.magnify s o p)) =
            (w.map (placed p)).map (map (Placed.magnify s o)) := by
      rintro (_ | t) ht p
      · rfl
      · simp only [Option.map_some, ht t rfl]
    have hdatum : ∀ w : Option (Formula (Sized ℚ)),
        (w.map (map (Sized.magnify s))).map datum = (w.map datum).map (Sized.magnify s) := by
      rintro (_ | t)
      · rfl
      · simp only [Option.map_some, datum_map]
    rw [map_scripts, placed_scripts_shift, placed_scripts_shift, hdatum, hdatum, datum_map, Sized.placement_magnify hs]
    simp only [map_scripts, ← hb, ← hpart u hu, ← hpart v hv, Point.magnify_shift, ScriptPlacement.magnify, mul_sub,
      mul_add, mul_zero]
    rfl
  | paren d t ht =>
    rw [placed_paren, map, map, placed_paren, ← ht, Point.magnify_shift]
    simp only [Sized.magnify, Metrics.parenPadding_mul, mul_zero]
    rfl

/-- **The layout under a similarity.** At so many times the scale and from the image of the corner, every node is the
image of the node. -/
theorem laidOut_magnify (hs : 0 ≤ s) (o : Point ℚ) (t : Formula δ) (k : ℚ) (p : Point ℚ) :
    t.laidOut (s * k) (.magnify s o p) = (t.laidOut k p).map (Placed.magnify s o) := by
  have hboxed : (t.scaled (s * k)).sized = ((t.scaled k).sized).map (Sized.magnify s) := boxed_magnify hs k t
  rw [laidOut, hboxed, placed_magnify hs, laidOut]

end Formula

end FormulaLayout
