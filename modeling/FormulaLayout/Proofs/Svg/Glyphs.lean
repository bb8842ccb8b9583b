/-
Where the elements of text draw their glyphs.

Text is drawn from an origin on its baseline: without any transform its glyphs take up the box that reaches from the
origin to the right by their width and upwards by the font size. An element moves this box to its coordinates or maps it
by its matrix, which is that of the map that stretches and then moves (`Transform.apply_andThen`). Over the rationals
both kinds of element draw into the box of their command.

- `text_draws_box`: composition of transforms, the box that an element of text draws, and where parentheses are drawn.
-/
import Mathlib.Algebra.Order.Group.Pointwise.Interval
import Mathlib.Tactic
import FormulaLayout.Drawing.Painter
import FormulaLayout.Proofs.Layout.Exact
import FormulaLayout.Svg.Element

namespace FormulaLayout

/-- the points of the box with these two opposite corners -/
def Point.between (p q : Point ℚ) : Set (Point ℚ) :=
  {r | r.x ∈ Set.uIcc p.x q.x ∧ r.y ∈ Set.uIcc p.y q.y}

theorem Scalar.isNegligible_iff (d : ℚ) : isNegligible d ↔ |d| < epsilon := by
  simp only [isNegligible, Bool.and_eq_true, decide_eq_true_eq, abs_lt]
  exact And.comm

/-! ## Transforms -/

namespace Transform

theorem apply_andThen (t u : Transform ℚ) (p : Point ℚ) : (t.andThen u).apply p = u.apply (t.apply p) := by
  simp only [apply, andThen, Point.mk.injEq]
  constructor <;> ring

theorem andThen_assoc (t u v : Transform ℚ) : (t.andThen u).andThen v = t.andThen (u.andThen v) := by
  simp only [andThen, Transform.mk.injEq]
  refine ⟨?_, ?_, ?_, ?_, ?_, ?_⟩ <;> ring

theorem identity_andThen (t : Transform ℚ) : identity.andThen t = t := by
  simp [andThen, identity, zero_literal, one_literal]

theorem andThen_identity (t : Transform ℚ) : t.andThen identity = t := by
  simp [andThen, identity, zero_literal, one_literal]

theorem apply_translation (x y : ℚ) (p : Point ℚ) : (translation x y).apply p = ⟨p.x + x, p.y + y⟩ := by
  simp [apply, translation, identity, zero_literal, one_literal]

theorem apply_scaling (sx sy : ℚ) (p : Point ℚ) : (scaling sx sy).apply p = ⟨sx * p.x, sy * p.y⟩ := by
  simp [apply, scaling, identity, zero_literal]

/-- horizontal lines stay horizontal and vertical ones vertical -/
structure KeepsAxes (t : Transform ℚ) : Prop where
  b_eq : t.b = 0
  c_eq : t.c = 0

theorem keepsAxes_translation (x y : ℚ) : (translation x y).KeepsAxes :=
  ⟨zero_literal, zero_literal⟩

theorem keepsAxes_scaling (sx sy : ℚ) : (scaling sx sy).KeepsAxes :=
  ⟨zero_literal, zero_literal⟩

theorem KeepsAxes.andThen {t u : Transform ℚ} (ht : t.KeepsAxes) (hu : u.KeepsAxes) : (t.andThen u).KeepsAxes where
  b_eq := by simp [Transform.andThen, ht.b_eq, hu.b_eq]
  c_eq := by simp [Transform.andThen, ht.c_eq, hu.c_eq]

/-- a map that keeps the axes maps a box to a box -/
theorem KeepsAxes.image_between {t : Transform ℚ} (h : t.KeepsAxes) (p q : Point ℚ) :
    t.apply '' p.between q = (t.apply p).between (t.apply q) := by
  have haxis : ∀ k m u v : ℚ, (fun z => k * z + m) '' Set.uIcc u v = Set.uIcc (k * u + m) (k * v + m) := by
    intro k m u v
    rw [← Set.image_add_const_uIcc, ← Set.image_const_mul_uIcc, Set.image_image]
  have happly : ∀ r, t.apply r = ⟨t.a * r.x + t.e, t.d * r.y + t.f⟩ := by
    intro r
    simp [apply, h.b_eq, h.c_eq]
  ext r
  constructor
  · intro ⟨s, ⟨hx, hy⟩, hr⟩
    rw [← hr, happly p, happly q, happly s]
    exact ⟨haxis .. ▸ Set.mem_image_of_mem _ hx, haxis .. ▸ Set.mem_image_of_mem _ hy⟩
  · intro ⟨hx, hy⟩
    rw [happly p, happly q, ← haxis] at hx hy
    obtain ⟨x, hxmem, hx⟩ := hx
    obtain ⟨y, hymem, hy⟩ := hy
    refine ⟨⟨x, y⟩, ⟨hxmem, hymem⟩, ?_⟩
    rw [happly]
    exact congrArg₂ Point.mk hx hy

end Transform

/-! ## Elements -/

/-- the box that a text command with glyphs of this width is to draw -/
def TextCommand.area (width : ℚ) (t : TextCommand ℚ) : Set (Point ℚ) :=
  t.position.between ⟨t.position.x + width, t.position.y + t.fontSize * t.stretch⟩

namespace Svg.Element

/-- the box of glyphs that stand on the origin -/
def glyphBox (width fontSize : ℚ) : Set (Point ℚ) :=
  Point.between ⟨0, -fontSize⟩ ⟨width, 0⟩

/-- where an element draws its text, if its glyphs are of this width: from its coordinates, or as its matrix maps it -/
def glyphArea (width : ℚ) : Element ℚ → Set (Point ℚ)
  | plainText x baseline fontSize _ => (Transform.translation x baseline).apply '' glyphBox width fontSize
  | mappedText fontSize matrix _ => matrix.apply '' glyphBox width fontSize
  | line _ _ _ => ∅

/-- text is drawn into the box of its command, unless its stretch is dropped without being one -/
theorem glyphArea_text {t : TextCommand ℚ} (h : t.stretch = 1 ∨ Scalar.epsilon ≤ |t.stretch - 1|) (width : ℚ) :
    (ofCommand (.text t)).glyphArea width = t.area width := by
  obtain ⟨⟨x, y⟩, fontSize, content, stretch⟩ := t
  by_cases hdropped : Scalar.isNegligible (stretch - 1.0)
  · have hone : stretch = 1 := by
      rw [one_literal, Scalar.isNegligible_iff] at hdropped
      exact h.resolve_right (not_le.2 hdropped)
    rw [ofCommand, if_pos hdropped, glyphArea, glyphBox, (Transform.keepsAxes_translation _ _).image_between,
      TextCommand.area]
    simp only [Transform.apply_translation, hone]
    congr 2 <;> ring
  · have hkeeps := (Transform.keepsAxes_scaling 1.0 stretch).andThen
      (Transform.keepsAxes_translation x (y + fontSize * stretch))
    rw [ofCommand, if_neg hdropped, glyphArea, glyphBox, hkeeps.image_between, TextCommand.area]
    simp only [Transform.apply_andThen, Transform.apply_scaling, Transform.apply_translation, one_literal]
    congr 2 <;> ring

end Svg.Element

/-! ## Parentheses -/

/-- the stretch of parentheses is never dropped without being one -/
theorem Metrics.stretchFactor_kept (n : Nat) :
    (stretchFactor n : ℚ) = 1 ∨ Scalar.epsilon ≤ |(stretchFactor n : ℚ) - 1| := by
  by_cases hn : n = 0
  · left
    rw [stretchFactor, if_pos hn, one_literal]
  · right
    have hone : (1 : ℚ) ≤ n := Nat.one_le_cast.2 (Nat.pos_of_ne_zero hn)
    have hfar : (1 : ℚ) ≤ (n : ℚ) * 2.2 - 1 := by linarith
    have hepsilon : (Scalar.epsilon : ℚ) ≤ 1 := by norm_num [Scalar.epsilon]
    rw [stretchFactor, if_neg hn]
    exact hepsilon.trans (hfar.trans (le_abs_self _))

namespace Placed

/-- a stretched parenthesis starts as far above the middle of the box as half of it reaches -/
theorem glyphY_eq (p : Placed ℚ) : p.glyphY = p.bounds.center.y - p.box.scale * p.stretch / 2 := by
  simp only [glyphY, bounds, Rect.center, Rect.ofOriginSize, two_literal]
  ring

/-- a glyph that is as tall as a parenthesis of the box, and as high up, is drawn around the middle of the box -/
theorem glyphArea_paren {p : Placed ℚ} (glyph : TextCommand ℚ) (hy : glyph.position.y = p.glyphY)
    (hsize : glyph.fontSize = p.box.scale) (hstretch : glyph.stretch = p.stretch) (width : ℚ) :
    let middle := p.bounds.center.y
    let half := p.box.scale * p.stretch / 2
    (Svg.Element.ofCommand (.text glyph)).glyphArea width =
      Point.between ⟨glyph.position.x, middle - half⟩ ⟨glyph.position.x + width, middle + half⟩ := by
  intro middle half
  have hkept : glyph.stretch = 1 ∨ Scalar.epsilon ≤ |glyph.stretch - 1| := by
    rw [hstretch]
    exact Metrics.stretchFactor_kept p.box.divisions
  have htop : glyph.position = ⟨glyph.position.x, middle - half⟩ := by
    rw [← p.glyphY_eq, ← hy]
  have hbottom : glyph.position.y + glyph.fontSize * glyph.stretch = middle + half := by
    rw [hy, hsize, hstretch, glyphY_eq]
    ring
  rw [Svg.Element.glyphArea_text hkept, TextCommand.area, hbottom, ← htop]

end Placed

/-- **Both forms of text draw the box of the command.** Composing transforms composes their maps, with the map that moves
nothing as its neutral element. Text whose stretch is one, or far enough from it to be kept, is drawn into the box of its
command, whether by its coordinates or by a matrix. So the two glyphs around the inside of parentheses reach from the
middle of the box as far up as down. -/
theorem text_draws_box :
    (∀ (t u : Transform ℚ) (p : Point ℚ), (t.andThen u).apply p = u.apply (t.apply p)) ∧
      (∀ t u v : Transform ℚ, (t.andThen u).andThen v = t.andThen (u.andThen v)) ∧
      (∀ t : Transform ℚ, Transform.identity.andThen t = t ∧ t.andThen .identity = t) ∧
      (∀ t : TextCommand ℚ, t.stretch = 1 ∨ Scalar.epsilon ≤ |t.stretch - 1| → ∀ width : ℚ,
        (Svg.Element.ofCommand (.text t)).glyphArea width = t.area width) ∧
      ∀ (p : Placed ℚ) (inside : Formula (Placed ℚ)),
        let left := p.leftParen
        let right := p.rightParen inside.datum.box
        let middle := p.bounds.center.y
        let half := p.box.scale * p.stretch / 2
        (Formula.paren p inside).commands = .text left :: inside.commands ++ [.text right] ∧
          ∀ glyph ∈ [left, right], ∀ width : ℚ, (Svg.Element.ofCommand (.text glyph)).glyphArea width =
            Point.between ⟨glyph.position.x, middle - half⟩ ⟨glyph.position.x + width, middle + half⟩ := by
  refine ⟨Transform.apply_andThen, Transform.andThen_assoc, ?_, ?_, ?_⟩
  · intro t
    exact ⟨t.identity_andThen, t.andThen_identity⟩
  · intro t h width
    exact Svg.Element.glyphArea_text h width
  · intro p inside left right middle half
    have hleft := Placed.glyphArea_paren left rfl rfl rfl
    have hright := Placed.glyphArea_paren right rfl rfl rfl
    exact ⟨rfl, List.forall_mem_cons.2 ⟨hleft, List.forall_mem_singleton.2 hright⟩⟩

/-- the left parenthesis around one fraction, with its top corner on the origin -/
theorem stretched_paren_draws_box :
    let t : TextCommand ℚ := ⟨⟨0, 0⟩, 1, "(", 11 / 5⟩
    Scalar.epsilon ≤ |t.stretch - 1| ∧
      (Svg.Element.ofCommand (.text t)).glyphArea (3 / 5) = Point.between ⟨0, 0⟩ ⟨3 / 5, 11 / 5⟩ := by
  intro t
  have hkept : Scalar.epsilon ≤ |t.stretch - 1| := by norm_num [t, Scalar.epsilon, abs_of_pos]
  refine ⟨hkept, ?_⟩
  rw [text_draws_box.2.2.2.1 t (.inr hkept), TextCommand.area]
  norm_num [t]

end FormulaLayout
