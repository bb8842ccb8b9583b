/-
Boxes in single precision: sizes only grow towards the root.

Rounding keeps the order, so a sum of sizes is not smaller than its parts also where it is rounded, and infinity is the
greatest size. Hence every box is sound (its numbers are sizes, and it is as tall as its scale and its alignment line
say), and it fits into the box of the node above (`fits_beside_left` and its like, one for each place of a node). By
induction over the tree, every box fits into that of the root (`fitsInto_root`).
-/
import FormulaLayout.Proofs.Formula.Nodes
import FormulaLayout.Proofs.Layout.Exact
import FormulaLayout.Proofs.Layout.Passes
import FormulaLayout.Proofs.Single.Amount

namespace FormulaLayout

open Single

/-! ## Proportions -/

namespace Metrics

theorem isRatio_glyphWidth : IsRatio glyphWidth :=
  ⟨rfl, by decide +kernel, by decide +kernel⟩

theorem isRatio_glyphAlignment : IsRatio glyphAlignment :=
  ⟨rfl, by decide +kernel, by decide +kernel⟩

theorem isRatio_scriptScale : IsRatio scriptScale :=
  ⟨rfl, by decide +kernel, by decide +kernel⟩

theorem isRatio_superscriptDrop : IsRatio superscriptDrop :=
  ⟨rfl, by decide +kernel, by decide +kernel⟩

theorem superscriptDrop_lt_half : value superscriptDrop < 1 / 2 := by
  decide +kernel

theorem isRatio_subscriptRise : IsRatio subscriptRise :=
  ⟨rfl, by decide +kernel, by decide +kernel⟩

theorem isRatio_gap : IsRatio 0.3 :=
  ⟨rfl, by decide +kernel, by decide +kernel⟩

theorem isRatio_padding : IsRatio 0.6 :=
  ⟨rfl, by decide +kernel, by decide +kernel⟩

end Metrics

/-! ## Boxes -/

namespace Sized

/-- the numbers of a box are sizes, and it is at least as tall as its scale and its alignment line say -/
structure Sound (b : Sized Float32) : Prop where
  scale : IsAmount b.scale
  width : IsAmount b.size.width
  height : IsAmount b.size.height
  divider : IsAmount b.divider
  scale_le : amount b.scale ≤ amount b.size.height
  divider_le : amount b.divider ≤ amount b.size.height

/-- a box that is not greater than another, with no more fractions in its tree -/
structure Fits (b whole : Sized Float32) : Prop where
  scale : amount b.scale ≤ amount whole.scale
  divisions : b.divisions ≤ whole.divisions
  width : amount b.size.width ≤ amount whole.size.width
  height : amount b.size.height ≤ amount whole.size.height

theorem Fits.refl (b : Sized Float32) : b.Fits b :=
  ⟨le_rfl, le_rfl, le_rfl, le_rfl⟩

theorem Fits.trans {a b c : Sized Float32} (h : a.Fits b) (h' : b.Fits c) : a.Fits c :=
  ⟨h.scale.trans h'.scale, h.divisions.trans h'.divisions, h.width.trans h'.width, h.height.trans h'.height⟩

variable {d : Scaled Float32}

theorem glyph_sound (h : IsAmount d.scale) : (glyph d).Sound := by
  obtain ⟨hwidth, -⟩ := h.mul_ratio Metrics.isRatio_glyphWidth
  obtain ⟨hdivider, hle⟩ := h.mul_ratio Metrics.isRatio_glyphAlignment
  exact ⟨h, hwidth, h, hdivider, le_rfl, hle⟩

section

variable {l r : Sized Float32}

theorem beside_sound (hd : IsAmount d.scale) (hl : l.Sound) (hr : r.Sound) (hscale : l.scale = d.scale) :
    (beside d l r).Sound where
  scale := hd
  width := (hl.width.add hr.width).1
  height := (hl.height.larger hr.height).1
  divider := (hl.divider.larger hr.divider).1
  scale_le := (hscale ▸ hl.scale_le).trans (hl.height.le_larger_left hr.height)
  divider_le := by
    change amount (Scalar.larger l.divider r.divider) ≤ amount (Scalar.larger l.size.height r.size.height)
    rw [(hl.divider.larger hr.divider).2, (hl.height.larger hr.height).2]
    exact max_le_max hl.divider_le hr.divider_le

theorem fits_beside_left (hl : l.Sound) (hr : r.Sound) (hscale : l.scale = d.scale)
    (hdivisions : l.divisions ≤ d.divisions) : l.Fits (beside d l r) where
  scale := (congrArg amount hscale).le
  divisions := hdivisions
  width := hl.width.le_add_right hr.width
  height := hl.height.le_larger_left hr.height

theorem fits_beside_right (hl : l.Sound) (hr : r.Sound) (hscale : r.scale = d.scale)
    (hdivisions : r.divisions ≤ d.divisions) : r.Fits (beside d l r) where
  scale := (congrArg amount hscale).le
  divisions := hdivisions
  width := hl.width.le_add_left hr.width
  height := hl.height.le_larger_right hr.height

end

section

variable {n m : Sized Float32}

/-- the numerator with half the gap does not end below both parts with the whole gap -/
theorem stacked_sound (hd : IsAmount d.scale) (hn : n.Sound) (hm : m.Sound) (hscale : n.scale = d.scale) :
    (stacked d n m).Sound := by
  obtain ⟨hgap, -⟩ := hd.mul_ratio Metrics.isRatio_gap
  obtain ⟨hhalf, hle⟩ := hgap.half
  have hboth := (hn.height.add hm.height).1
  have hnumerator := hn.height.le_add_right hm.height
  refine ⟨hd, (hn.width.larger hm.width).1, (hboth.add hgap).1, (hn.height.add hhalf).1, ?_, ?_⟩
  · exact (hscale ▸ hn.scale_le).trans (hnumerator.trans (hboth.le_add_right hgap))
  · exact hn.height.add_le_add hhalf hboth hgap hnumerator hle

theorem fits_stacked_numerator (hd : IsAmount d.scale) (hn : n.Sound) (hm : m.Sound) (hscale : n.scale = d.scale)
    (hdivisions : n.divisions ≤ d.divisions) : n.Fits (stacked d n m) where
  scale := (congrArg amount hscale).le
  divisions := hdivisions
  width := hn.width.le_larger_left hm.width
  height := (hn.height.le_add_right hm.height).trans
    ((hn.height.add hm.height).1.le_add_right (hd.mul_ratio Metrics.isRatio_gap).1)

theorem fits_stacked_denominator (hd : IsAmount d.scale) (hn : n.Sound) (hm : m.Sound) (hscale : m.scale = d.scale)
    (hdivisions : m.divisions ≤ d.divisions) : m.Fits (stacked d n m) where
  scale := (congrArg amount hscale).le
  divisions := hdivisions
  width := hn.width.le_larger_right hm.width
  height := (hn.height.le_add_left hm.height).trans
    ((hn.height.add hm.height).1.le_add_right (hd.mul_ratio Metrics.isRatio_gap).1)

end

section

variable {b : Sized Float32} {p q : Option (Sized Float32)}

theorem isAmount_baseTop (b : Sized Float32) (p q : Option (Sized Float32)) : IsAmount (placement b p q).baseTop := by
  cases p with
  | none => exact isAmount_zero
  | some p => exact isAmount_larger_zero _

theorem isAmount_subOffset (hb : b.Sound) (p q : Option (Sized Float32)) : IsAmount (placement b p q).subOffset :=
  (hb.height.mul_ratio Metrics.isRatio_subscriptRise).1

/-- the arrangement does not end above its base -/
theorem le_placement_height (hb : b.Sound) (p : Option (Sized Float32)) (hq : ∀ s ∈ q, s.Sound) :
    IsAmount (placement b p q).height ∧
      amount ((placement b p q).baseTop + b.size.height) ≤ amount (placement b p q).height := by
  have hbottom := ((isAmount_baseTop b p q).add hb.height).1
  cases q with
  | none => exact ⟨hbottom, le_rfl⟩
  | some s =>
    have hsub := (((isAmount_baseTop b p (some s)).add (isAmount_subOffset hb p (some s))).1.add (hq s rfl).height).1
    exact ⟨(hbottom.larger hsub).1, hbottom.le_larger_left hsub⟩

/-- a superscript does not reach below its base -/
theorem superscript_le_placement_height (hb : b.Sound) {s : Sized Float32} (hs : s.Sound) (hq : ∀ s ∈ q, s.Sound) :
    amount s.size.height ≤ amount (placement b (some s) q).height :=
  (hs.height.le_larger_sub_add hb.height Metrics.isRatio_superscriptDrop Metrics.superscriptDrop_lt_half).trans
    (le_placement_height hb (some s) hq).2

/-- the arrangement does not end above its subscript -/
theorem subscript_le_placement_height (hb : b.Sound) (p : Option (Sized Float32)) {s : Sized Float32} (hs : s.Sound) :
    amount s.size.height ≤ amount (placement b p (some s)).height := by
  have hbottom := ((isAmount_baseTop b p (some s)).add hb.height).1
  have htop := ((isAmount_baseTop b p (some s)).add (isAmount_subOffset hb p (some s))).1
  exact (htop.le_add_left hs.height).trans (hbottom.le_larger_right (htop.add hs.height).1)

/-- the width kept for one script -/
theorem isAmount_width (hp : ∀ s ∈ p, s.Sound) : IsAmount (p.elim 0.0 (·.size.width)) := by
  cases p with
  | none => exact isAmount_zero
  | some s => exact (hp s rfl).width

theorem scripted_sound (hd : IsAmount d.scale) (hb : b.Sound) (hp : ∀ s ∈ p, s.Sound) (hq : ∀ s ∈ q, s.Sound)
    (hscale : b.scale = d.scale) : (scripted d b p q).Sound := by
  have htop := isAmount_baseTop b p q
  obtain ⟨hheight, hle⟩ := le_placement_height hb p hq
  have hscripts := ((isAmount_width hp).larger (isAmount_width hq)).1
  refine ⟨hd, (hb.width.add hscripts).1, hheight, (hb.divider.add htop).1, ?_, ?_⟩
  · exact (hscale ▸ hb.scale_le).trans ((htop.le_add_left hb.height).trans hle)
  · calc amount (b.divider + (placement b p q).baseTop)
        ≤ amount ((placement b p q).baseTop + b.size.height) := by
          rw [(hb.divider.add htop).2, add_comm, ← (htop.add hb.divider).2]
          exact htop.add_le_add hb.divider htop hb.height le_rfl hb.divider_le
      _ ≤ amount (placement b p q).height := hle

theorem fits_scripted_base (hb : b.Sound) (hp : ∀ s ∈ p, s.Sound) (hq : ∀ s ∈ q, s.Sound) (hscale : b.scale = d.scale)
    (hdivisions : b.divisions ≤ d.divisions) : b.Fits (scripted d b p q) where
  scale := (congrArg amount hscale).le
  divisions := hdivisions
  width := hb.width.le_add_right ((isAmount_width hp).larger (isAmount_width hq)).1
  height := ((isAmount_baseTop b p q).le_add_left hb.height).trans (le_placement_height hb p hq).2

theorem fits_scripted_superscript (hb : b.Sound) {s : Sized Float32} (hs : s.Sound) (hq : ∀ s ∈ q, s.Sound)
    (hscale : amount s.scale ≤ amount d.scale) (hdivisions : s.divisions ≤ d.divisions) :
    s.Fits (scripted d b (some s) q) where
  scale := hscale
  divisions := hdivisions
  width := (hs.width.le_larger_left (isAmount_width hq)).trans
    (hb.width.le_add_left (hs.width.larger (isAmount_width hq)).1)
  height := superscript_le_placement_height hb hs hq

theorem fits_scripted_subscript (hb : b.Sound) (hp : ∀ s ∈ p, s.Sound) {s : Sized Float32} (hs : s.Sound)
    (hscale : amount s.scale ≤ amount d.scale) (hdivisions : s.divisions ≤ d.divisions) :
    s.Fits (scripted d b p (some s)) where
  scale := hscale
  divisions := hdivisions
  width := ((isAmount_width hp).le_larger_right hs.width).trans
    (hb.width.le_add_left ((isAmount_width hp).larger hs.width).1)
  height := subscript_le_placement_height hb p hs

end

section

variable {c : Sized Float32}

theorem enclosed_sound (hd : IsAmount d.scale) (hc : c.Sound) (hscale : c.scale = d.scale) : (enclosed d c).Sound where
  scale := hd
  width := (hc.width.add (hd.mul_ratio Metrics.isRatio_padding).1.double.1).1
  height := hc.height
  divider := hc.divider
  scale_le := (congrArg amount hscale).ge.trans hc.scale_le
  divider_le := hc.divider_le

theorem fits_enclosed (hd : IsAmount d.scale) (hc : c.Sound) (hscale : c.scale = d.scale)
    (hdivisions : c.divisions ≤ d.divisions) : c.Fits (enclosed d c) where
  scale := (congrArg amount hscale).le
  divisions := hdivisions
  width := hc.width.le_add_right (hd.mul_ratio Metrics.isRatio_padding).1.double.1
  height := le_rfl

end

end Sized

/-! ## The tree of boxes -/

namespace Formula

variable {δ : Type}

/-- a part of a fraction has fewer fractions than the node -/
theorem divisions_fraction_lt (scale : Float32) (d : δ) (n m : Formula δ) :
    (n.scaled scale).sized.datum.divisions < (scaled scale (.fraction d n m)).datum.divisions ∧
      (m.scaled scale).sized.datum.divisions < (scaled scale (.fraction d n m)).datum.divisions := by
  rw [sized_datum_divisions, sized_datum_divisions]
  simp only [scaled, datum]
  omega

/-- the base and a script have no more fractions than the node -/
theorem divisions_scripts_le (scale : Float32) (d : δ) (b : Formula δ) (p q : Option (Formula δ)) :
    (b.scaled scale).sized.datum.divisions ≤ (scaled scale (.scripts d b p q)).datum.divisions ∧
      ∀ t, t ∈ p ∨ t ∈ q → (t.scaled (scale * Metrics.scriptScale)).sized.datum.divisions ≤
        (scaled scale (.scripts d b p q)).datum.divisions := by
  simp only [sized_datum_divisions]
  rw [scaled_scripts, datum_scripts]
  dsimp only
  refine ⟨by omega, ?_⟩
  rintro t (ht | ht)
  · rw [Option.mem_def.1 ht, Option.map_some, Option.elim_some]
    omega
  · rw [Option.mem_def.1 ht, Option.map_some, Option.elim_some]
    omega

/-- all boxes of the tree are sound, and fit into one -/
def FitsInto (t : Formula (Sized Float32)) (whole : Sized Float32) : Prop :=
  ∀ n ∈ t.nodes, n.datum.Sound ∧ n.datum.Fits whole

theorem FitsInto.sound {t : Formula (Sized Float32)} {whole : Sized Float32} (h : t.FitsInto whole) : t.datum.Sound :=
  (forall_nodes_iff.1 h).1.1

theorem FitsInto.trans {t : Formula (Sized Float32)} {b whole : Sized Float32} (h : t.FitsInto b) (hb : b.Fits whole) :
    t.FitsInto whole := by
  intro n hn
  obtain ⟨hsound, hfits⟩ := h n hn
  exact ⟨hsound, hfits.trans hb⟩

/-- **Boxes only grow towards the root**, and every number of them is a size -/
theorem fitsInto_root {scale : Float32} (h : IsAmount scale) (t : Formula δ) :
    (t.scaled scale).sized.FitsInto (t.scaled scale).sized.datum := by
  induction t using Formula.ind generalizing scale with
  | char d c => exact forall_nodes_char.2 ⟨Sized.glyph_sound h, Sized.Fits.refl _⟩
  | concat d l r hl hr =>
    have hscaleL := sized_datum_scale l scale
    have hscaleR := sized_datum_scale r scale
    have hdivisionsL := sized_datum_divisions (l.scaled scale)
    have hdivisionsR := sized_datum_divisions (r.scaled scale)
    refine forall_nodes_concat.2 ⟨⟨?_, Sized.Fits.refl _⟩, (hl h).trans ?_, (hr h).trans ?_⟩
    · exact Sized.beside_sound h (hl h).sound (hr h).sound hscaleL
    · exact Sized.fits_beside_left (hl h).sound (hr h).sound hscaleL (hdivisionsL ▸ Nat.le_add_right _ _)
    · exact Sized.fits_beside_right (hl h).sound (hr h).sound hscaleR (hdivisionsR ▸ Nat.le_add_left _ _)
  | fraction d n m hn hm =>
    have hscaleN := sized_datum_scale n scale
    have hscaleM := sized_datum_scale m scale
    obtain ⟨hdivisionsN, hdivisionsM⟩ := divisions_fraction_lt scale d n m
    refine forall_nodes_fraction.2 ⟨⟨?_, Sized.Fits.refl _⟩, (hn h).trans ?_, (hm h).trans ?_⟩
    · exact Sized.stacked_sound h (hn h).sound (hm h).sound hscaleN
    · exact Sized.fits_stacked_numerator h (hn h).sound (hm h).sound hscaleN hdivisionsN.le
    · exact Sized.fits_stacked_denominator h (hn h).sound (hm h).sound hscaleM hdivisionsM.le
  | scripts d b p q hb hp hq =>
    obtain ⟨hscript, hscale⟩ := h.mul_ratio Metrics.isRatio_scriptScale
    obtain ⟨hdivisionsB, hdivisions⟩ := divisions_scripts_le scale d b p q
    have hparts : ∀ o : Option (Formula δ), (∀ t ∈ o, ∀ {scale : Float32}, IsAmount scale →
        (t.scaled scale).sized.FitsInto (t.scaled scale).sized.datum) →
          ∀ s ∈ (o.map fun t => (t.scaled (scale * Metrics.scriptScale)).sized).map datum, s.Sound := by
      intro o ho s hs
      rw [Option.map_map, Option.mem_map] at hs
      obtain ⟨t, ht, rfl⟩ := hs
      exact (ho t ht hscript).sound
    have hsoundP := hparts p hp
    have hsoundQ := hparts q hq
    have hscaleB := sized_datum_scale b scale
    rw [sized_scaled_scripts]
    refine forall_nodes_scripts.2 ⟨⟨?_, Sized.Fits.refl _⟩, (hb h).trans ?_, ?_, ?_⟩
    · exact Sized.scripted_sound h (hb h).sound hsoundP hsoundQ hscaleB
    · exact Sized.fits_scripted_base (hb h).sound hsoundP hsoundQ hscaleB hdivisionsB
    · intro u hu
      obtain ⟨t, ht, rfl⟩ := Option.mem_map.1 hu
      apply (hp t ht hscript).trans
      obtain rfl := Option.mem_def.1 ht
      refine Sized.fits_scripted_superscript (hb h).sound (hp t ht hscript).sound hsoundQ ?_ (hdivisions t (Or.inl ht))
      rw [sized_datum_scale]
      exact hscale
    · intro u hu
      obtain ⟨t, ht, rfl⟩ := Option.mem_map.1 hu
      apply (hq t ht hscript).trans
      obtain rfl := Option.mem_def.1 ht
      refine Sized.fits_scripted_subscript (hb h).sound hsoundP (hq t ht hscript).sound ?_ (hdivisions t (Or.inr ht))
      rw [sized_datum_scale]
      exact hscale
  | paren d t ht =>
    have hscale := sized_datum_scale t scale
    have hdivisions := sized_datum_divisions (t.scaled scale)
    refine forall_nodes_paren.2 ⟨⟨?_, Sized.Fits.refl _⟩, (ht h).trans ?_⟩
    · exact Sized.enclosed_sound h (ht h).sound hscale
    · exact Sized.fits_enclosed h (ht h).sound hscale hdivisions.le

end Formula

end FormulaLayout
