/-
How far down texts stand in single precision.

A text stands one stretched font size below the top of its box. Parentheses are stretched by the number of fractions in
them, which is not bounded by the height of their box: fractions side by side add to the one and not to the other. So
baselines need headroom of their own. The glyph of no node is taller than one for the whole formula would be
(`glyph_le`), and where that leaves headroom every baseline is finite (`baselines_finite`).
-/
import FormulaLayout.Drawing.Painter
import FormulaLayout.Proofs.Layout.Overflow
import FormulaLayout.Proofs.Single.Whole

namespace FormulaLayout

open Single

/-! ## The stretch of parentheses -/

namespace Metrics

theorem amount_natCast_mono {n m : ℕ} (h : n ≤ m) : amount (n : Float32) ≤ amount (m : Float32) := by
  rw [(amount_natCast n).2, (amount_natCast m).2]
  exact held_mono (by exact_mod_cast h)

theorem isAmount_one : IsAmount 1.0 :=
  isAmount_of_finite isFinite_one (by rw [value_one]; norm_num)

/-- the stretch of as many fractions as there are, and one at least -/
theorem stretched_mono {n m : ℕ} (h : n ≤ m) :
    IsAmount ((n : Float32) * 2.2) ∧ IsAmount ((m : Float32) * 2.2) ∧
      amount ((n : Float32) * 2.2) ≤ amount ((m : Float32) * 2.2) :=
  (amount_natCast n).1.mul_le_mul_right (amount_natCast m).1 rfl (by decide +kernel) (amount_natCast_mono h)

theorem isAmount_stretchFactor (n : ℕ) : IsAmount (stretchFactor n) := by
  unfold stretchFactor
  split_ifs
  · exact isAmount_one
  · exact (stretched_mono le_rfl).1

/-- more fractions are not stretched less -/
theorem amount_stretchFactor_mono {n m : ℕ} (h : n ≤ m) :
    amount (stretchFactor n : Float32) ≤ amount (stretchFactor m : Float32) := by
  unfold stretchFactor
  split_ifs with hn hm hm
  · rfl
  · have hfirst : amount 1.0 ≤ amount (((1 : ℕ) : Float32) * 2.2) := by decide +kernel
    exact hfirst.trans (stretched_mono (by omega : 1 ≤ m)).2.2
  · omega
  · exact (stretched_mono h).2.2

end Metrics

/-! ## Glyphs -/

namespace Sized

/-- the height of a glyph around the box -/
def glyphHeight (b : Sized Float32) : Float32 :=
  b.scale * Metrics.stretchFactor b.divisions

/-- no glyph is taller than one around a box that holds its box -/
theorem glyph_le {b whole : Sized Float32} (hb : IsAmount b.scale) (hfits : b.Fits whole)
    (hscale : whole.scale.isFinite) (hpos : 0 < value whole.scale) (hglyph : whole.glyphHeight.isFinite) :
    IsAmount b.glyphHeight ∧ amount b.glyphHeight ≤ amount whole.glyphHeight := by
  have hstretch := Metrics.isAmount_stretchFactor b.divisions
  have hwhole := Metrics.isAmount_stretchFactor whole.divisions
  have hamount := isAmount_of_finite hscale hpos.le
  -- an infinite stretch would make an infinite glyph
  have hfinite : (Metrics.stretchFactor whole.divisions : Float32).isFinite := by
    by_contra hinfinite
    have hproduct := unpacked_mul_infinite hscale hpos (hwhole.resolve_left fun h => hinfinite h.1)
    exact not_isFinite_of_infinite hproduct hglyph
  have hmono := Metrics.amount_stretchFactor_mono hfits.divisions
  have hfiniteB := hstretch.finite_of_le hfinite hmono
  obtain ⟨hglyphB, heqB⟩ := hb.mul hstretch (hb.finite_of_le hscale hfits.scale) hfiniteB
  obtain ⟨-, heq⟩ := hamount.mul hwhole hscale hfinite
  refine ⟨hglyphB, ?_⟩
  rw [glyphHeight, glyphHeight, heqB, heq]
  exact held_mono (mul_le_mul hfits.scale hmono hstretch.nonneg hamount.nonneg)

/-- a glyph of at most one unit -/
structure SmallGlyph (b : Sized Float32) : Prop extends Small b where
  glyph : IsAmount b.glyphHeight
  glyph_le : amount b.glyphHeight ≤ 2 ^ 119

end Sized

namespace Placed

variable {k : ℕ} {p : Placed Float32}

theorem Roomy.glyphY_within (h : p.Roomy k) (hglyph : p.box.SmallGlyph) (hk : k + 1 < 512) : Within (k + 1) p.glyphY :=
  h.y.add ((hglyph.height.within_sub hglyph.glyph hglyph.height_le hglyph.glyph_le).half (by norm_num)) hk

/-- the baseline of the parentheses around a box -/
theorem Roomy.paren_baseline (h : p.Roomy k) (hglyph : p.box.SmallGlyph) (hk : k + 2 < 512) :
    (p.glyphY + p.box.glyphHeight).isFinite :=
  ((h.glyphY_within hglyph (by omega)).add (hglyph.glyph.within hglyph.glyph_le) (by omega)).finite

/-- the baseline of a single glyph -/
theorem Roomy.char_baseline (h : p.Roomy k) (hk : k + 1 < 512) : (p.origin.y + p.box.scale * 1.0).isFinite := by
  obtain ⟨hsize, hle⟩ := h.box.scale.mul_ratio ⟨isFinite_one, by rw [value_one]; norm_num, value_one.le⟩
  exact (h.y.add (hsize.within (hle.trans h.box.scale_le_unit)) hk).finite

end Placed

/-- the height at which a text stands: one stretched font size below the top of its box -/
def TextCommand.baseline (t : TextCommand Float32) : Float32 :=
  t.position.y + t.fontSize * t.stretch

namespace Formula

/-- where nodes have room for their levels and glyphs, every baseline is finite -/
theorem baselines_finite {t : Formula (Placed Float32)}
    (h : ∀ n ∈ t.nodes, n.datum.Roomy (512 - 2 * n.height) ∧ n.datum.box.SmallGlyph) :
    ∀ c ∈ t.commands, ∀ text ∈ c.text?, text.baseline.isFinite := by
  induction t using Formula.ind with
  | char p g =>
    obtain ⟨hroomy, -⟩ := forall_nodes_char.1 h
    simp only [commands, List.forall_mem_singleton, Command.text?, Option.mem_some_iff, forall_eq']
    exact hroomy.char_baseline (by simp [height])
  | concat p l r hl hr =>
    obtain ⟨-, hleft, hright⟩ := forall_nodes_concat.1 h
    rw [commands, List.forall_mem_append]
    exact ⟨hl hleft, hr hright⟩
  | fraction p n m hn hm =>
    obtain ⟨-, hnumerator, hdenominator⟩ := forall_nodes_fraction.1 h
    rw [commands, List.forall_mem_append, List.forall_mem_cons]
    exact ⟨hn hnumerator, by simp [Command.text?], hm hdenominator⟩
  | scripts p b u v hb hu hv =>
    obtain ⟨-, hbase, hsuper, hsub⟩ := forall_nodes_scripts.1 h
    have hpart : ∀ w : Option (Formula (Placed Float32)),
        (∀ t ∈ w, ∀ c ∈ t.commands, ∀ text ∈ c.text?, text.baseline.isFinite) →
          ∀ c ∈ w.elim [] commands, ∀ text ∈ c.text?, text.baseline.isFinite := by
      rintro (_ | t) ht
      · exact List.forall_mem_nil _
      · exact ht t rfl
    rw [commands_scripts, List.forall_mem_append, List.forall_mem_append]
    refine ⟨⟨hb hbase, hpart u ?_⟩, hpart v ?_⟩
    · intro t ht
      exact hu t ht (hsuper t ht)
    · intro t ht
      exact hv t ht (hsub t ht)
  | paren p t ht =>
    obtain ⟨⟨hroomy, hglyph⟩, hchild⟩ := forall_nodes_paren.1 h
    have hlevel := t.height_pos
    have hbaseline := hroomy.paren_baseline hglyph (by simp only [height]; omega)
    rw [commands, List.forall_mem_append, List.forall_mem_cons, List.forall_mem_singleton]
    simp only [Command.text?, Option.mem_some_iff, forall_eq']
    exact ⟨⟨hbaseline, ht hchild⟩, hbaseline⟩

end Formula

/-- the root has headroom, also for a glyph around the whole formula -/
structure Placed.HasGlyphRoom (p : Placed Float32) : Prop extends HasHeadroom p where
  glyph_finite : p.box.glyphHeight.isFinite
  glyph_le : value p.box.glyphHeight ≤ 2 ^ 119

/-- with headroom at the root, no baseline leaves the range -/
theorem Engine.layout_baselines_finite {engine : Engine Float32} {e : Expr} {tree : Formula (Placed Float32)}
    (h : engine.layout e = .ok tree) (hroom : tree.datum.HasGlyphRoom) :
    ∀ c ∈ tree.commands, ∀ text ∈ c.text?, text.baseline.isFinite := by
  have hroomy := layout_roomy h hroom.toHasHeadroom
  obtain ⟨hscale, -⟩ := layout_root h
  obtain ⟨hfinite, hpos⟩ := value_scale_pos h
  rw [← hscale] at hfinite hpos
  apply Formula.baselines_finite
  intro n hn
  obtain ⟨hsound, hfits⟩ := layout_fits h n hn
  obtain ⟨hglyph, hle⟩ := Sized.glyph_le hsound.scale hfits hfinite hpos hroom.glyph_finite
  rw [amount_of_finite hroom.glyph_finite] at hle
  exact ⟨hroomy n hn, (hroomy n hn).box, hglyph, hle.trans hroom.glyph_le⟩

end FormulaLayout
