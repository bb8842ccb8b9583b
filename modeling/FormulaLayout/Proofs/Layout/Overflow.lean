/-
Which numbers of a layout stay finite in single precision.

Every box fits into that of the root, so a finite root box makes every box finite. Corners go from the root down, and
nothing of the kind holds of them: a part may end below the root (`pair_leaves_range`), and each level rounds once more.
They stay finite where the root leaves headroom. A level moves a corner by at most two units, each as large as a box may
be (`placed_roomy`), and there are no more levels than an engine allows (`layout_roomy`). The main result is
`layout_finite`.
-/
import FormulaLayout.Notation.Parser
import FormulaLayout.Proofs.Formula.Levels
import FormulaLayout.Proofs.Layout.Checks
import FormulaLayout.Proofs.Layout.Growth
import FormulaLayout.Proofs.Single.Within

namespace FormulaLayout

open Single

/-! ## Corners -/

namespace Sized

/-- a sound box of at most one unit -/
structure Small (b : Sized Float32) : Prop extends Sound b where
  width_le : amount b.size.width ≤ 2 ^ 119
  height_le : amount b.size.height ≤ 2 ^ 119

namespace Small

variable {b c : Sized Float32}

theorem scale_le_unit (h : b.Small) : amount b.scale ≤ 2 ^ 119 :=
  h.scale_le.trans h.height_le

theorem within_width (h : b.Small) : Within 1 b.size.width :=
  h.width.within h.width_le

theorem within_height (h : b.Small) : Within 1 b.size.height :=
  h.height.within h.height_le

theorem within_divider (h : b.Small) : Within 1 b.divider :=
  h.divider.within (h.divider_le.trans h.height_le)

theorem within_halfGap (h : b.Small) : Within 1 (Metrics.fractionGap b.scale / 2.0) := by
  obtain ⟨hgap, hle⟩ := h.scale.mul_ratio Metrics.isRatio_gap
  obtain ⟨hhalf, hle'⟩ := hgap.half
  exact hhalf.within (hle'.trans (hle.trans h.scale_le_unit))

theorem within_padding (h : b.Small) : Within 1 (Metrics.parenPadding b.scale) := by
  obtain ⟨hpadding, hle⟩ := h.scale.mul_ratio Metrics.isRatio_padding
  exact hpadding.within (hle.trans h.scale_le_unit)

/-- the margin that centres a part -/
theorem within_margin (h : b.Small) (hc : c.Small) : Within 1 ((b.size.width - c.size.width) / 2.0) :=
  (h.width.within_sub hc.width h.width_le hc.width_le).half (by norm_num)

theorem within_superOffset {p : Option (Sized Float32)} (h : b.Small) (hp : ∀ s ∈ p, s.Small)
    (q : Option (Sized Float32)) : Within 1 (placement b p q).superOffset := by
  obtain ⟨hdrop, hle⟩ := h.height.mul_ratio Metrics.isRatio_superscriptDrop
  cases p with
  | none => exact within_zero 1
  | some s => exact (hp s rfl).height.within_sub hdrop (hp s rfl).height_le (hle.trans h.height_le)

theorem within_baseTop {p : Option (Sized Float32)} (h : b.Small) (hp : ∀ s ∈ p, s.Small)
    (q : Option (Sized Float32)) : Within 1 (placement b p q).baseTop := by
  cases p with
  | none => exact within_zero 1
  | some s => exact (h.within_superOffset hp q).larger (within_zero 1)

theorem within_subOffset (h : b.Small) (p q : Option (Sized Float32)) : Within 1 (placement b p q).subOffset :=
  (isAmount_subOffset h.toSound p q).within ((h.height.mul_ratio Metrics.isRatio_subscriptRise).2.trans h.height_le)

end Small

end Sized

/-- a small box with its corner within so many units -/
structure Placed.Roomy (k : ℕ) (p : Placed Float32) : Prop where
  box : p.box.Small
  x : Within k p.origin.x
  y : Within k p.origin.y

namespace Formula

variable {δ : Type}

theorem height_sized (t : Formula δ) (scale : Float32) : (t.scaled scale).sized.height = t.height :=
  height_eq_of_shape ((shape_sized _).trans (shape_scaled t scale))

theorem height_placed (t : Formula (Sized Float32)) (o : Point Float32) : (t.placed o).height = t.height :=
  height_eq_of_shape (shape_placed t o)

/-- the scripts of a node are small where all its boxes are -/
theorem small_scripts {p : Option (Formula (Sized Float32))} (h : ∀ t ∈ p, ∀ n ∈ t.nodes, n.datum.Small) :
    ∀ s ∈ p.map datum, s.Small := by
  intro s hs
  obtain ⟨t, ht, rfl⟩ := Option.mem_map.1 hs
  exact (forall_nodes_iff.1 (h t ht)).1

/-- all boxes are small, there are no more levels than an engine allows, and a node with its corner at the point has room
for two units for each of them -/
structure HasRoom (t : Formula (Sized Float32)) (o : Point Float32) : Prop where
  small : ∀ n ∈ t.nodes, n.datum.Small
  levels : t.height ≤ 256
  x : Within (512 - 2 * t.height) o.x
  y : Within (512 - 2 * t.height) o.y

namespace HasRoom

variable {d : Sized Float32} {t u l r n m b : Formula (Sized Float32)} {p q : Option (Formula (Sized Float32))}
  {o : Point Float32}

theorem roomy (h : t.HasRoom o) : (t.placed o).datum.Roomy (512 - 2 * (t.placed o).height) := by
  rw [placed_datum, height_placed]
  exact ⟨(forall_nodes_iff.1 h.small).1, h.x, h.y⟩

/-- a part may be moved by the two units of one level -/
theorem part (h : t.HasRoom o) {j k : ℕ} {x y : Float32} (hsmall : ∀ n ∈ u.nodes, n.datum.Small)
    (hlevel : u.height < t.height) (hx : Within j x) (hy : Within k y) (hj : j ≤ 512 - 2 * t.height + 2)
    (hk : k ≤ 512 - 2 * t.height + 2) : u.HasRoom ⟨x, y⟩ := by
  have hlevels := h.levels
  exact ⟨hsmall, by omega, hx.mono (by omega), hy.mono (by omega)⟩

theorem concat_left (h : (concat d l r).HasRoom o) : l.HasRoom ⟨o.x, o.y + d.divider - l.datum.divider⟩ := by
  obtain ⟨hsmall, hpart, -⟩ := forall_nodes_concat.1 h.small
  have hlevel : l.height < (concat d l r).height := by simp only [height]; omega
  have hpos := height_pos l
  have hline := h.y.add hsmall.within_divider (by omega)
  have hy := hline.sub (forall_nodes_iff.1 hpart).1.within_divider (by omega)
  exact h.part hpart hlevel h.x hy (by omega) (by omega)

theorem concat_right (h : (concat d l r).HasRoom o) :
    r.HasRoom ⟨o.x + l.datum.size.width, o.y + d.divider - r.datum.divider⟩ := by
  obtain ⟨hsmall, hneighbour, hpart⟩ := forall_nodes_concat.1 h.small
  have hlevel : r.height < (concat d l r).height := by simp only [height]; omega
  have hpos := height_pos r
  have hx := h.x.add (forall_nodes_iff.1 hneighbour).1.within_width (by omega)
  have hline := h.y.add hsmall.within_divider (by omega)
  have hy := hline.sub (forall_nodes_iff.1 hpart).1.within_divider (by omega)
  exact h.part hpart hlevel hx hy (by omega) (by omega)

theorem numerator (h : (fraction d n m).HasRoom o) :
    n.HasRoom ⟨o.x + (d.size.width - n.datum.size.width) / 2.0, o.y⟩ := by
  obtain ⟨hsmall, hpart, -⟩ := forall_nodes_fraction.1 h.small
  have hlevel : n.height < (fraction d n m).height := by simp only [height]; omega
  have hpos := height_pos n
  have hx := h.x.add (hsmall.within_margin (forall_nodes_iff.1 hpart).1) (by omega)
  exact h.part hpart hlevel hx h.y (by omega) (by omega)

theorem denominator (h : (fraction d n m).HasRoom o) :
    m.HasRoom ⟨o.x + (d.size.width - m.datum.size.width) / 2.0,
      o.y + d.divider + Metrics.fractionGap d.scale / 2.0⟩ := by
  obtain ⟨hsmall, -, hpart⟩ := forall_nodes_fraction.1 h.small
  have hlevel : m.height < (fraction d n m).height := by simp only [height]; omega
  have hpos := height_pos m
  have hx := h.x.add (hsmall.within_margin (forall_nodes_iff.1 hpart).1) (by omega)
  have hline := h.y.add hsmall.within_divider (by omega)
  have hy := hline.add hsmall.within_halfGap (by omega)
  exact h.part hpart hlevel hx hy (by omega) (by omega)

theorem base (h : (scripts d b p q).HasRoom o) :
    b.HasRoom ⟨o.x, o.y + (Sized.placement b.datum (p.map datum) (q.map datum)).baseTop⟩ := by
  obtain ⟨-, hpart, hsuper, -⟩ := forall_nodes_scripts.1 h.small
  have hlevel : b.height < (scripts d b p q).height := by rw [height_scripts]; omega
  have hpos := height_pos b
  have htop := h.y.add ((forall_nodes_iff.1 hpart).1.within_baseTop (small_scripts hsuper) (q.map datum)) (by omega)
  exact h.part hpart hlevel h.x htop (by omega) (by omega)

theorem superscript (h : (scripts d b (some t) q).HasRoom o) :
    let a := Sized.placement b.datum (some t.datum) (q.map datum)
    t.HasRoom ⟨o.x + b.datum.size.width, o.y + a.baseTop - a.superOffset⟩ := by
  obtain ⟨-, hsmall, hsuper, -⟩ := forall_nodes_scripts.1 h.small
  have hbase := (forall_nodes_iff.1 hsmall).1
  have hlevel : t.height < (scripts d b (some t) q).height := by rw [height_scripts, Option.elim_some]; omega
  have hpos := height_pos t
  have hx := h.x.add hbase.within_width (by omega)
  have htop := h.y.add (hbase.within_baseTop (small_scripts hsuper) (q.map datum)) (by omega)
  have hy := htop.sub (hbase.within_superOffset (small_scripts hsuper) (q.map datum)) (by omega)
  exact h.part (hsuper t rfl) hlevel hx hy (by omega) (by omega)

theorem subscript (h : (scripts d b p (some t)).HasRoom o) :
    let a := Sized.placement b.datum (p.map datum) (some t.datum)
    t.HasRoom ⟨o.x + b.datum.size.width, o.y + a.baseTop + a.subOffset⟩ := by
  obtain ⟨-, hsmall, hsuper, hsub⟩ := forall_nodes_scripts.1 h.small
  have hbase := (forall_nodes_iff.1 hsmall).1
  have hlevel : t.height < (scripts d b p (some t)).height := by rw [height_scripts, Option.elim_some]; omega
  have hpos := height_pos t
  have hx := h.x.add hbase.within_width (by omega)
  have htop := h.y.add (hbase.within_baseTop (small_scripts hsuper) (some t.datum)) (by omega)
  have hy := htop.add (hbase.within_subOffset (p.map datum) (some t.datum)) (by omega)
  exact h.part (hsub t rfl) hlevel hx hy (by omega) (by omega)

theorem inside (h : (paren d t).HasRoom o) : t.HasRoom ⟨o.x + Metrics.parenPadding d.scale, o.y⟩ := by
  obtain ⟨hsmall, hpart⟩ := forall_nodes_paren.1 h.small
  have hlevel : t.height < (paren d t).height := by simp only [height]; omega
  have hpos := height_pos t
  exact h.part hpart hlevel (h.x.add hsmall.within_padding (by omega)) h.y (by omega) (by omega)

end HasRoom

/-- **A level takes two units.** Where a formula has room, every node of it has room for the levels below it. -/
theorem placed_roomy {t : Formula (Sized Float32)} {o : Point Float32} (h : t.HasRoom o) :
    ∀ n ∈ (t.placed o).nodes, n.datum.Roomy (512 - 2 * n.height) := by
  induction t using Formula.ind generalizing o with
  | char d c => exact forall_nodes_char.2 h.roomy
  | concat d l r hl hr => exact forall_nodes_concat.2 ⟨h.roomy, hl h.concat_left, hr h.concat_right⟩
  | fraction d n m hn hm => exact forall_nodes_fraction.2 ⟨h.roomy, hn h.numerator, hm h.denominator⟩
  | scripts d b p q hb hp hq =>
    have hroot := h.roomy
    rw [placed_scripts] at hroot ⊢
    refine forall_nodes_scripts.2 ⟨hroot, hb h.base, ?_, ?_⟩
    · intro u hu
      obtain ⟨t, ht, rfl⟩ := Option.mem_map.1 hu
      obtain rfl := Option.mem_def.1 ht
      exact hp t ht h.superscript
    · intro u hu
      obtain ⟨t, ht, rfl⟩ := Option.mem_map.1 hu
      obtain rfl := Option.mem_def.1 ht
      exact hq t ht h.subscript
  | paren d t ht => exact forall_nodes_paren.2 ⟨h.roomy, ht h.inside⟩

/-- a property of all boxes does not depend on where they are placed -/
theorem forall_boxes_placed {P : Sized Float32 → Prop} (t : Formula (Sized Float32)) (o : Point Float32) :
    (∀ n ∈ (t.placed o).nodes, P n.datum.box) ↔ ∀ n ∈ t.nodes, P n.datum := by
  induction t using Formula.ind generalizing o with
  | char d c =>
    rw [placed, forall_nodes_char, forall_nodes_char]
    rfl
  | concat d l r hl hr =>
    rw [placed, forall_nodes_concat, forall_nodes_concat, hl, hr]
    rfl
  | fraction d n m hn hm =>
    rw [placed, forall_nodes_fraction, forall_nodes_fraction, hn, hm]
    rfl
  | scripts d b p q hb hp hq =>
    have hpart : ∀ u : Option (Formula (Sized Float32)),
        (∀ t ∈ u, ∀ o, (∀ n ∈ (t.placed o).nodes, P n.datum.box) ↔ ∀ n ∈ t.nodes, P n.datum) → ∀ o,
          (∀ t ∈ u.map (placed o), ∀ n ∈ t.nodes, P n.datum.box) ↔ ∀ t ∈ u, ∀ n ∈ t.nodes, P n.datum := by
      rintro (_ | t) ht o
      · simp
      · simpa using ht t rfl o
    rw [placed_scripts, forall_nodes_scripts, forall_nodes_scripts, hb, hpart p hp, hpart q hq]
    rfl
  | paren d t ht =>
    rw [placed, forall_nodes_paren, forall_nodes_paren, ht]
    rfl

end Formula

/-! ## Engines -/

/-- the numbers of the box are finite -/
def Sized.isFinite (b : Sized Float32) : Bool :=
  b.scale.isFinite && b.size.width.isFinite && b.size.height.isFinite && b.divider.isFinite

/-- the two corners of the box are finite -/
def Placed.hasFiniteCorners (p : Placed Float32) : Bool :=
  p.origin.isFinite && p.bounds.right.isFinite && p.bounds.bottom.isFinite

/-- the corner of the box is within half of the range, and the box is smaller than that by the greatest depth, twice -/
structure Placed.HasHeadroom (p : Placed Float32) : Prop where
  x : |value p.origin.x| ≤ 2 ^ 127
  y : |value p.origin.y| ≤ 2 ^ 127
  width : value p.box.size.width ≤ 2 ^ 119
  height : value p.box.size.height ≤ 2 ^ 119

/-- a sound box that fits into a finite one is finite -/
theorem Sized.Sound.isFinite_of_fits {b whole : Sized Float32} (h : b.Sound) (hfits : b.Fits whole)
    (hscale : whole.scale.isFinite) (hwidth : whole.size.width.isFinite) (hheight : whole.size.height.isFinite) :
    b.isFinite := by
  have hb := h.height.finite_of_le hheight hfits.height
  simp only [Sized.isFinite, Bool.and_eq_true]
  exact ⟨⟨⟨h.scale.finite_of_le hscale hfits.scale, h.width.finite_of_le hwidth hfits.width⟩, hb⟩,
    h.divider.finite_of_le hb h.divider_le⟩

theorem Placed.Roomy.hasFiniteCorners {k : ℕ} {p : Placed Float32} (h : p.Roomy k) (hk : k < 511) :
    p.hasFiniteCorners := by
  simp only [Placed.hasFiniteCorners, Point.isFinite, Bool.and_eq_true]
  exact ⟨⟨⟨h.x.finite, h.y.finite⟩, (h.x.add h.box.within_width (by omega)).finite⟩,
    (h.y.add h.box.within_height (by omega)).finite⟩

namespace Engine

variable {engine : Engine Float32} {e : Expr} {tree : Formula (Placed Float32)}

/-- the scale of an engine that succeeds is a positive number -/
theorem value_scale_pos (h : engine.layout e = .ok tree) : engine.scale.isFinite ∧ 0 < value engine.scale := by
  obtain ⟨hvalidate, -⟩ := layout_eq_ok_iff.1 h
  obtain ⟨hfinite, hpos, -⟩ := validate_eq_ok_iff.1 hvalidate
  have hzero := le_iff_value hfinite isFinite_zero
  rw [value_zero] at hzero
  exact ⟨hfinite, not_le.1 (hzero.not.1 hpos)⟩

/-- in a layout that succeeds, every box is sound and fits into that of the root -/
theorem layout_fits (h : engine.layout e = .ok tree) :
    ∀ n ∈ tree.nodes, n.datum.box.Sound ∧ n.datum.box.Fits tree.datum.box := by
  obtain ⟨hfinite, hpos⟩ := value_scale_pos h
  have hfits := Formula.fitsInto_root (isAmount_of_finite hfinite hpos.le) e
  obtain rfl := eq_laidOut_of_layout h
  rw [Formula.laidOut, Formula.placed_datum]
  exact (Formula.forall_boxes_placed (P := fun b => b.Sound ∧ b.Fits _) _ _).2 hfits

/-- the root of a layout that succeeds has the scale of the engine, and a finite box -/
theorem layout_root (h : engine.layout e = .ok tree) :
    tree.datum.box.scale = engine.scale ∧ tree.datum.box.size.width.isFinite ∧ tree.datum.box.size.height.isFinite ∧
      tree.datum.origin.x.isFinite ∧ tree.datum.origin.y.isFinite := by
  have hscale := Formula.sized_datum_scale e engine.scale
  obtain ⟨hvalidate, -, hbox, -, rfl⟩ := layout_eq_ok_iff.1 h
  obtain ⟨-, -, horigin⟩ := validate_eq_ok_iff.1 hvalidate
  obtain ⟨⟨hwidth, hheight, -⟩, -⟩ := checkBox_eq_ok_iff.1 hbox
  rw [Point.isFinite, Bool.and_eq_true] at horigin
  rw [Formula.laidOut, Formula.placed_datum]
  exact ⟨hscale, hwidth, hheight, horigin.1, horigin.2⟩

/-- in a layout that succeeds and has headroom at its root, every node has room for the levels below it -/
theorem layout_roomy (h : engine.layout e = .ok tree) (hroom : tree.datum.HasHeadroom) :
    ∀ n ∈ tree.nodes, n.datum.Roomy (512 - 2 * n.height) := by
  obtain ⟨-, hwidth, hheight, hx, hy⟩ := layout_root h
  have hsmall : ∀ n ∈ tree.nodes, n.datum.box.Small := by
    intro n hn
    obtain ⟨hsound, hfits⟩ := layout_fits h n hn
    refine ⟨hsound, hfits.width.trans ?_, hfits.height.trans ?_⟩
    · rw [amount_of_finite hwidth]
      exact hroom.width
    · rw [amount_of_finite hheight]
      exact hroom.height
  have hcorner : ∀ {x : Float32}, x.isFinite → |value x| ≤ 2 ^ 127 → Within 256 x := by
    intro x hfinite hbound
    exact ⟨hfinite, hbound.trans_eq (by norm_num)⟩
  have hcornerX := hcorner hx hroom.x
  have hcornerY := hcorner hy hroom.y
  have hlevels := Formula.height_sized e engine.scale
  obtain ⟨-, hdepth, -, -, rfl⟩ := layout_eq_ok_iff.1 h
  rw [Formula.depth_eq_height, Formula.maxDepth] at hdepth
  rw [Formula.laidOut, Formula.placed_datum] at hcornerX hcornerY
  exact Formula.placed_roomy ⟨(Formula.forall_boxes_placed _ _).1 hsmall, by omega, hcornerX.mono (by omega),
    hcornerY.mono (by omega)⟩

/-- **A finite root makes every box finite**, and every corner too if the root leaves headroom: its corner stays within
half of the range, and its box is smaller than that by twice the greatest depth. -/
theorem layout_finite (h : engine.layout e = .ok tree) :
    (∀ n ∈ tree.nodes, n.datum.box.isFinite) ∧
      (tree.datum.HasHeadroom → ∀ n ∈ tree.nodes, n.datum.hasFiniteCorners) := by
  constructor
  · intro n hn
    obtain ⟨hsound, hfits⟩ := layout_fits h n hn
    obtain ⟨hscale, hwidth, hheight, -⟩ := layout_root h
    refine hsound.isFinite_of_fits hfits ?_ hwidth hheight
    rw [hscale]
    exact (value_scale_pos h).1
  · intro hroom n hn
    have hlevel := n.height_pos
    exact (layout_roomy h hroom n hn).hasFiniteCorners (by omega)

/-- without headroom rounding alone is enough: a pair ends at the last number of the range, its right part behind it -/
example :
    let pair := (Formula.adjoin (.character 'a') (.character 'b')).laidOut (1.4178429588757982e38 : Float32)
      ⟨1.7014118346046923e38, 0.0⟩
    pair.datum.bounds.right.isFinite ∧ ¬ ∀ n ∈ pair.nodes, n.datum.bounds.right.isFinite := by
  decide +kernel

/-- a pair near the corner of the range, with a shifted part -/
theorem pair_stays_in_range : ∃ e tree, Notation.parse "a_bc^d" = .ok e ∧
    (Engine.mk 1e35 ⟨-1.5e38, 1.5e38⟩ : Engine Float32).layout e = .ok tree ∧
      (∀ n ∈ tree.nodes, n.datum.box.isFinite) ∧ ∀ n ∈ tree.nodes, n.datum.hasFiniteCorners := by
  have hlayout : ∃ e tree, Notation.parse "a_bc^d" = .ok e ∧
      (Engine.mk 1e35 ⟨-1.5e38, 1.5e38⟩ : Engine Float32).layout e = .ok tree ∧ tree.datum.HasHeadroom := by
    refine ⟨_, _, rfl, layout_eq_ok_iff.2 ⟨validate_eq_ok_iff.2 ?_, ?_, checkBox_eq_ok_iff.2 ?_,
      checkBounds_eq_ok_iff.2 ?_, rfl⟩, ⟨?_, ?_, ?_, ?_⟩⟩
    all_goals decide +kernel
  obtain ⟨e, tree, hparse, htree, hroom⟩ := hlayout
  obtain ⟨hboxes, hcorners⟩ := layout_finite htree
  exact ⟨e, tree, hparse, htree, hboxes, hcorners hroom⟩

/-- **The far corner of the root does not speak for the others**: a base with a subscript is shifted down beside one
with a superscript, and ends beyond the range although the root ends within it -/
theorem pair_leaves_range : ∃ e tree, Notation.parse "a_bc^d" = .ok e ∧
    (Engine.mk 1e38 ⟨0.0, 1.9e38⟩ : Engine Float32).layout e = .ok tree ∧
      ∃ n ∈ tree.nodes, n.datum.bounds.bottom.isFinite = false := by
  refine ⟨_, _, rfl, layout_eq_ok_iff.2 ⟨validate_eq_ok_iff.2 ?_, ?_, checkBox_eq_ok_iff.2 ?_,
    checkBounds_eq_ok_iff.2 ?_, rfl⟩, ?_⟩
  all_goals decide +kernel

end Engine

end FormulaLayout
