/-
The passes over the rational numbers.

The same text that runs over single precision is read here without rounding: `larger` is the maximum, and the
proportions are the ratios they are written as.

- `Built`: the sized trees that the first two passes make, box by box from the leaves up, at positive scales
  (`boxed_built`). What follows about boxes is by induction over it.
- `Built.proper`: every box has a positive width and height, and its alignment line lies strictly inside.
- `ScriptPlacement.Arranged`: how the heights of a base and its scripts fit together.
-/
import Mathlib.Tactic
import FormulaLayout.Layout.Placed

namespace FormulaLayout

/-- exact arithmetic; every number is finite -/
instance : Scalar ℚ where
  decLe := inferInstance
  decLt := inferInstance
  isFinite _ := true

/-! ## Numbers -/

theorem larger_eq_max (a b : ℚ) : Scalar.larger a b = max a b := by
  unfold Scalar.larger
  split_ifs with h
  · simp at h; exact (max_eq_right h).symm
  · simp at h; exact (max_eq_left h.le).symm

theorem zero_literal : (0.0 : ℚ) = 0 := by norm_num

theorem one_literal : (1.0 : ℚ) = 1 := by norm_num

theorem two_literal : (2.0 : ℚ) = 2 := by norm_num

namespace Metrics

theorem glyphWidth_eq : (glyphWidth : ℚ) = 3 / 5 := by norm_num [glyphWidth]

theorem glyphAlignment_eq : (glyphAlignment : ℚ) = 18 / 25 := by norm_num [glyphAlignment]

theorem scriptScale_eq : (scriptScale : ℚ) = 7 / 10 := by norm_num [scriptScale]

theorem superscriptDrop_eq : (superscriptDrop : ℚ) = 2 / 5 := by norm_num [superscriptDrop]

theorem subscriptRise_eq : (subscriptRise : ℚ) = 7 / 10 := by norm_num [subscriptRise]

theorem fractionGap_pos {scale : ℚ} (h : 0 < scale) : 0 < fractionGap scale :=
  mul_pos h (by norm_num)

theorem parenPadding_pos {scale : ℚ} (h : 0 < scale) : 0 < parenPadding scale :=
  mul_pos h (by norm_num)

end Metrics

/-! ## Scripts around a base -/

namespace ScriptPlacement

/-- how the heights of an arrangement fit the sizes in it -/
structure Arranged (a : ScriptPlacement ℚ) (base : Size ℚ) (superscript subscript : Option (Size ℚ)) : Prop where
  baseTop_nonneg : 0 ≤ a.baseTop
  base_le : a.baseTop + base.height ≤ a.height
  superscript_nonneg : ∀ s ∈ superscript, 0 ≤ a.baseTop - a.superOffset
  superscript_bottom : ∀ s ∈ superscript, a.baseTop - a.superOffset + s.height = a.baseTop + base.height * (2 / 5)
  subscript_top : a.subOffset = base.height * (7 / 10)
  subscript_le : ∀ s ∈ subscript, a.baseTop + a.subOffset + s.height ≤ a.height

/-- a superscript lifts by its offset, unless that is negative -/
theorem baseTop_of_superscript (base p : Size ℚ) (subscript : Option (Size ℚ)) :
    (ofSizes base (some p) subscript).baseTop = max (ofSizes base (some p) subscript).superOffset 0 := by
  rw [← zero_literal, ← larger_eq_max]; rfl

/-- with a subscript, the lower of two ends -/
theorem height_of_subscript (base : Size ℚ) (superscript : Option (Size ℚ)) (q : Size ℚ) :
    let a := ofSizes base superscript (some q)
    a.height = max (a.baseTop + base.height) (a.baseTop + a.subOffset + q.height) :=
  larger_eq_max _ _

theorem ofSizes_arranged (base : Size ℚ) (superscript subscript : Option (Size ℚ)) :
    (ofSizes base superscript subscript).Arranged base superscript subscript := by
  have hsub : base.height * (Metrics.subscriptRise : ℚ) = base.height * (7 / 10) :=
    congrArg _ Metrics.subscriptRise_eq
  cases superscript with
  | none =>
    cases subscript with
    | none =>
      refine ⟨?_, ?_, nofun, nofun, hsub, nofun⟩
      · simp [ofSizes, zero_literal]
      · simp [ofSizes]
    | some q =>
      refine ⟨?_, ?_, nofun, nofun, hsub, fun s hs => ?_⟩
      · simp [ofSizes, zero_literal]
      · rw [height_of_subscript]; exact le_max_left _ _
      · cases hs; rw [height_of_subscript]; exact le_max_right _ _
  | some p =>
    have hsup : (ofSizes base (some p) subscript).superOffset = p.height - base.height * (2 / 5) :=
      congrArg (fun x => p.height - base.height * x) Metrics.superscriptDrop_eq
    have htop := baseTop_of_superscript base p subscript
    refine ⟨?_, ?_, fun s hs => ?_, fun s hs => ?_, hsub, fun s hs => ?_⟩
    · rw [htop]; exact le_max_right _ _
    · cases subscript with
      | none => exact le_rfl
      | some q => rw [height_of_subscript]; exact le_max_left _ _
    · rw [htop]; exact sub_nonneg.2 (le_max_left _ _)
    · cases hs; rw [hsup]; ring
    · cases hs; rw [height_of_subscript]; exact le_max_right _ _

end ScriptPlacement

/-! ## Boxes -/

namespace Sized

/-- a box with an inside, and an alignment line inside it -/
structure Proper (b : Sized ℚ) : Prop where
  width_pos : 0 < b.size.width
  height_pos : 0 < b.size.height
  divider_pos : 0 < b.divider
  divider_lt : b.divider < b.size.height

/-- the width of the wider script -/
def scriptWidth (p q : Option (Sized ℚ)) : ℚ :=
  max (p.elim 0 (·.size.width)) (q.elim 0 (·.size.width))

variable (d : Scaled ℚ)

theorem glyph_width : (glyph d).size.width = d.scale * (3 / 5) := congrArg _ Metrics.glyphWidth_eq

theorem glyph_height : (glyph d).size.height = d.scale := rfl

theorem glyph_divider : (glyph d).divider = d.scale * (18 / 25) := congrArg _ Metrics.glyphAlignment_eq

theorem beside_width (l r : Sized ℚ) : (beside d l r).size.width = l.size.width + r.size.width := rfl

theorem beside_height (l r : Sized ℚ) : (beside d l r).size.height = max l.size.height r.size.height :=
  larger_eq_max _ _

theorem beside_divider (l r : Sized ℚ) : (beside d l r).divider = max l.divider r.divider :=
  larger_eq_max _ _

@[simp]
theorem stacked_scale (n m : Sized ℚ) : (stacked d n m).scale = d.scale := rfl

theorem stacked_width (n m : Sized ℚ) : (stacked d n m).size.width = max n.size.width m.size.width :=
  larger_eq_max _ _

theorem stacked_height (n m : Sized ℚ) :
    (stacked d n m).size.height = n.size.height + m.size.height + Metrics.fractionGap d.scale := rfl

theorem stacked_divider (n m : Sized ℚ) :
    (stacked d n m).divider = n.size.height + Metrics.fractionGap d.scale / 2 := by
  rw [← two_literal]; rfl

theorem scripted_width (b : Sized ℚ) (p q : Option (Sized ℚ)) :
    (scripted d b p q).size.width = b.size.width + scriptWidth p q := by
  rw [scriptWidth, ← zero_literal, ← larger_eq_max]; rfl

theorem scripted_height (b : Sized ℚ) (p q : Option (Sized ℚ)) :
    (scripted d b p q).size.height = (placement b p q).height := rfl

theorem scripted_divider (b : Sized ℚ) (p q : Option (Sized ℚ)) :
    (scripted d b p q).divider = b.divider + (placement b p q).baseTop := rfl

@[simp]
theorem enclosed_scale (t : Sized ℚ) : (enclosed d t).scale = d.scale := rfl

theorem enclosed_width (t : Sized ℚ) :
    (enclosed d t).size.width = t.size.width + 2 * Metrics.parenPadding d.scale := by
  rw [← two_literal]; rfl

theorem enclosed_height (t : Sized ℚ) : (enclosed d t).size.height = t.size.height := rfl

/-- scripts add no negative width -/
theorem scriptWidth_nonneg {p : Option (Sized ℚ)} (hp : ∀ s ∈ p, Proper s) (q : Option (Sized ℚ)) :
    0 ≤ scriptWidth p q := by
  refine le_max_of_le_left ?_
  cases p with
  | none => exact le_rfl
  | some p => exact (hp p rfl).width_pos.le

theorem le_scriptWidth_left {p q : Option (Sized ℚ)} : ∀ s ∈ p, s.size.width ≤ scriptWidth p q := by
  rintro s ⟨⟩
  exact le_max_left _ _

theorem le_scriptWidth_right {p q : Option (Sized ℚ)} : ∀ s ∈ q, s.size.width ≤ scriptWidth p q := by
  rintro s ⟨⟩
  exact le_max_right _ _

theorem placement_arranged (b : Sized ℚ) (p q : Option (Sized ℚ)) :
    (placement b p q).Arranged b.size (p.map size) (q.map size) :=
  ScriptPlacement.ofSizes_arranged _ _ _

variable {d}

theorem glyph_proper (hd : 0 < d.scale) : (glyph d).Proper where
  width_pos := by rw [glyph_width]; linarith
  height_pos := hd
  divider_pos := by rw [glyph_divider]; linarith
  divider_lt := by rw [glyph_divider, glyph_height]; linarith

theorem Proper.beside {l r : Sized ℚ} (hl : l.Proper) (hr : r.Proper) : (beside d l r).Proper where
  width_pos := add_pos hl.width_pos hr.width_pos
  height_pos := by rw [beside_height]; exact lt_max_of_lt_left hl.height_pos
  divider_pos := by rw [beside_divider]; exact lt_max_of_lt_left hl.divider_pos
  divider_lt := by rw [beside_divider, beside_height]; exact max_lt_max hl.divider_lt hr.divider_lt

theorem Proper.stacked {n m : Sized ℚ} (hd : 0 < d.scale) (hn : n.Proper) (hm : m.Proper) :
    (stacked d n m).Proper where
  width_pos := by rw [stacked_width]; exact lt_max_of_lt_left hn.width_pos
  height_pos := add_pos (add_pos hn.height_pos hm.height_pos) (Metrics.fractionGap_pos hd)
  divider_pos := by
    have := Metrics.fractionGap_pos hd
    rw [stacked_divider]; linarith [hn.height_pos]
  divider_lt := by
    have := Metrics.fractionGap_pos hd
    rw [stacked_divider, stacked_height]; linarith [hm.height_pos]

theorem Proper.scripted {b : Sized ℚ} {p : Option (Sized ℚ)} (hb : b.Proper) (hp : ∀ s ∈ p, Proper s)
    (q : Option (Sized ℚ)) : (scripted d b p q).Proper := by
  have ha := placement_arranged b p q
  refine ⟨?_, ?_, ?_, ?_⟩
  · rw [scripted_width]; linarith [hb.width_pos, scriptWidth_nonneg hp q]
  · rw [scripted_height]; linarith [hb.height_pos, ha.baseTop_nonneg, ha.base_le]
  · rw [scripted_divider]; linarith [hb.divider_pos, ha.baseTop_nonneg]
  · rw [scripted_divider, scripted_height]; linarith [hb.divider_lt, ha.base_le]

theorem Proper.enclosed {t : Sized ℚ} (hd : 0 < d.scale) (ht : t.Proper) : (enclosed d t).Proper where
  width_pos := by rw [enclosed_width]; linarith [ht.width_pos, Metrics.parenPadding_pos hd]
  height_pos := ht.height_pos
  divider_pos := ht.divider_pos
  divider_lt := ht.divider_lt

end Sized

/-! ## Trees that the passes make -/

namespace Formula

variable {δ : Type}

/-- the first two passes -/
def boxed (scale : ℚ) (t : Formula δ) : Formula (Sized ℚ) :=
  (t.scaled scale).sized

theorem sized_scaled_scripts {α : Type} [Scalar α] (scale : α) (d : δ) (b : Formula δ) (p q : Option (Formula δ)) :
    (scaled scale (.scripts d b p q)).sized =
      let superscript := p.map fun t => (t.scaled (scale * Metrics.scriptScale)).sized
      let subscript := q.map fun t => (t.scaled (scale * Metrics.scriptScale)).sized
      .scripts
        (.scripted ⟨scale, (scaled scale (.scripts d b p q)).datum.divisions⟩ (b.scaled scale).sized.datum
          (superscript.map datum) (subscript.map datum))
        (b.scaled scale).sized superscript subscript := by
  cases p <;> cases q <;> rfl

theorem boxed_scripts (scale : ℚ) (d : δ) (b : Formula δ) (p q : Option (Formula δ)) :
    boxed scale (.scripts d b p q) =
      let superscript := p.map (boxed (scale * Metrics.scriptScale))
      let subscript := q.map (boxed (scale * Metrics.scriptScale))
      .scripts
        (.scripted ⟨scale, (scaled scale (.scripts d b p q)).datum.divisions⟩ (b.boxed scale).datum
          (superscript.map datum) (subscript.map datum))
        (b.boxed scale) superscript subscript :=
  sized_scaled_scripts scale d b p q

/-- a sized tree in which every box is computed from those of its parts, at a positive scale -/
inductive Built : Formula (Sized ℚ) → Prop
  | char {d : Scaled ℚ} {c : Char} (hd : 0 < d.scale) : Built (.char (.glyph d) c)
  | concat {d : Scaled ℚ} {l r : Formula (Sized ℚ)} (hd : 0 < d.scale) (hl : Built l) (hr : Built r) :
    Built (.concat (.beside d l.datum r.datum) l r)
  | fraction {d : Scaled ℚ} {n m : Formula (Sized ℚ)} (hd : 0 < d.scale) (hn : Built n) (hm : Built m) :
    Built (.fraction (.stacked d n.datum m.datum) n m)
  | scripts {d : Scaled ℚ} {b : Formula (Sized ℚ)} {p q : Option (Formula (Sized ℚ))} (hd : 0 < d.scale) (hb : Built b)
    (hp : ∀ t ∈ p, Built t) (hq : ∀ t ∈ q, Built t) :
    Built (.scripts (.scripted d b.datum (p.map datum) (q.map datum)) b p q)
  | paren {d : Scaled ℚ} {t : Formula (Sized ℚ)} (hd : 0 < d.scale) (ht : Built t) :
    Built (.paren (.enclosed d t.datum) t)

/-- the first two passes build their tree box by box -/
theorem boxed_built {scale : ℚ} (h : 0 < scale) (t : Formula δ) : (t.boxed scale).Built := by
  induction t using Formula.ind generalizing scale with
  | char d c => exact .char h
  | concat d l r hl hr => exact .concat (d := ⟨scale, _⟩) h (hl h) (hr h)
  | fraction d n m hn hm => exact .fraction (d := ⟨scale, _⟩) h (hn h) (hm h)
  | scripts d b p q hb hp hq =>
    have hscript : 0 < scale * Metrics.scriptScale := by rw [Metrics.scriptScale_eq]; linarith
    have hmap : ∀ o : Option (Formula δ), (∀ t ∈ o, ∀ {scale : ℚ}, 0 < scale → (t.boxed scale).Built) →
        ∀ t ∈ o.map (boxed (scale * Metrics.scriptScale)), t.Built := by
      rintro (_ | u) hu t ht
      · exact absurd ht nofun
      · cases ht; exact hu u rfl hscript
    rw [boxed_scripts]
    exact .scripts h (hb h) (hmap p hp) (hmap q hq)
  | paren d t ht => exact .paren (d := ⟨scale, _⟩) h (ht h)

/-- every box that is built has an inside, and its alignment line lies in it -/
theorem Built.proper {t : Formula (Sized ℚ)} (h : t.Built) : t.datum.Proper := by
  induction h with
  | char hd => exact Sized.glyph_proper hd
  | concat hd hl hr ihl ihr => exact ihl.beside ihr
  | fraction hd hn hm ihn ihm => exact ihn.stacked hd ihm
  | @scripts d b p q hd hb hp hq ihb ihp ihq =>
    refine ihb.scripted ?_ _
    intro s hs
    obtain ⟨t, ht, rfl⟩ := Option.mem_map.1 hs
    exact ihp t ht
  | paren hd ht ih => exact ih.enclosed hd

/-- scripts that are built add no negative width -/
theorem scriptWidth_datum_nonneg {p : Option (Formula (Sized ℚ))} (hp : ∀ t ∈ p, t.Built) (q : Option (Sized ℚ)) :
    0 ≤ Sized.scriptWidth (p.map datum) q := by
  apply Sized.scriptWidth_nonneg
  intro s hs
  obtain ⟨t, ht, rfl⟩ := Option.mem_map.1 hs
  exact (hp t ht).proper

end Formula

end FormulaLayout
