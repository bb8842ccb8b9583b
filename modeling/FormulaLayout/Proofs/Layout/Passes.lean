/-
What the passes keep of a formula, and what they compute for each place in it.

None of the passes changes the shape or the glyphs of a formula, so none changes its notation, its levels or its nodes
(`shape_laidOut`). A part of a node is laid out as a formula of its own, at the scale that it inherits: that of the
node, times the ratio of scripts if the part is a script (`part?_laidOut`). So the scale at the end of a path is that of
the root after one multiplication for each edge to a script on the way (`at?_laidOut`). The number of fractions does not
depend on the scale; it is that of the formula which was at the place before.

- `passes_keep_tree`: all of this for a formula in single precision, at any scale and any corner.

None of it depends on how numbers round, so the lemmas are about any scalars.
-/
import FormulaLayout.Layout.Placed
import FormulaLayout.Proofs.Formula.Paths
import FormulaLayout.Proofs.Formula.Shape

namespace FormulaLayout.Formula

variable {α δ : Type} [Scalar α]

/-! ## The data at the root -/

/-- the first pass counts the fractions -/
theorem scaled_datum_divisions (t : Formula δ) (scale : α) :
    (t.scaled scale).datum.divisions = t.countDivisions := by
  induction t using Formula.ind generalizing scale with
  | char d c => rfl
  | concat d l r hl hr => rw [countDivisions, ← hl scale, ← hr scale]; rfl
  | fraction d n m hn hm => rw [countDivisions, ← hn scale, ← hm scale]; rfl
  | scripts d b p s hb hp hs =>
    have hslot : ∀ o : Option (Formula δ), (∀ t ∈ o, ∀ scale : α, (t.scaled scale).datum.divisions = t.countDivisions) →
        (o.map (scaled (scale * Metrics.scriptScale))).elim 0 (·.datum.divisions) = o.elim 0 countDivisions :=
      fun o ho => elim_map_of_forall 0 fun t ht => ho t ht _
    rw [scaled_scripts, countDivisions_scripts, ← hb scale, ← hslot p hp, ← hslot s hs]
    rfl
  | paren d t ht => rw [countDivisions, ← ht scale]; rfl

theorem sized_datum_scale (t : Formula δ) (scale : α) : (t.scaled scale).sized.datum.scale = scale := by
  cases t with
  | scripts d b p s => rw [scaled_scripts, sized_scripts]; rfl
  | _ => rfl

theorem sized_datum_divisions (t : Formula (Scaled α)) : t.sized.datum.divisions = t.datum.divisions := by
  cases t with
  | scripts d b p s => rw [sized_scripts]; rfl
  | _ => rfl

theorem placed_datum (t : Formula (Sized α)) (o : Point α) : (t.placed o).datum = ⟨t.datum, o⟩ := by
  cases t with
  | scripts d b p s => rw [placed_scripts]; rfl
  | _ => rfl

theorem laidOut_datum_scale (t : Formula δ) (scale : α) (o : Point α) :
    (t.laidOut scale o).datum.box.scale = scale := by
  rw [laidOut, placed_datum, sized_datum_scale]

theorem laidOut_datum_divisions (t : Formula δ) (scale : α) (o : Point α) :
    (t.laidOut scale o).datum.box.divisions = t.countDivisions := by
  rw [laidOut, placed_datum, sized_datum_divisions, scaled_datum_divisions]

/-! ## The shape -/

theorem shape_concat (d : δ) (l r : Formula δ) : shape (.concat d l r) = .concat () l.shape r.shape := rfl

theorem shape_fraction (d : δ) (n m : Formula δ) : shape (.fraction d n m) = .fraction () n.shape m.shape := rfl

theorem shape_scripts (d : δ) (b : Formula δ) (p s : Option (Formula δ)) :
    shape (.scripts d b p s) = .scripts () b.shape (p.map shape) (s.map shape) :=
  map_scripts _ d b p s

theorem shape_paren (d : δ) (t : Formula δ) : shape (.paren d t) = .paren () t.shape := rfl

/-- a slot whose script keeps its shape -/
theorem map_shape_of_forall {δ' : Type} {f : Formula δ → Formula δ'} {o : Option (Formula δ)}
    (h : ∀ t ∈ o, (f t).shape = t.shape) : (o.map f).map shape = o.map shape := by
  rw [Option.map_map]
  exact Option.map_congr h

theorem shape_scaled (t : Formula δ) (scale : α) : (t.scaled scale).shape = t.shape := by
  induction t using Formula.ind generalizing scale with
  | char d c => rfl
  | concat d l r hl hr => rw [scaled, shape_concat, shape_concat, hl, hr]
  | fraction d n m hn hm => rw [scaled, shape_fraction, shape_fraction, hn, hm]
  | scripts d b p s hb hp hs =>
    have hsuper := map_shape_of_forall fun t ht => hp t ht (scale * Metrics.scriptScale)
    have hsub := map_shape_of_forall fun t ht => hs t ht (scale * Metrics.scriptScale)
    rw [scaled_scripts, shape_scripts, shape_scripts, hb, hsuper, hsub]
  | paren d t ht => rw [scaled, shape_paren, shape_paren, ht]

theorem shape_sized (t : Formula (Scaled α)) : t.sized.shape = t.shape := by
  induction t using Formula.ind with
  | char d c => rfl
  | concat d l r hl hr => rw [sized, shape_concat, shape_concat, hl, hr]
  | fraction d n m hn hm => rw [sized, shape_fraction, shape_fraction, hn, hm]
  | scripts d b p s hb hp hs =>
    rw [sized_scripts, shape_scripts, shape_scripts, hb, map_shape_of_forall hp, map_shape_of_forall hs]
  | paren d t ht => rw [sized, shape_paren, shape_paren, ht]

theorem shape_placed (t : Formula (Sized α)) (o : Point α) : (t.placed o).shape = t.shape := by
  induction t using Formula.ind generalizing o with
  | char d c => rfl
  | concat d l r hl hr => rw [placed, shape_concat, shape_concat, hl, hr]
  | fraction d n m hn hm => rw [placed, shape_fraction, shape_fraction, hn, hm]
  | scripts d b p s hb hp hs =>
    -- each slot has a corner of its own
    have hslot : ∀ (u : Option (Formula (Sized α))) (o : Point α), (∀ t ∈ u, ∀ o, (t.placed o).shape = t.shape) →
        (u.map (placed o)).map shape = u.map shape :=
      fun u o hu => map_shape_of_forall fun t ht => hu t ht o
    rw [placed_scripts, shape_scripts, shape_scripts, hb, hslot p _ hp, hslot s _ hs]
  | paren d t ht => rw [placed, shape_paren, shape_paren, ht]

/-- laying out changes neither the shape nor a glyph -/
theorem shape_laidOut (t : Formula δ) (scale : α) (o : Point α) : (t.laidOut scale o).shape = t.shape := by
  rw [laidOut, shape_placed, shape_sized, shape_scaled]

/-! ## The places -/

/-- the scale that a node of this scale gives to the part -/
def inherited (scale : α) (e : Edge) : α :=
  if e.isScript then scale * Metrics.scriptScale else scale

theorem part?_scaled (t : Formula δ) (scale : α) (e : Edge) :
    (t.scaled scale).part? e = (t.part? e).map (scaled (inherited scale e)) := by
  cases t with
  | scripts d b p s => rw [scaled_scripts]; cases e <;> rfl
  | _ => cases e <;> rfl

theorem part?_sized (t : Formula (Scaled α)) (e : Edge) : t.sized.part? e = (t.part? e).map sized := by
  cases t with
  | scripts d b p s => rw [sized_scripts]; cases e <;> rfl
  | _ => cases e <;> rfl

theorem part?_placed (t : Formula (Sized α)) (o : Point α) (e : Edge) :
    ∃ corner, (t.placed o).part? e = (t.part? e).map (placed corner) := by
  cases t with
  | scripts d b p s =>
    rw [placed_scripts]
    cases e with
    | base => exact ⟨_, rfl⟩
    | superscript => exact ⟨_, rfl⟩
    | subscript => exact ⟨_, rfl⟩
    | _ => exact ⟨o, rfl⟩
  | char d c => exact ⟨o, by cases e <;> rfl⟩
  | concat d l r =>
    cases e with
    | left => exact ⟨_, rfl⟩
    | right => exact ⟨_, rfl⟩
    | _ => exact ⟨o, rfl⟩
  | fraction d n m =>
    cases e with
    | numerator => exact ⟨_, rfl⟩
    | denominator => exact ⟨_, rfl⟩
    | _ => exact ⟨o, rfl⟩
  | paren d t =>
    cases e with
    | inside => exact ⟨_, rfl⟩
    | _ => exact ⟨o, rfl⟩

/-- a part is laid out as a formula of its own, at the scale it inherits -/
theorem part?_laidOut (t : Formula δ) (scale : α) (o : Point α) (e : Edge) :
    ∃ corner, (t.laidOut scale o).part? e = (t.part? e).map (laidOut (inherited scale e) corner) := by
  obtain ⟨corner, h⟩ := part?_placed (t.scaled scale).sized o e
  refine ⟨corner, ?_⟩
  rw [laidOut, h, part?_sized, part?_scaled, Option.map_map, Option.map_map]
  rfl

/-- the scale at the end of a path: one multiplication for each edge to a script, from the root down -/
def scaleAlong (scale : α) (path : List Edge) : α :=
  (· * Metrics.scriptScale)^[path.countP Edge.isScript] scale

theorem scaleAlong_cons (scale : α) (e : Edge) (path : List Edge) :
    scaleAlong scale (e :: path) = scaleAlong (inherited scale e) path := by
  unfold scaleAlong inherited
  cases h : e.isScript with
  | false => rw [List.countP_cons_of_neg (by simp [h])]; rfl
  | true => rw [List.countP_cons_of_pos h, Function.iterate_succ_apply]; rfl

/-- what stands at a place is laid out as a formula of its own -/
theorem at?_laidOut (t : Formula δ) (scale : α) (o : Point α) (path : List Edge) :
    ∃ corner, (t.laidOut scale o).at? path = (t.at? path).map (laidOut (scaleAlong scale path) corner) := by
  induction path generalizing t scale o with
  | nil => exact ⟨o, rfl⟩
  | cons e path ih =>
    obtain ⟨corner, h⟩ := part?_laidOut t scale o e
    rw [at?_cons, at?_cons, h, scaleAlong_cons]
    cases t.part? e with
    | none => exact ⟨o, rfl⟩
    | some u => exact ih u (inherited scale e) corner

/-- **The passes keep the tree, and compute what each place inherits and what is counted below it.** Whatever the scale
and the corner of the root are, numbers or not, the laid out formula has the shape and the glyphs of the formula, so
its notation, its levels and its nodes. At the end of a path stands the formula that was there before, with the number
of its fractions, and with the scale of the root multiplied by the ratio of scripts once for each edge to a script. -/
theorem passes_keep_tree (t : Expr) (scale : Float32) (origin : Point Float32) :
    let tree := t.laidOut scale origin
    tree.shape = t ∧ tree.value = t.value ∧ tree.depth = t.depth ∧ tree.nodeCount = t.nodeCount ∧
      ∀ path : List Edge,
        (tree.at? path).map (fun n => (n.shape, n.datum.box.divisions, n.datum.box.scale)) =
          (t.at? path).map fun u =>
            (u, u.countDivisions, (· * Metrics.scriptScale)^[path.countP Edge.isScript] scale) := by
  intro tree
  have hshape : tree.shape = t.shape := shape_laidOut t scale origin
  refine ⟨hshape.trans (shape_expr t), value_eq_of_shape hshape, depth_eq_of_shape hshape, nodeCount_eq_of_shape hshape,
    fun path => ?_⟩
  obtain ⟨corner, h⟩ := at?_laidOut t scale origin path
  rw [h, Option.map_map]
  refine Option.map_congr fun u _ => ?_
  simp only [Function.comp_apply, shape_laidOut, shape_expr, laidOut_datum_divisions, laidOut_datum_scale]
  rfl

end FormulaLayout.Formula
