/-
A base and its scripts, arranged without any room to spare.

The offset of a superscript is its height less two fifths of that of the base, so its sign depends on which of the two is
the larger. A superscript with a positive offset lifts the base and starts at the top of the arrangement itself; any other
starts below the top of the base, which is then not lifted. Either way it ends two fifths of the base below the top of the
base, and so above the lower end of the base. What ends lowest is the base or the subscript.

- `ScriptPlacement.Tight`: the arrangement starts where the higher of base and superscript starts, and ends where the
  lowest of its parts ends.
- `Formula.Filled`: the parts of a node with scripts reach from its top to its lower end.
- `arrangements_tight`: every arrangement is tight, the third pass places the parts where it has them, and so the parts
  fill their node in every layout.
-/
import Mathlib.Tactic
import FormulaLayout.Notation.Parser
import FormulaLayout.Proofs.Layout.Insets

namespace FormulaLayout

/-! ## Heights in an arrangement -/

namespace ScriptPlacement

/-- the tops of the base and of a superscript -/
def tops (a : ScriptPlacement ℚ) (superscript : Option (Size ℚ)) : List ℚ :=
  a.baseTop :: superscript.toList.map fun _ => a.superscriptTop

/-- the lower ends of the base and of the scripts -/
def bottoms (a : ScriptPlacement ℚ) (base : Size ℚ) (superscript subscript : Option (Size ℚ)) : List ℚ :=
  (a.baseTop + base.height) ::
    (superscript.toList.map (a.superscriptTop + ·.height) ++ subscript.toList.map (a.subscriptTop + ·.height))

/-- an arrangement that starts and ends with its parts -/
structure Tight (a : ScriptPlacement ℚ) (base : Size ℚ) (superscript subscript : Option (Size ℚ)) : Prop where
  top : IsLeast {y | y ∈ a.tops superscript} 0
  bottom : IsGreatest {y | y ∈ a.bottoms base superscript subscript} a.height
  superscript_bottom : ∀ s ∈ superscript, a.superscriptTop + s.height = a.baseTop + base.height * (2 / 5)

theorem mem_tops {a : ScriptPlacement ℚ} {superscript : Option (Size ℚ)} {y : ℚ} :
    y ∈ a.tops superscript ↔ y = a.baseTop ∨ ∃ s ∈ superscript, y = a.superscriptTop := by
  cases superscript <;> simp [tops]

theorem mem_bottoms {a : ScriptPlacement ℚ} {base : Size ℚ} {superscript subscript : Option (Size ℚ)} {y : ℚ} :
    y ∈ a.bottoms base superscript subscript ↔
      y = a.baseTop + base.height ∨ (∃ s ∈ superscript, y = a.superscriptTop + s.height) ∨
        ∃ s ∈ subscript, y = a.subscriptTop + s.height := by
  cases superscript <;> cases subscript <;> simp [bottoms]

/-- a superscript starts at zero if it lifts the base, and the base starts there if it is not lifted -/
theorem zero_mem_tops (base : Size ℚ) (superscript subscript : Option (Size ℚ)) :
    0 ∈ (ofSizes base superscript subscript).tops superscript := by
  cases superscript with
  | none => simp [tops, ofSizes, zero_literal]
  | some p =>
    have htop := baseTop_of_superscript base p subscript
    rcases max_choice (ofSizes base (some p) subscript).superOffset 0 with hlifted | hkept
    · rw [hlifted] at htop
      simp [tops, superscriptTop, htop]
    · rw [hkept] at htop
      simp [tops, htop]

/-- the arrangement ends with the base or with the subscript -/
theorem height_mem_bottoms (base : Size ℚ) (superscript subscript : Option (Size ℚ)) :
    (ofSizes base superscript subscript).height ∈
      (ofSizes base superscript subscript).bottoms base superscript subscript := by
  cases subscript with
  | none => exact List.mem_cons_self
  | some q =>
    rw [height_of_subscript]
    rcases max_choice ((ofSizes base superscript (some q)).baseTop + base.height)
      ((ofSizes base superscript (some q)).baseTop + (ofSizes base superscript (some q)).subOffset + q.height)
      with hbase | hsub
    · rw [hbase]
      exact List.mem_cons_self
    · rw [hsub]
      simp [bottoms, subscriptTop]

theorem ofSizes_tight {base : Size ℚ} (superscript subscript : Option (Size ℚ)) (h : 0 ≤ base.height) :
    (ofSizes base superscript subscript).Tight base superscript subscript := by
  have ha := ofSizes_arranged base superscript subscript
  refine ⟨⟨zero_mem_tops base superscript subscript, ?_⟩, ⟨height_mem_bottoms base superscript subscript, ?_⟩,
    ha.superscript_bottom⟩
  · intro y hy
    rcases mem_tops.1 hy with rfl | ⟨s, hs, rfl⟩
    · exact ha.baseTop_nonneg
    · exact ha.superscript_nonneg s hs
  · intro y hy
    rcases mem_bottoms.1 hy with rfl | ⟨s, hs, rfl⟩ | ⟨s, hs, rfl⟩
    · exact ha.base_le
    · -- two fifths of the base below its top, which is no lower than its end
      have hbottom := ha.superscript_bottom s hs
      have hbase := ha.base_le
      rw [superscriptTop, hbottom]
      linarith
    · exact ha.subscript_le s hs

end ScriptPlacement

/-! ## Heights in a layout -/

namespace Formula

/-- the node is a base with its scripts -/
def hasScripts : Formula (Placed ℚ) → Bool
  | .scripts _ _ _ _ => true
  | _ => false

/-- a node that starts and ends with its parts -/
structure Filled (t : Formula (Placed ℚ)) : Prop where
  top : IsLeast {y | y ∈ t.children.map (·.datum.bounds.y)} t.datum.bounds.y
  bottom : IsGreatest {y | y ∈ t.children.map (·.datum.bounds.bottom)} t.datum.bounds.bottom

/-- heights in a placed node are those of its insets, from its own top on -/
theorem heights_placed (t : Formula (Sized ℚ)) (o : Point ℚ) {height : Formula (Placed ℚ) → ℚ} {depth : Inset → ℚ}
    (h : ∀ i : Inset, height (i.at o) = o.y + depth i) :
    {y | y ∈ (t.placed o).children.map height} = (o.y + ·) '' {y | y ∈ t.insets.map depth} := by
  have hinsets : (t.placed o).children.map height = (t.insets.map depth).map (o.y + ·) := by
    rw [children_placed, List.map_map, List.map_map]
    exact List.map_congr_left fun i _ => h i
  rw [hinsets]
  exact Set.ext fun y => List.mem_map

/-- the insets of a node with scripts are the heights in its arrangement -/
theorem insets_scripts (d : Sized ℚ) (b : Formula (Sized ℚ)) (p q : Option (Formula (Sized ℚ))) :
    let a := Sized.placement b.datum (p.map datum) (q.map datum)
    (insets (.scripts d b p q)).map Inset.top =
        a.tops ((p.map datum).map Sized.size) ++ q.toList.map (fun _ => a.subscriptTop) ∧
      (insets (.scripts d b p q)).map (fun i => i.top + i.part.datum.size.height) =
        a.bottoms b.datum.size ((p.map datum).map Sized.size) ((q.map datum).map Sized.size) := by
  cases p <;> cases q <;> exact ⟨rfl, rfl⟩

/-- a node with scripts is as tight as its arrangement -/
theorem Built.filled {t : Formula (Sized ℚ)} (h : t.Built) {o : Point ℚ} (hscripts : (t.placed o).hasScripts) :
    (t.placed o).Filled := by
  have htop : ∀ i : Inset, (i.at o).datum.bounds.y = o.y + i.top := by
    intro i
    rw [Inset.at, placed_bounds]
    rfl
  have hbottom : ∀ i : Inset, (i.at o).datum.bounds.bottom = o.y + (i.top + i.part.datum.size.height) := by
    intro i
    rw [Inset.at, placed_bounds]
    exact add_assoc _ _ _
  have hmono : Monotone (o.y + ·) := fun _ _ hy => (add_le_add_iff_left o.y).2 hy
  have hinset := h.inset_top
  cases h with
  | @scripts d b p q hd hb hp hq =>
    have htight := ScriptPlacement.ofSizes_tight ((p.map datum).map Sized.size) ((q.map datum).map Sized.size)
      hb.proper.height_pos.le
    obtain ⟨htops, hbottoms⟩ := insets_scripts (.scripted d b.datum (p.map datum) (q.map datum)) b p q
    set t := Formula.scripts (.scripted d b.datum (p.map datum) (q.map datum)) b p q
    have hleast : IsLeast {y | y ∈ t.insets.map Inset.top} 0 := by
      refine ⟨htops ▸ List.mem_append_left _ htight.top.1, ?_⟩
      intro y hy
      obtain ⟨i, hi, rfl⟩ := List.mem_map.1 hy
      exact hinset i hi
    refine ⟨?_, ?_⟩
    · rw [heights_placed t o htop, placed_bounds]
      simpa only [add_zero] using hmono.map_isLeast hleast
    · rw [heights_placed t o hbottom, hbottoms, placed_bounds]
      exact hmono.map_isGreatest htight.bottom
  | _ => exact absurd hscripts Bool.false_ne_true

/-- **Scripts are arranged tightly.** For a base of any height that is not negative and any scripts: the higher of base
and superscript starts at zero, the arrangement ends with the lowest of its parts, and a superscript ends two fifths of
the base below its top, whether or not the base is lifted. The third pass places the three where the arrangement has
them, and so every node with scripts of a layout starts with the highest of its parts and ends with the lowest. -/
theorem arrangements_tight :
    (∀ (base : Size ℚ) (superscript subscript : Option (Size ℚ)), 0 ≤ base.height →
      (ScriptPlacement.ofSizes base superscript subscript).Tight base superscript subscript) ∧
    (∀ (o : Point ℚ) (d : Sized ℚ) (b : Formula (Sized ℚ)) (p q : Option (Formula (Sized ℚ))),
      let a := ScriptPlacement.ofSizes b.datum.size (p.map (·.datum.size)) (q.map (·.datum.size))
      let x := o.x + b.datum.size.width
      placed o (.scripts d b p q) =
        .scripts ⟨d, o⟩ (b.placed ⟨o.x, o.y + a.baseTop⟩) (p.map (placed ⟨x, o.y + a.superscriptTop⟩))
          (q.map (placed ⟨x, o.y + a.subscriptTop⟩))) ∧
    ∀ (t : Expr) (scale : ℚ) (origin : Point ℚ), 0 < scale →
      ∀ n ∈ (t.laidOut scale origin).nodes, n.hasScripts → n.Filled := by
  refine ⟨?_, ?_, ?_⟩
  · intro base superscript subscript h
    exact ScriptPlacement.ofSizes_tight superscript subscript h
  · intro o d b p q a x
    have ha : a = Sized.placement b.datum (p.map datum) (q.map datum) := by
      cases p <;> cases q <;> rfl
    rw [placed_scripts_shift, ha]
    simp only [Point.shift, add_zero]
    rfl
  · intro t scale origin hscale n hn
    have hall := forall_nodes_placed (P := fun n => n.hasScripts → n.Filled) (Q := fun _ => True)
      (fun _ h _ => iff_of_true h.filled trivial) (boxed_built hscale t) origin
    exact hall.2 (fun _ _ => trivial) n hn

/-- a superscript that is too short to lift its base, with a subscript that is taller than the base -/
theorem short_superscript_tight :
    let base : Size ℚ := ⟨3 / 5, 2⟩
    let superscript : Option (Size ℚ) := some ⟨21 / 50, 7 / 10⟩
    let subscript : Option (Size ℚ) := some ⟨21 / 50, 3⟩
    let a := ScriptPlacement.ofSizes base superscript subscript
    (0 ≤ base.height ∧ a.Tight base superscript subscript ∧ a.baseTop = 0 ∧ a.superscriptTop = 1 / 10 ∧
      a.height = 22 / 5) ∧
    ∃ e, Notation.parse "(a/b)^c_\x7bd/e\x7d" = .ok e ∧ (0 : ℚ) < 1 ∧
      ∃ n ∈ (e.laidOut (1 : ℚ) ⟨0, 0⟩).nodes, n.hasScripts ∧ n.Filled := by
  intro base superscript subscript a
  have hheight : 0 ≤ base.height := by decide +kernel
  have hnode : ∃ e, Notation.parse "(a/b)^c_\x7bd/e\x7d" = .ok e ∧
      ∃ n ∈ (e.laidOut (1 : ℚ) ⟨0, 0⟩).nodes, n.hasScripts := ⟨_, rfl, by decide +kernel⟩
  obtain ⟨e, he, n, hn, hscripts⟩ := hnode
  refine ⟨⟨hheight, arrangements_tight.1 base superscript subscript hheight, ?_⟩,
    e, he, one_pos, n, hn, hscripts, arrangements_tight.2.2 e 1 ⟨0, 0⟩ one_pos n hn hscripts⟩
  decide +kernel

end Formula

end FormulaLayout
