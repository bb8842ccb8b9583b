/-
What depends on the shape and the glyphs of a formula alone.

Changing the data at the nodes changes neither the notation nor the number of levels, nodes and divisions. So two
formulas of one shape agree in all of them, whatever has been computed for their nodes.
-/
import FormulaLayout.Formula.Source
import FormulaLayout.Proofs.Formula.Levels

namespace FormulaLayout.Formula

variable {δ ε : Type}

/-- what is made of a part that may be absent, if a function makes no difference to it -/
theorem elim_map_of_forall {α α' β : Type} {f : α → α'} {g : α' → β} {g' : α → β} (b : β) {o : Option α}
    (h : ∀ t ∈ o, g (f t) = g' t) : (o.map f).elim b g = o.elim b g' := by
  cases o with
  | none => rfl
  | some t => exact h t rfl

theorem source_map (f : δ → ε) (t : Formula δ) : (t.map f).source = t.source := by
  induction t using Formula.ind with
  | char d c => rfl
  | concat d l r hl hr => simp only [map, source, hl, hr]
  | fraction d n m hn hm => simp only [map, source, hn, hm]
  | scripts d b p s hb hp hs =>
    have habove : (p.map (map f)).elim [] ('^' :: source ·) = p.elim [] ('^' :: source ·) :=
      elim_map_of_forall [] fun t ht => congrArg _ (hp t ht)
    have hbelow : (s.map (map f)).elim [] ('_' :: source ·) = s.elim [] ('_' :: source ·) :=
      elim_map_of_forall [] fun t ht => congrArg _ (hs t ht)
    rw [map_scripts, source_scripts, source_scripts, hb, habove, hbelow]
  | paren d t ht => simp only [map, source, ht]

theorem height_map (f : δ → ε) (t : Formula δ) : (t.map f).height = t.height := by
  induction t using Formula.ind with
  | char d c => rfl
  | concat d l r hl hr => simp only [map, height, hl, hr]
  | fraction d n m hn hm => simp only [map, height, hn, hm]
  | scripts d b p s hb hp hs =>
    rw [map_scripts, height_scripts, height_scripts, hb, elim_map_of_forall 0 hp, elim_map_of_forall 0 hs]
  | paren d t ht => simp only [map, height, ht]

theorem size_map (f : δ → ε) (t : Formula δ) : (t.map f).size = t.size := by
  induction t using Formula.ind with
  | char d c => rfl
  | concat d l r hl hr => simp only [map, size, hl, hr]
  | fraction d n m hn hm => simp only [map, size, hn, hm]
  | scripts d b p s hb hp hs =>
    rw [map_scripts, size_scripts, size_scripts, hb, elim_map_of_forall 0 hp, elim_map_of_forall 0 hs]
  | paren d t ht => simp only [map, size, ht]

/-- an expression is its own shape -/
theorem shape_expr (e : Expr) : e.shape = e := by
  induction e using Formula.ind with
  | char d c => rfl
  | concat d l r hl hr =>
    simp only [shape] at hl hr
    simp only [shape, map, hl, hr]
  | fraction d n m hn hm =>
    simp only [shape] at hn hm
    simp only [shape, map, hn, hm]
  | scripts d b p s hb hp hs =>
    have hslot : ∀ o : Option Expr, (∀ t ∈ o, t.shape = t) → o.map (map fun _ => ()) = o := by
      rintro (_ | t) ht
      · rfl
      · exact congrArg some (ht t rfl)
    simp only [shape] at hb
    rw [shape, map_scripts, hb, hslot p hp, hslot s hs]
  | paren d t ht =>
    simp only [shape] at ht
    simp only [shape, map, ht]

/-! ## Formulas of one shape -/

section

variable {t : Formula δ} {u : Formula ε}

theorem value_eq_of_shape (h : t.shape = u.shape) : t.value = u.value := by
  have hsource : t.shape.source = u.shape.source := congrArg source h
  rw [shape, shape, source_map, source_map] at hsource
  rw [value, value, hsource]

theorem height_eq_of_shape (h : t.shape = u.shape) : t.height = u.height := by
  have hheight : t.shape.height = u.shape.height := congrArg height h
  rwa [shape, shape, height_map, height_map] at hheight

theorem depth_eq_of_shape (h : t.shape = u.shape) : t.depth = u.depth := by
  rw [depth_eq_height, depth_eq_height, height_eq_of_shape h]

theorem nodeCount_eq_of_shape (h : t.shape = u.shape) : t.nodeCount = u.nodeCount := by
  have hsize : t.shape.size = u.shape.size := congrArg size h
  rw [shape, shape, size_map, size_map] at hsize
  rw [nodeCount_eq_size, nodeCount_eq_size, hsize]

end

end FormulaLayout.Formula
