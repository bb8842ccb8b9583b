/-
What a drawing shows, without where.

The ink of a command is its text, or that it is a rule; the ink of a formula is what its nodes draw, in the order in
which they are painted. Whatever arithmetic the passes compute with, the commands of a formula have the ink of the
formula (`ink_laidOut`), since numbers only decide on places and sizes.

Read from left to right the ink is the notation of the formula without the script markers (`source_eq_ink`), and the ink
of a joined run is that of its terms (`Grouping.ink_eq`).
-/
import Mathlib.Tactic
import FormulaLayout.Drawing.Painter
import FormulaLayout.Formula.Source
import FormulaLayout.Proofs.Formula.Join

namespace FormulaLayout

/-- a command without its numbers -/
inductive Ink where
  | text (content : String)
  | rule
  deriving DecidableEq, Repr

namespace Ink

/-- the ink is text -/
def isText : Ink → Bool
  | text _ => true
  | rule => false

/-- how the ink is written in the notation -/
def caption : Ink → List Char
  | text content => content.toList
  | rule => ['/']

end Ink

/-- what a command draws -/
def Command.ink {α : Type} : Command α → Ink
  | .text t => .text t.content
  | .line _ => .rule

/-- the character marks a script -/
def isMarker (c : Char) : Bool :=
  c == '^' || c == '_'

namespace Formula

variable {δ α : Type}

/-- what a formula draws, in order -/
def ink : Formula δ → List Ink
  | .char _ c => [.text (String.singleton c)]
  | .concat _ l r => l.ink ++ r.ink
  | .fraction _ n m => n.ink ++ .rule :: m.ink
  | .scripts _ b p s =>
    b.ink ++ (match p with | none => [] | some p => p.ink) ++ (match s with | none => [] | some s => s.ink)
  | .paren _ t => .text "(" :: t.ink ++ [.text ")"]
termination_by structural t => t

theorem ink_scripts (d : δ) (b : Formula δ) (p s : Option (Formula δ)) :
    ink (.scripts d b p s) = b.ink ++ p.elim [] ink ++ s.elim [] ink := by
  cases p <;> cases s <;> rfl

/-- **The commands of a formula have its ink**, in any arithmetic. -/
theorem ink_laidOut [Scalar α] (t : Formula δ) (scale : α) (origin : Point α) :
    (t.laidOut scale origin).commands.map Command.ink = t.ink := by
  induction t using Formula.ind generalizing scale origin with
  | char d c => rfl
  | concat d l r hl hr =>
    simp only [laidOut, scaled, sized, placed, commands, List.map_append, ink] at hl hr ⊢
    rw [hl, hr]
  | fraction d n m hn hm =>
    simp only [laidOut, scaled, sized, placed, commands, List.map_append, List.map_cons, ink] at hn hm ⊢
    rw [hn, hm]
    rfl
  | scripts d b p s hb hp hs =>
    have hpart : ∀ w : Option (Formula δ),
        (∀ t ∈ w, ∀ (scale : α) (origin : Point α), (t.laidOut scale origin).commands.map Command.ink = t.ink) →
          ∀ (scale : α) (origin : Point α),
            ((((w.map (scaled scale)).map sized).map (placed origin)).elim [] commands).map Command.ink =
              w.elim [] ink := by
      rintro (_ | t) ht scale origin
      · rfl
      · exact ht t rfl scale origin
    simp only [laidOut, scaled_scripts, sized_scripts, placed_scripts, commands_scripts, ink_scripts,
      List.map_append] at hb ⊢
    rw [hb, hpart p hp, hpart s hs]
  | paren d t ht =>
    simp only [laidOut, scaled, sized, placed, commands, List.map_append, List.map_cons, ink] at ht ⊢
    rw [ht]
    rfl

/-- a run draws what its terms draw, one after the other -/
theorem Grouping.ink_eq {terms : List Expr} {e : Expr} (h : Grouping terms e) : e.ink = terms.flatMap ink :=
  h.flatMap_eq fun _ _ => rfl

/-- the ink from left to right is the notation without the script markers -/
theorem source_eq_ink (t : Formula δ) (h : ∀ i ∈ t.ink, ∀ c ∈ i.caption, ¬ isMarker c) :
    t.source.filter (!isMarker ·) = t.ink.flatMap Ink.caption := by
  induction t using Formula.ind with
  | char d c =>
    have hc : isMarker c = false := by simpa [ink, Ink.caption] using h
    simp [source, ink, Ink.caption, hc]
  | concat d l r hl hr =>
    rw [ink, List.forall_mem_append] at h
    rw [source, ink, List.filter_append, List.flatMap_append, hl h.1, hr h.2]
  | fraction d n m hn hm =>
    rw [ink, List.forall_mem_append, List.forall_mem_cons] at h
    rw [source, ink, List.filter_append, List.flatMap_append, hn h.1, List.filter_cons_of_pos, hm h.2.2]
    · rfl
    · rfl
  | scripts d b p s hb hp hs =>
    have hpart : ∀ (w : Option (Formula δ)) (marker : Char), isMarker marker = true →
        (∀ t ∈ w, (∀ i ∈ t.ink, ∀ c ∈ i.caption, ¬ isMarker c) →
          t.source.filter (!isMarker ·) = t.ink.flatMap Ink.caption) →
            (∀ i ∈ w.elim [] ink, ∀ c ∈ i.caption, ¬ isMarker c) →
              (w.elim [] (marker :: source ·)).filter (!isMarker ·) = (w.elim [] ink).flatMap Ink.caption := by
      rintro (_ | t) marker hmarker ht h
      · rfl
      · rw [Option.elim_some, List.filter_cons_of_neg (by simp [hmarker])]
        exact ht t rfl h
    rw [ink_scripts, List.forall_mem_append, List.forall_mem_append] at h
    rw [source_scripts, ink_scripts, List.filter_append, List.filter_append, List.flatMap_append, List.flatMap_append,
      hb h.1.1, hpart p '^' rfl hp h.1.2, hpart s '_' rfl hs h.2]
  | paren d t ht =>
    rw [ink, List.forall_mem_append, List.forall_mem_cons] at h
    rw [source, ink, List.filter_append, List.flatMap_append, List.filter_cons_of_pos, ht h.1.2]
    · rfl
    · rfl

end Formula

end FormulaLayout
