/-
Places in a formula.

An edge leads from a node to one of its parts and says which part it is. A path is a list of edges from the root down.
An edge that a node does not have leads nowhere, and neither does the edge to a script that is absent. The nodes of a
formula are what its paths lead to (`mem_nodes_iff`).
-/
import FormulaLayout.Proofs.Formula.Nodes

namespace FormulaLayout

/-- which part of a node -/
inductive Edge where
  | left
  | right
  | numerator
  | denominator
  | base
  | superscript
  | subscript
  | inside
  deriving DecidableEq, Repr

namespace Edge

/-- the part is a script -/
def isScript : Edge → Bool
  | superscript | subscript => true
  | _ => false

/-- the part stands in line with its node: a neighbour, the base of scripts, the inside of parentheses -/
def isInline : Edge → Bool
  | left | right | base | inside => true
  | _ => false

end Edge

namespace Formula

variable {δ : Type}

/-- the part at the end of an edge -/
def part? : Formula δ → Edge → Option (Formula δ)
  | .concat _ l _, .left => some l
  | .concat _ _ r, .right => some r
  | .fraction _ n _, .numerator => some n
  | .fraction _ _ m, .denominator => some m
  | .scripts _ b _ _, .base => some b
  | .scripts _ _ p _, .superscript => p
  | .scripts _ _ _ s, .subscript => s
  | .paren _ t, .inside => some t
  | _, _ => none

/-- the node at the end of a path -/
def at? (t : Formula δ) : List Edge → Option (Formula δ)
  | [] => some t
  | e :: path => (t.part? e).bind (·.at? path)

@[simp]
theorem at?_nil (t : Formula δ) : t.at? [] = some t := rfl

@[simp]
theorem at?_cons (t : Formula δ) (e : Edge) (path : List Edge) :
    t.at? (e :: path) = (t.part? e).bind (·.at? path) := rfl

/-- a path goes on from where another one ends -/
theorem at?_append (t : Formula δ) (path more : List Edge) : t.at? (path ++ more) = (t.at? path).bind (·.at? more) := by
  induction path generalizing t with
  | nil => rfl
  | cons e path ih => simp only [List.cons_append, at?_cons, Option.bind_assoc, ih]

/-- the parts of a node are at the ends of its edges -/
theorem mem_children_iff {t c : Formula δ} : c ∈ t.children ↔ ∃ e, t.part? e = some c := by
  constructor
  · intro h
    cases t with
    | char d g => exact absurd h nofun
    | concat d l r =>
      rcases List.mem_pair.1 h with rfl | rfl
      · exact ⟨.left, rfl⟩
      · exact ⟨.right, rfl⟩
    | fraction d n m =>
      rcases List.mem_pair.1 h with rfl | rfl
      · exact ⟨.numerator, rfl⟩
      · exact ⟨.denominator, rfl⟩
    | scripts d b p s =>
      simp only [children, List.mem_cons, List.mem_append, Option.mem_toList] at h
      rcases h with rfl | h | h
      · exact ⟨.base, rfl⟩
      · exact ⟨.superscript, h⟩
      · exact ⟨.subscript, h⟩
    | paren d u =>
      obtain rfl := List.mem_singleton.1 h
      exact ⟨.inside, rfl⟩
  · rintro ⟨e, h⟩
    cases t <;> cases e <;> simp only [part?, Option.some.injEq, reduceCtorEq] at h <;> simp [children, h]

/-- **Every node is at the end of some path**, and nothing else is. -/
theorem mem_nodes_iff {t n : Formula δ} : n ∈ t.nodes ↔ ∃ path, t.at? path = some n := by
  induction t using children_ind with
  | h t ih =>
    rw [nodes_eq, List.mem_cons, List.mem_flatMap]
    constructor
    · rintro (rfl | ⟨c, hc, hn⟩)
      · exact ⟨[], rfl⟩
      · obtain ⟨e, he⟩ := mem_children_iff.1 hc
        obtain ⟨path, hpath⟩ := (ih c hc).1 hn
        exact ⟨e :: path, by rw [at?_cons, he]; exact hpath⟩
    · rintro ⟨_ | ⟨e, path⟩, h⟩
      · exact Or.inl (Option.some.inj h).symm
      · obtain ⟨c, he, hpath⟩ := Option.bind_eq_some_iff.1 h
        have hc := mem_children_iff.2 ⟨e, he⟩
        exact Or.inr ⟨c, hc, (ih c hc).2 ⟨path, hpath⟩⟩

end Formula

end FormulaLayout
