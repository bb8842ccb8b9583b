/-
The nodes of a formula, without their levels.

The nodes are the root and those of its parts (`nodes_eq`). So a property of all nodes is a property of the root and of
all nodes of its parts (`forall_nodes_iff`, and one lemma for each kind of node), and is shown by induction over the parts
(`children_ind`).
-/
import Mathlib.Tactic
import FormulaLayout.Formula.Outline

namespace FormulaLayout.Formula

variable {δ : Type}

@[simp]
theorem datum_char (d : δ) (c : Char) : (char d c).datum = d := rfl

@[simp]
theorem datum_concat (d : δ) (l r : Formula δ) : (concat d l r).datum = d := rfl

@[simp]
theorem datum_fraction (d : δ) (n m : Formula δ) : (fraction d n m).datum = d := rfl

@[simp]
theorem datum_scripts (d : δ) (b : Formula δ) (p q : Option (Formula δ)) : (scripts d b p q).datum = d := rfl

@[simp]
theorem datum_paren (d : δ) (t : Formula δ) : (paren d t).datum = d := rfl

/-- the nodes of a tree in reading order -/
def nodes (t : Formula δ) : List (Formula δ) :=
  t.outline.map Prod.snd

/-- induction over the parts of a node, of whatever kind it is -/
theorem children_ind {motive : Formula δ → Prop} (h : ∀ t, (∀ c ∈ t.children, motive c) → motive t) (t : Formula δ) :
    motive t := by
  induction t using Formula.ind with
  | char d c => exact h _ nofun
  | concat d l r hl hr => exact h _ (by simp [children, hl, hr])
  | fraction d n m hn hm => exact h _ (by simp [children, hn, hm])
  | scripts d b p q hb hp hq =>
    refine h _ fun c hc => ?_
    simp only [children, List.mem_cons, List.mem_append, Option.mem_toList] at hc
    rcases hc with rfl | hc | hc
    · exact hb
    · exact hp c hc
    · exact hq c hc
  | paren d t ht => exact h _ (by simp [children, ht])

/-- the nodes do not depend on the level that the root is given -/
theorem map_snd_outlineFrom (t : Formula δ) (level level' : Nat) :
    (t.outlineFrom level).map Prod.snd = (t.outlineFrom level').map Prod.snd := by
  induction t using children_ind generalizing level level' with
  | h t ih =>
    rw [outlineFrom_eq level, outlineFrom_eq level']
    simp only [List.map_cons, List.map_flatMap]
    rw [List.flatMap_congr fun c hc => ih c hc (level + 1) (level' + 1)]

/-- the root comes first, then the nodes of its parts in order -/
theorem nodes_eq (t : Formula δ) : t.nodes = t :: t.children.flatMap nodes := by
  rw [nodes, outline, outlineFrom_eq]
  simp only [List.map_cons, List.map_flatMap]
  rw [List.flatMap_congr fun c _ => map_snd_outlineFrom c (0 + 1) 0]
  rfl

/-- what the nodes give is what the root gives, then what those of its parts give -/
theorem filterMap_nodes {β : Type} (f : Formula δ → Option β) (t : Formula δ) :
    t.nodes.filterMap f = (f t).toList ++ t.children.flatMap fun c => c.nodes.filterMap f := by
  rw [nodes_eq, List.filterMap_cons, List.filterMap_flatMap]
  cases f t <;> rfl

variable {P : Formula δ → Prop}

theorem forall_nodes_iff {t : Formula δ} :
    (∀ n ∈ t.nodes, P n) ↔ P t ∧ ∀ c ∈ t.children, ∀ n ∈ c.nodes, P n := by
  rw [nodes_eq]
  simp only [List.mem_cons, List.mem_flatMap, forall_eq_or_imp]
  refine and_congr_right fun _ => ⟨fun h c hc n hn => h n ⟨c, hc, hn⟩, fun h n ⟨c, hc, hn⟩ => h c hc n hn⟩

section

variable {d : δ}

theorem forall_nodes_char {c : Char} : (∀ n ∈ (char d c).nodes, P n) ↔ P (.char d c) := by
  simp [forall_nodes_iff (t := .char d c), children]

theorem forall_nodes_concat {l r : Formula δ} :
    (∀ n ∈ (concat d l r).nodes, P n) ↔
      P (.concat d l r) ∧ (∀ n ∈ l.nodes, P n) ∧ ∀ n ∈ r.nodes, P n := by
  simp [forall_nodes_iff (t := .concat d l r), children]

theorem forall_nodes_fraction {u v : Formula δ} :
    (∀ n ∈ (fraction d u v).nodes, P n) ↔
      P (.fraction d u v) ∧ (∀ n ∈ u.nodes, P n) ∧ ∀ n ∈ v.nodes, P n := by
  simp [forall_nodes_iff (t := .fraction d u v), children]

theorem forall_nodes_scripts {b : Formula δ} {p s : Option (Formula δ)} :
    (∀ n ∈ (scripts d b p s).nodes, P n) ↔
      P (.scripts d b p s) ∧ (∀ n ∈ b.nodes, P n) ∧ (∀ t ∈ p, ∀ n ∈ t.nodes, P n) ∧ ∀ t ∈ s, ∀ n ∈ t.nodes, P n := by
  rw [forall_nodes_iff]
  cases p <;> cases s <;> simp [children]

theorem forall_nodes_paren {t : Formula δ} :
    (∀ n ∈ (paren d t).nodes, P n) ↔ P (.paren d t) ∧ ∀ n ∈ t.nodes, P n := by
  simp [forall_nodes_iff (t := .paren d t), children]

end

end FormulaLayout.Formula
