/-
The branching of a tree from the levels of its nodes.

The levels of the nodes in reading order are read from the last to the first. Trees whose parent has not come yet are
pending, each with the level of its root; a node takes the pending trees in front that are deeper than itself as its
parts (`Branching.under`). Behind a tree nothing pending is deeper than its root, so the nodes of a tree take only what
belongs to them (`pending_outlineFrom`, by induction over the parts of a node).

- `ofLevels?_outline`: the levels of a tree give its branching.
-/
import Mathlib.Tactic
import FormulaLayout.Proofs.Formula.Nodes

namespace FormulaLayout

/-- a tree with nothing but its branching -/
inductive Branching where
  | node (parts : List Branching)

namespace Branching

/-- a node in front of pending trees: those in front that are deeper become its parts -/
def under (level : Nat) (pending : List (Nat × Branching)) : List (Nat × Branching) :=
  (level, node ((pending.takeWhile (level < ·.1)).map Prod.snd)) :: pending.dropWhile (level < ·.1)

/-- the trees that nodes of these levels make up, each with the level of its root -/
def pending (levels : List Nat) : List (Nat × Branching) :=
  levels.foldr under []

/-- the tree that nodes of these levels make up, if it is one with its root at level zero -/
def ofLevels? (levels : List Nat) : Option Branching :=
  match pending levels with
  | [(0, b)] => some b
  | _ => none

end Branching

namespace Formula

variable {δ : Type}

/-- the tree without its data and glyphs and without the kinds of its nodes -/
def branching : Formula δ → Branching
  | .char _ _ => .node []
  | .concat _ l r => .node [l.branching, r.branching]
  | .fraction _ n m => .node [n.branching, m.branching]
  | .scripts _ b p s =>
    .node (b.branching ::
      ((match p with | none => [] | some p => [p.branching]) ++ (match s with | none => [] | some s => [s.branching])))
  | .paren _ t => .node [t.branching]
termination_by structural t => t

/-- the parts of a node in order -/
theorem branching_eq (t : Formula δ) : t.branching = .node (t.children.map branching) := by
  cases t with
  | scripts d b p s => cases p <;> cases s <;> rfl
  | _ => rfl

/-- the levels of the nodes in reading order -/
def levelsFrom (level : Nat) (t : Formula δ) : List Nat :=
  (t.outlineFrom level).map Prod.fst

theorem levelsFrom_eq (level : Nat) (t : Formula δ) :
    t.levelsFrom level = level :: t.children.flatMap (levelsFrom (level + 1)) := by
  rw [levelsFrom, outlineFrom_eq, List.map_cons, List.map_flatMap]
  rfl

/-- nothing pending is deeper than a level -/
def Shallow (level : Nat) (pending : List (Nat × Branching)) : Prop :=
  ∀ b ∈ pending.head?, b.1 ≤ level

theorem takeWhile_of_shallow {level : Nat} {pending : List (Nat × Branching)} (h : Shallow level pending) :
    pending.takeWhile (level < ·.1) = [] ∧ pending.dropWhile (level < ·.1) = pending := by
  cases pending with
  | nil => exact ⟨rfl, rfl⟩
  | cons b pending =>
    have hb : ¬ level < b.1 := Nat.not_lt.2 (h b rfl)
    simp [hb]

/-- trees one level deeper are the parts of a node, if nothing behind them is -/
theorem under_parts {level : Nat} {pending : List (Nat × Branching)} (h : Shallow level pending)
    (parts : List Branching) :
    Branching.under level (parts.map (level + 1, ·) ++ pending) = (level, .node parts) :: pending := by
  have hdeeper : ∀ b ∈ parts.map (level + 1, ·), decide (level < b.1) = true := by
    intro b hb
    obtain ⟨part, -, rfl⟩ := List.mem_map.1 hb
    exact decide_eq_true (Nat.lt_succ_self level)
  obtain ⟨htake, hdrop⟩ := takeWhile_of_shallow h
  rw [Branching.under, List.takeWhile_append_of_pos hdeeper, List.dropWhile_append_of_pos hdeeper, htake, hdrop,
    List.append_nil, List.map_map]
  simp [Function.comp_def]

/-- in front of others that are no deeper, the nodes of a tree make up the tree -/
theorem pending_levelsFrom {level : Nat} (t : Formula δ) {rest : List Nat}
    (h : Shallow level (Branching.pending rest)) :
    Branching.pending (t.levelsFrom level ++ rest) = (level, t.branching) :: Branching.pending rest := by
  induction t using children_ind generalizing level rest with
  | h t ih =>
    -- the parts one after the other, each in front of those behind it
    have hparts : ∀ parts : List (Formula δ), (∀ c ∈ parts, c ∈ t.children) →
        Branching.pending (parts.flatMap (levelsFrom (level + 1)) ++ rest) =
          (parts.map branching).map (level + 1, ·) ++ Branching.pending rest := by
      intro parts hmem
      induction parts with
      | nil => rfl
      | cons c parts ihparts =>
        obtain ⟨hc, hothers⟩ := List.forall_mem_cons.1 hmem
        have hbehind := ihparts hothers
        have hshallow : Shallow (level + 1) (Branching.pending (parts.flatMap (levelsFrom (level + 1)) ++ rest)) := by
          rw [hbehind]
          cases parts with
          | nil => exact fun b hb => Nat.le_succ_of_le (h b hb)
          | cons c' parts => simp [Shallow]
        rw [List.flatMap_cons, List.append_assoc, ih c hc hshallow, hbehind]
        rfl
    rw [levelsFrom_eq, List.cons_append, Branching.pending, List.foldr_cons]
    change Branching.under level (Branching.pending _) = _
    rw [hparts t.children fun c hc => hc, under_parts h, branching_eq]

/-- **The levels of its nodes give the branching of a tree.** -/
theorem ofLevels?_outline (t : Formula δ) : Branching.ofLevels? (t.outline.map Prod.fst) = some t.branching := by
  have hpending : Branching.pending (t.levelsFrom 0 ++ []) = [(0, t.branching)] := pending_levelsFrom t nofun
  rw [List.append_nil] at hpending
  change Branching.ofLevels? (t.levelsFrom 0) = _
  rw [Branching.ofLevels?, hpending]
  rfl

end Formula

end FormulaLayout
