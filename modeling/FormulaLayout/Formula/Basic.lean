/-
Formulas as trees.

A formula is a glyph, two formulas side by side, a fraction, a base with scripts, or a formula in parentheses. Each node
carries a datum: nothing in a parsed formula (`Expr`), and what the last layout pass computed in a laid out one. A
scripts node has a slot above and a slot below the base, either of which may be empty.

`Formula.ind` is induction over the tree with one hypothesis for each script that is present.
-/
namespace FormulaLayout

/-- a tree of glyphs and operators, with a datum at every node -/
inductive Formula (δ : Type) : Type where
  | char (datum : δ) (glyph : Char)
  | concat (datum : δ) (left right : Formula δ)
  | fraction (datum : δ) (numerator denominator : Formula δ)
  | scripts (datum : δ) (base : Formula δ) (superscript subscript : Option (Formula δ))
  | paren (datum : δ) (child : Formula δ)
  deriving Repr

/-- a formula of which nothing has been computed yet -/
abbrev Expr := Formula Unit

namespace Formula

variable {δ ε : Type}

/-- induction over formulas; the scripts that are present count as children -/
@[elab_as_elim, induction_eliminator]
theorem ind {motive : Formula δ → Prop} (char : ∀ d c, motive (.char d c))
    (concat : ∀ d l r, motive l → motive r → motive (.concat d l r))
    (fraction : ∀ d n m, motive n → motive m → motive (.fraction d n m))
    (scripts : ∀ d b p s, motive b → (∀ t ∈ p, motive t) → (∀ t ∈ s, motive t) → motive (.scripts d b p s))
    (paren : ∀ d t, motive t → motive (.paren d t)) (t : Formula δ) : motive t :=
  match t with
  | .char d c => char d c
  | .concat d l r =>
    concat d l r (ind char concat fraction scripts paren l) (ind char concat fraction scripts paren r)
  | .fraction d n m =>
    fraction d n m (ind char concat fraction scripts paren n) (ind char concat fraction scripts paren m)
  | .scripts d b p s =>
    scripts d b p s (ind char concat fraction scripts paren b)
      (match p with
        | none => nofun
        | some p => fun _ h => Option.mem_some.1 h ▸ ind char concat fraction scripts paren p)
      (match s with
        | none => nofun
        | some s => fun _ h => Option.mem_some.1 h ▸ ind char concat fraction scripts paren s)
  | .paren d t => paren d t (ind char concat fraction scripts paren t)
termination_by structural t

/-! ## Building expressions -/

/-- a single glyph -/
def character (c : Char) : Expr := .char () c

/-- two expressions side by side -/
def adjoin (left right : Expr) : Expr := .concat () left right

/-- one expression over another -/
def divide (numerator denominator : Expr) : Expr := .fraction () numerator denominator

/-- an expression with scripts -/
def withScripts (base : Expr) (superscript subscript : Option Expr) : Expr := .scripts () base superscript subscript

/-- an expression in parentheses -/
def parenthesize (child : Expr) : Expr := .paren () child

/-! ## Looking at a node -/

/-- what has been computed for the node -/
def datum : Formula δ → δ
  | .char d _ | .concat d _ _ | .fraction d _ _ | .scripts d _ _ _ | .paren d _ => d

/-- the parts of the node from left to right and top to bottom; empty script slots are left out -/
def children : Formula δ → List (Formula δ)
  | .char _ _ => []
  | .concat _ l r => [l, r]
  | .fraction _ n m => [n, m]
  | .scripts _ b p s => b :: (p.toList ++ s.toList)
  | .paren _ t => [t]

/-- the name of the node's kind -/
def kindName : Formula δ → String
  | .char _ _ => "Character"
  | .concat _ _ _ => "Concatenation"
  | .fraction _ _ _ => "Fraction"
  | .scripts _ _ _ _ => "SuperSubscript"
  | .paren _ _ => "Parenthesized"

/-- the node is a fraction -/
def isFraction : Formula δ → Bool
  | .fraction _ _ _ => true
  | _ => false

/-- the glyph of a leaf -/
def glyph? : Formula δ → Option Char
  | .char _ c => some c
  | _ => none

/-! ## The tree without its data -/

/-- the same tree with a function of each datum -/
def map (f : δ → ε) : Formula δ → Formula ε
  | .char d c => .char (f d) c
  | .concat d l r => .concat (f d) (l.map f) (r.map f)
  | .fraction d n m => .fraction (f d) (n.map f) (m.map f)
  | .scripts d b p s =>
    .scripts (f d) (b.map f) (match p with | none => none | some p => some (p.map f))
      (match s with | none => none | some s => some (s.map f))
  | .paren d t => .paren (f d) (t.map f)
termination_by structural t => t

theorem map_scripts (f : δ → ε) (d : δ) (b : Formula δ) (p s : Option (Formula δ)) :
    map f (.scripts d b p s) = .scripts (f d) (b.map f) (p.map (map f)) (s.map (map f)) := by
  cases p <;> cases s <;> rfl

/-- the shape and the glyphs of a tree -/
def shape (t : Formula δ) : Expr :=
  t.map fun _ => ()

/-- the same tree with equal glyphs and data, by the equality of the data -/
def beq [BEq δ] : Formula δ → Formula δ → Bool
  | .char d c, .char d' c' => d == d' && c == c'
  | .concat d l r, .concat d' l' r' => d == d' && l.beq l' && r.beq r'
  | .fraction d n m, .fraction d' n' m' => d == d' && n.beq n' && m.beq m'
  | .scripts d b p s, .scripts d' b' p' s' =>
    d == d' && b.beq b' && (match p, p' with | none, none => true | some p, some p' => p.beq p' | _, _ => false)
      && (match s, s' with | none, none => true | some s, some s' => s.beq s' | _, _ => false)
  | .paren d t, .paren d' t' => d == d' && t.beq t'
  | _, _ => false
termination_by structural t => t

instance [BEq δ] : BEq (Formula δ) := ⟨beq⟩

end Formula

end FormulaLayout
