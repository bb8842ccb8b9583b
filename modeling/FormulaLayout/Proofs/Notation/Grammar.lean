/-
The grammar of the notation, as a relation between words of token kinds and what they stand for.

  expression := expression '/' run | run
  run        := term+
  term       := factor with at most one '^' factor and at most one '_' factor, in either order
  factor     := '(' expression ')' | '{' expression '}' | character

A phrase stands for a part: a tree and a bound on its levels. The bound of a glyph is one; parentheses, a fraction and
scripts add one to the greatest bound of their parts; a run of n terms adds the logarithm of n, rounded up.

`balance` counts the delimiters that a word leaves open. `NestedWithin` says that no delimiter of a word is opened
inside too many open ones. Every phrase is balanced (`Expression.balance_eq`).

What a phrase stands for is made from its glyphs by the five ways of `Closed`, so whatever these keep holds of it
(`Expression.holds`).
-/
import Mathlib.Algebra.BigOperators.Group.List.Basic
import Mathlib.Data.Nat.Log
import Mathlib.Tactic
import FormulaLayout.Notation.Parser

namespace FormulaLayout.Notation

/-! ## What phrases stand for -/

namespace Part

/-- the greatest bound of several parts -/
def maxLevels (parts : List Part) : Nat :=
  (parts.map levels).foldl max 0

/-- a base with its scripts; without scripts it is the base itself -/
def scripted (base : Part) : Option Part → Option Part → Part
  | none, none => base
  | superscript, subscript =>
    ⟨Formula.withScripts base.expr (superscript.map expr) (subscript.map expr),
      1 + max base.levels (max (superscript.elim 0 levels) (subscript.elim 0 levels))⟩

/-- one part over another -/
def dividedBy (numerator denominator : Part) : Part :=
  ⟨Formula.divide numerator.expr denominator.expr, 1 + max numerator.levels denominator.levels⟩

/-- a part in parentheses -/
def inParens (inside : Part) : Part :=
  ⟨Formula.parenthesize inside.expr, 1 + inside.levels⟩

end Part

namespace Grammar

mutual

/-- words that are one factor -/
inductive Factor : List TokenKind → Part → Prop
  | char (c : Char) : Factor [.char c] ⟨Formula.character c, 1⟩
  | paren {w : List TokenKind} {p : Part} (h : Expression w p) :
    Factor (.opener .paren :: (w ++ [.closer .paren])) p.inParens
  | brace {w : List TokenKind} {p : Part} (h : Expression w p) :
    Factor (.opener .brace :: (w ++ [.closer .brace])) p

/-- words that are one term, with its base and its scripts above and below -/
inductive Term : List TokenKind → Part → Option Part → Option Part → Prop
  | base {w : List TokenKind} {p : Part} (h : Factor w p) : Term w p none none
  | superscript {u v : List TokenKind} {p q : Part} {sub : Option Part} (h : Term u p none sub) (hq : Factor v q) :
    Term (u ++ .marker .above :: v) p (some q) sub
  | subscript {u v : List TokenKind} {p q : Part} {sup : Option Part} (h : Term u p sup none) (hq : Factor v q) :
    Term (u ++ .marker .below :: v) p sup (some q)

/-- words that are terms one after the other -/
inductive Terms : List TokenKind → List Part → Prop
  | nil : Terms [] []
  | snoc {u v : List TokenKind} {ps : List Part} {p : Part} {sup sub : Option Part} (h : Terms u ps)
    (ht : Term v p sup sub) : Terms (u ++ v) (ps ++ [p.scripted sup sub])

/-- words that are a run; no terms have no join, so a run has at least one -/
inductive Run : List TokenKind → Part → Prop
  | join {w : List TokenKind} {ps : List Part} {e : Expr} (h : Terms w ps)
    (he : Formula.concatAll (ps.map Part.expr) = some e) : Run w ⟨e, Nat.clog 2 ps.length + Part.maxLevels ps⟩

/-- words that are an expression -/
inductive Expression : List TokenKind → Part → Prop
  | run {w : List TokenKind} {p : Part} (h : Run w p) : Expression w p
  | division {u v : List TokenKind} {p q : Part} (h : Expression u p) (hq : Run v q) :
    Expression (u ++ .slash :: v) (p.dividedBy q)

end

end Grammar

/-- the word is an expression for the tree, within the bound -/
def Derives (w : List TokenKind) (e : Expr) (bound : Nat) : Prop :=
  Grammar.Expression w ⟨e, bound⟩

/-- the word is an expression -/
def Derivable (w : List TokenKind) : Prop :=
  ∃ e bound, Derives w e bound

/-- the word begins an expression -/
def Viable (w : List TokenKind) : Prop :=
  ∃ rest, Derivable (w ++ rest)

/-- the kinds of the tokens of a text -/
def kinds (input : String) : List TokenKind :=
  (tokenize input).map Token.kind

/-! ## Open delimiters -/

/-- what a token adds to the number of open delimiters -/
def TokenKind.turn : TokenKind → ℤ
  | opener _ => 1
  | closer _ => -1
  | _ => 0

/-- the delimiters that a word opens, less those it closes -/
def balance (w : List TokenKind) : ℤ :=
  (w.map TokenKind.turn).sum

/-- no delimiter is opened inside `limit` or more open ones, where `outer` are open in front of the word -/
def NestedWithin (limit outer : Nat) (w : List TokenKind) : Prop :=
  ∀ u d v, w = u ++ .opener d :: v → outer + balance u < limit

/-- the same in the middle of a longer word, in front of which more delimiters may have been closed than opened -/
def OpensWithin (limit : Nat) (outer : ℤ) (w : List TokenKind) : Prop :=
  ∀ u d v, w = u ++ .opener d :: v → outer + balance u < limit

@[simp]
theorem balance_nil : balance [] = 0 := rfl

@[simp]
theorem balance_cons (k : TokenKind) (w : List TokenKind) : balance (k :: w) = k.turn + balance w := by
  simp [balance]

@[simp]
theorem balance_append (u v : List TokenKind) : balance (u ++ v) = balance u + balance v := by
  simp [balance]

/-- a word opens no more delimiters than it has tokens -/
theorem balance_le_length (w : List TokenKind) : balance w ≤ w.length := by
  induction w with
  | nil => simp
  | cons k w ih =>
    have hk : k.turn ≤ 1 := by cases k <;> simp [TokenKind.turn]
    simp only [balance_cons, List.length_cons, Int.natCast_add, Int.cast_ofNat_Int]
    omega

theorem opensWithin_append {limit : Nat} {outer : ℤ} {u v : List TokenKind} :
    OpensWithin limit outer (u ++ v) ↔ OpensWithin limit outer u ∧ OpensWithin limit (outer + balance u) v := by
  constructor
  · intro h
    constructor
    · rintro x d y rfl
      exact h x d (y ++ v) (by simp)
    · rintro x d y rfl
      have hx := h (u ++ x) d y (by simp)
      rwa [balance_append, ← add_assoc] at hx
  · rintro ⟨hu, hv⟩ x d y h
    rcases List.append_eq_append_iff.1 h with ⟨z, rfl, rfl⟩ | ⟨z, rfl, hz⟩
    · rw [balance_append, ← add_assoc]
      exact hv z d y rfl
    · cases z with
      | nil => simpa using hv [] d y (by simpa using hz.symm)
      | cons k z =>
        obtain ⟨rfl, -⟩ := List.cons.inj hz
        exact hu x d z rfl

namespace NestedWithin

theorem left {limit outer : Nat} {u v : List TokenKind} (h : NestedWithin limit outer (u ++ v)) :
    NestedWithin limit outer u :=
  (opensWithin_append.1 h).1

/-- behind a balanced word as many delimiters are open as in front of it -/
theorem right {limit outer : Nat} {u v : List TokenKind} (h : NestedWithin limit outer (u ++ v))
    (hu : balance u = 0) : NestedWithin limit outer v := by
  have hv := (opensWithin_append.1 h).2
  rwa [hu, add_zero] at hv

theorem tail {limit outer : Nat} {k : TokenKind} {w : List TokenKind} (h : NestedWithin limit outer (k :: w))
    (hk : k.turn = 0) : NestedWithin limit outer w :=
  right (u := [k]) h (by simp [hk])

/-- an opener leaves room for itself, and its inside has one more open delimiter around it -/
theorem inside {limit outer : Nat} {d d' : Delimiter} {w : List TokenKind}
    (h : NestedWithin limit outer (.opener d :: (w ++ [.closer d']))) :
    outer < limit ∧ NestedWithin limit (outer + 1) w := by
  refine ⟨by simpa using h [] d _ rfl, ?_⟩
  rintro x e y rfl
  have hx := h (.opener d :: x) e (y ++ [.closer d']) (by simp)
  simp only [balance_cons, TokenKind.turn] at hx
  omega

/-- one more token keeps the limit if it opens nothing or there is room for it -/
theorem snoc {limit outer : Nat} {w : List TokenKind} {k : TokenKind} (h : NestedWithin limit outer w)
    (hk : ∀ d, k = .opener d → outer + balance w < limit) : NestedWithin limit outer (w ++ [k]) := by
  intro u d v huv
  rcases v.eq_nil_or_concat with rfl | ⟨v, l, rfl⟩
  · obtain ⟨rfl, hd⟩ := List.append_inj' huv rfl
    exact hk d (by simpa using hd)
  · have hw : w ++ [k] = (u ++ .opener d :: v) ++ [l] := by simpa using huv
    exact h u d v (List.append_inj' hw rfl).1

/-- a limit with room for the length of the word is kept -/
theorem of_room {limit outer : Nat} {w : List TokenKind} (h : outer + w.length ≤ limit) :
    NestedWithin limit outer w := by
  rintro u d v rfl
  have hu := balance_le_length u
  simp only [List.length_append, List.length_cons] at h
  omega

/-- a limit beyond the length of the word is kept -/
theorem of_length {limit : Nat} {w : List TokenKind} (h : w.length ≤ limit) : NestedWithin limit 0 w :=
  of_room (by omega)

end NestedWithin

/-- a word that closes what it opens and keeps the limit -/
structure Contained (limit outer : Nat) (w : List TokenKind) : Prop where
  balance_eq : balance w = 0
  nested : NestedWithin limit outer w

namespace Contained

variable {limit outer : Nat}

theorem nil : Contained limit outer [] :=
  ⟨rfl, fun u d v h => absurd h (by simp)⟩

theorem append {u v : List TokenKind} (hu : Contained limit outer u) (hv : Contained limit outer v) :
    Contained limit outer (u ++ v) := by
  refine ⟨by simp [hu.balance_eq, hv.balance_eq], opensWithin_append.2 ⟨hu.nested, ?_⟩⟩
  rw [hu.balance_eq, add_zero]
  exact hv.nested

theorem cons {k : TokenKind} {w : List TokenKind} (hk : k.turn = 0) (h : Contained limit outer w) :
    Contained limit outer (k :: w) := by
  refine ⟨by simp [hk, h.balance_eq], ?_⟩
  intro u d v huv
  cases u with
  | nil =>
    obtain ⟨rfl, -⟩ := List.cons.inj huv
    exact absurd hk (by simp [TokenKind.turn])
  | cons l u =>
    obtain ⟨rfl, rfl⟩ := List.cons.inj huv
    simpa [hk] using h.nested u d v rfl

/-- a group is contained where there is room for its opener, if its inside is contained behind the opener -/
theorem group {d d' : Delimiter} {w : List TokenKind} (hroom : outer < limit) (h : Contained limit (outer + 1) w) :
    Contained limit outer (.opener d :: (w ++ [.closer d'])) := by
  refine ⟨by simp [h.balance_eq, TokenKind.turn], ?_⟩
  intro u e v huv
  cases u with
  | nil => simpa using hroom
  | cons l u =>
    obtain ⟨rfl, hw⟩ := List.cons.inj huv
    have hinside := h.nested.snoc (k := .closer d') nofun u e v hw
    simp only [balance_cons, TokenKind.turn]
    omega

end Contained

/-! ## Phrases are balanced words -/

namespace Grammar

mutual

theorem Factor.balance_eq {w : List TokenKind} {p : Part} : Factor w p → balance w = 0
  | .char c => by simp [TokenKind.turn]
  | .paren h => by simp [TokenKind.turn, h.balance_eq]
  | .brace h => by simp [TokenKind.turn, h.balance_eq]

theorem Term.balance_eq {w : List TokenKind} {p : Part} {sup sub : Option Part} : Term w p sup sub → balance w = 0
  | .base h => h.balance_eq
  | .superscript h hq => by simp [TokenKind.turn, h.balance_eq, hq.balance_eq]
  | .subscript h hq => by simp [TokenKind.turn, h.balance_eq, hq.balance_eq]

theorem Terms.balance_eq {w : List TokenKind} {ps : List Part} : Terms w ps → balance w = 0
  | .nil => rfl
  | .snoc h ht => by simp [h.balance_eq, ht.balance_eq]

theorem Run.balance_eq {w : List TokenKind} {p : Part} : Run w p → balance w = 0
  | .join h _ => h.balance_eq

theorem Expression.balance_eq {w : List TokenKind} {p : Part} : Expression w p → balance w = 0
  | .run h => h.balance_eq
  | .division h hq => by simp [TokenKind.turn, h.balance_eq, hq.balance_eq]

end

/-! ## Properties of what phrases stand for -/

/-- the property holds of the given glyphs, and every way to make a part from others keeps it -/
structure Closed (glyph : Char → Prop) (P : Part → Prop) : Prop where
  char : ∀ c, glyph c → P ⟨Formula.character c, 1⟩
  inParens : ∀ p, P p → P p.inParens
  scripted : ∀ p sup sub, P p → (∀ q ∈ sup, P q) → (∀ q ∈ sub, P q) → P (p.scripted sup sub)
  dividedBy : ∀ p q, P p → P q → P (p.dividedBy q)
  joined : ∀ ps e, (∀ p ∈ ps, P p) → Formula.concatAll (ps.map Part.expr) = some e →
    P ⟨e, Nat.clog 2 ps.length + Part.maxLevels ps⟩

section

variable {glyph : Char → Prop} {P : Part → Prop}

mutual

theorem Factor.holds (hP : Closed glyph P) {w : List TokenKind} {p : Part} (h : Factor w p)
    (hw : ∀ c, .char c ∈ w → glyph c) : P p :=
  match h with
  | .char c => hP.char c (hw c (by simp))
  | .paren h => hP.inParens _ (h.holds hP fun c hc => hw c (by simp [hc]))
  | .brace h => h.holds hP fun c hc => hw c (by simp [hc])

/-- the base of a term and its scripts -/
theorem Term.holds (hP : Closed glyph P) {w : List TokenKind} {p : Part} {sup sub : Option Part}
    (h : Term w p sup sub) (hw : ∀ c, .char c ∈ w → glyph c) : P p ∧ (∀ q ∈ sup, P q) ∧ ∀ q ∈ sub, P q :=
  match h with
  | .base h => ⟨h.holds hP hw, nofun, nofun⟩
  | .superscript h hq =>
    have ⟨hp, _, hsub⟩ := h.holds hP fun c hc => hw c (by simp [hc])
    ⟨hp, fun _ he => Option.mem_some.1 he ▸ hq.holds hP fun c hc => hw c (by simp [hc]), hsub⟩
  | .subscript h hq =>
    have ⟨hp, hsup, _⟩ := h.holds hP fun c hc => hw c (by simp [hc])
    ⟨hp, hsup, fun _ he => Option.mem_some.1 he ▸ hq.holds hP fun c hc => hw c (by simp [hc])⟩

theorem Terms.holds (hP : Closed glyph P) {w : List TokenKind} {ps : List Part} (h : Terms w ps)
    (hw : ∀ c, .char c ∈ w → glyph c) : ∀ p ∈ ps, P p := by
  match h with
  | .nil => exact nofun
  | .snoc h ht =>
    obtain ⟨hp, hsup, hsub⟩ := ht.holds hP fun c hc => hw c (by simp [hc])
    intro q hq
    rcases List.mem_append.1 hq with hq | hq
    · exact h.holds hP (fun c hc => hw c (by simp [hc])) q hq
    · exact List.mem_singleton.1 hq ▸ hP.scripted _ _ _ hp hsup hsub

theorem Run.holds (hP : Closed glyph P) {w : List TokenKind} {p : Part} (h : Run w p)
    (hw : ∀ c, .char c ∈ w → glyph c) : P p :=
  match h with
  | .join h he => hP.joined _ _ (h.holds hP hw) he

/-- **What holds of the glyphs of an expression and is kept by every way to make a part holds of the expression.** -/
theorem Expression.holds (hP : Closed glyph P) {w : List TokenKind} {p : Part} (h : Expression w p)
    (hw : ∀ c, .char c ∈ w → glyph c) : P p :=
  match h with
  | .run h => h.holds hP hw
  | .division h hq =>
    hP.dividedBy _ _ (h.holds hP fun c hc => hw c (by simp [hc])) (hq.holds hP fun c hc => hw c (by simp [hc]))

end

end

end Grammar

end FormulaLayout.Notation
