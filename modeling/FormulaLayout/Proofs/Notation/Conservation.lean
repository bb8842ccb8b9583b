/-
Nothing is lost between the tokens of a text and the ink of its formula.

A character and each of the two parentheses is a text, a slash is a rule; braces and script markers draw nothing. A
phrase of the grammar has the ink of its tokens, each as often as it occurs (`Expression.ink_perm`). The order may
differ, since a term has its superscript in front of its subscript however they were written.

- `parse_ink_perm`: so the formula of a text has the ink of the text.
- `parse_ink_not_isMarker`: none of it has a script marker in it, since a marker is always a token of its own.
-/
import Mathlib.Tactic
import FormulaLayout.Proofs.Drawing.Ink
import FormulaLayout.Proofs.Notation.Acceptance

namespace FormulaLayout.Notation

namespace TokenKind

/-- what a token draws, if it draws anything -/
def ink? : TokenKind → Option Ink
  | char c => some (.text (String.singleton c))
  | opener .paren => some (.text "(")
  | closer .paren => some (.text ")")
  | slash => some .rule
  | marker _ | opener .brace | closer .brace => none

/-- the token draws a text: a character or a parenthesis -/
def isText : TokenKind → Bool
  | char _ | opener .paren | closer .paren => true
  | _ => false

theorem isText_ink? (k : TokenKind) : (k.ink?.map Ink.isText).getD false = k.isText := by
  cases k with
  | opener d | closer d => cases d <;> rfl
  | _ => rfl

theorem isRule_ink? (k : TokenKind) : (k.ink?.map fun i => decide (i = .rule)).getD false = decide (k = slash) := by
  cases k with
  | opener d | closer d => cases d <;> rfl
  | _ => simp [ink?]

end TokenKind

/-- the ink of a term is that of its base and of its scripts -/
theorem Part.ink_scripted (p : Part) (sup sub : Option Part) :
    (p.scripted sup sub).expr.ink = p.expr.ink ++ sup.elim [] (·.expr.ink) ++ sub.elim [] (·.expr.ink) := by
  cases sup <;> cases sub <;> simp [scripted, Formula.withScripts, Formula.ink]

namespace Grammar

mutual

theorem Factor.ink_perm {w : List TokenKind} {p : Part} : Factor w p → (w.filterMap TokenKind.ink?).Perm p.expr.ink
  | .char c => .refl _
  | .paren h => by
    have hw := h.ink_perm
    simp only [Part.inParens, Formula.parenthesize, Formula.ink, List.filterMap_cons, List.filterMap_append,
      TokenKind.ink?, List.filterMap_nil]
    exact (hw.append_right _).cons _
  | .brace h => by
    have hw := h.ink_perm
    simpa only [List.filterMap_cons, List.filterMap_append, TokenKind.ink?, List.filterMap_nil, List.append_nil] using hw

theorem Term.ink_perm {w : List TokenKind} {p : Part} {sup sub : Option Part} :
    Term w p sup sub → (w.filterMap TokenKind.ink?).Perm (p.scripted sup sub).expr.ink
  | .base h => h.ink_perm
  | .superscript h hq => by
    -- behind a subscript the superscript goes in front of it
    have hu := h.ink_perm
    have hv := hq.ink_perm
    rw [Part.ink_scripted] at hu ⊢
    simp only [List.filterMap_append, List.filterMap_cons, TokenKind.ink?, Option.elim_none, Option.elim_some,
      List.append_nil] at hu ⊢
    refine (hu.append hv).trans ?_
    rw [List.append_assoc, List.append_assoc]
    exact List.perm_append_comm.append_left _
  | .subscript h hq => by
    have hu := h.ink_perm
    have hv := hq.ink_perm
    rw [Part.ink_scripted] at hu ⊢
    simp only [List.filterMap_append, List.filterMap_cons, TokenKind.ink?, Option.elim_none, Option.elim_some,
      List.append_nil] at hu ⊢
    exact hu.append hv

theorem Terms.ink_perm {w : List TokenKind} {ps : List Part} :
    Terms w ps → (w.filterMap TokenKind.ink?).Perm (ps.flatMap fun p => p.expr.ink)
  | .nil => .refl _
  | .snoc h ht => by
    rw [List.filterMap_append, List.flatMap_append, List.flatMap_singleton]
    exact h.ink_perm.append ht.ink_perm

theorem Run.ink_perm {w : List TokenKind} {p : Part} : Run w p → (w.filterMap TokenKind.ink?).Perm p.expr.ink
  | .join h he => by
    have hw := h.ink_perm
    rwa [(Formula.grouping_of_concatAll he).ink_eq, List.flatMap_map]

theorem Expression.ink_perm {w : List TokenKind} {p : Part} :
    Expression w p → (w.filterMap TokenKind.ink?).Perm p.expr.ink
  | .run h => h.ink_perm
  | .division h hq => by
    rw [List.filterMap_append, List.filterMap_cons]
    exact h.ink_perm.append (hq.ink_perm.cons _)

end

end Grammar

/-- **A formula has the ink of its text.** -/
theorem parse_ink_perm {input : String} {e : Expr} (h : parse input = .ok e) :
    ((tokenize input).filterMap (·.kind.ink?)).Perm e.ink := by
  obtain ⟨⟨b, -, hderives⟩, -⟩ := parseTokens_sound h
  have hperm := hderives.ink_perm
  rwa [List.filterMap_map] at hperm

/-- every token is the kind of some character -/
theorem exists_ofChar_of_mem_scan {offset : Nat} {cs : List Char} :
    ∀ t ∈ scan offset cs, ∃ c, t.kind = .ofChar c := by
  induction cs generalizing offset with
  | nil => exact nofun
  | cons c cs ih =>
    intro t ht
    rw [scan] at ht
    split_ifs at ht
    · exact ih t ht
    · rcases List.mem_cons.1 ht with rfl | ht
      · exact ⟨c, rfl⟩
      · exact ih t ht

/-- what a token draws has no script marker in it, since the markers are tokens that draw nothing -/
theorem not_isMarker_of_ink? {c : Char} {i : Ink} (h : (TokenKind.ofChar c).ink? = some i) :
    ∀ d ∈ i.caption, ¬ isMarker d := by
  unfold TokenKind.ofChar at h
  split_ifs at h with h1 h2 h3 h4 h5 h6 h7 <;> simp only [TokenKind.ink?, Option.some.injEq, reduceCtorEq] at h
  all_goals subst h
  all_goals simp [Ink.caption, isMarker]
  exact ⟨h1, h2⟩

/-- the ink of a parsed formula has no script marker in it -/
theorem parse_ink_not_isMarker {input : String} {e : Expr} (h : parse input = .ok e) :
    ∀ i ∈ e.ink, ∀ c ∈ i.caption, ¬ isMarker c := by
  intro i hi
  obtain ⟨t, ht, hink⟩ := List.mem_filterMap.1 ((parse_ink_perm h).mem_iff.2 hi)
  obtain ⟨c, hc⟩ := exists_ofChar_of_mem_scan t ht
  rw [hc] at hink
  exact not_isMarker_of_ink? hink

end FormulaLayout.Notation
