/-
The order of the two scripts of a term.

Where a script may stand, it fills the free side of the current term and touches nothing else of what has been read
(`reads_script_iff`). Two scripts on different sides fill two places, so reading them in either order leads from the
same states to the same states (`reads_swap`), whatever has been read before and whatever follows. The word of a script
is balanced, so the delimiters in one script are nested as deep in front of the other as behind it (`nested_swap`).

States hold the offsets of their tokens for messages, and those of the two markers differ. Whether a word is an
expression does not depend on them, so the words are read with all offsets zero (`expression_iff_reads`).

- `parse_swap`: two texts that differ in the order of two neighbouring scripts are read as the same formula.
-/
import Mathlib.Tactic
import FormulaLayout.Proofs.Notation.Acceptance

namespace FormulaLayout.Notation

open Grammar

/-! ## One script -/

/-- no more delimiters are open than there have been tokens -/
theorem frames_le_length {limit : Nat} {w : List TokenKind} {s : State} (h : Reads limit .start (unplaced w) s) :
    s.frames.length ≤ w.length := by
  have hspells := h.spells start_spells
  rw [map_kind_unplaced, List.nil_append] at hspells
  have hopen := hspells.balance_eq
  have hle := balance_le_length w
  omega

/-- the second state is the first with a script on a free side of the current term -/
def Scripted (side : Side) (p : Part) (s s' : State) : Prop :=
  ∃ run term, s.focus = .factor run term ∧ term.script? side = none ∧
    s' = { s with focus := .factor run ({ term with marker := 0 }.attach p side) }

/-- reading a marker and a factor gives the current term a script, and does nothing else -/
theorem reads_script_iff {limit : Nat} {s s' : State} {side : Side} {a : List TokenKind} {p : Part} (ha : Factor a p)
    (hp : p.levels ≤ limit) (hroom : s.frames.length + a.length ≤ limit) :
    Reads limit s (unplaced (.marker side :: a)) s' ↔ Scripted side p s s' := by
  obtain ⟨frames, division, focus⟩ := s
  have hfill : ∀ (run : Notation.Run) (term : Notation.Term),
      Reads limit ⟨frames, division, .marker run { term with marker := 0 } side⟩ (unplaced a)
        ⟨frames, division, .factor run ({ term with marker := 0 }.attach p side)⟩ :=
    fun run term => ha.fills hp _ (.script run _ side) _ (map_kind_unplaced a) (.of_room hroom) fun _ _ => rfl
  constructor
  · intro h
    obtain ⟨behind, hstep, hread⟩ := bind_eq_ok.1 h
    cases moves_of_step hstep with
    | marker hfree => exact ⟨_, _, rfl, hfree, Reads.unique hread (hfill _ _)⟩
  · rintro ⟨run, term, rfl, hfree, rfl⟩
    exact Reads.append (.one (Moves.marker hfree).step_eq) (hfill run term)

/-! ## Two scripts -/

/-- a script leaves the other side as it was -/
theorem script?_attach (term : Term) (p : Part) {x y : Side} (hxy : x ≠ y) :
    (term.attach p x).script? y = term.script? y := by
  cases x <;> cases y
  · exact absurd rfl hxy
  · rfl
  · rfl
  · exact absurd rfl hxy

/-- scripts on different sides go to different places -/
theorem attach_comm (term : Term) (p q : Part) {x y : Side} (hxy : x ≠ y) :
    (term.attach p x).attach q y = (term.attach q y).attach p x := by
  cases x <;> cases y
  · exact absurd rfl hxy
  · rfl
  · rfl
  · exact absurd rfl hxy

/-- the marker of the term is the last one, whichever script it belongs to -/
theorem attach_marker (term : Term) (p : Part) (side : Side) (offset : Nat) :
    { term.attach p side with marker := offset } = { term with marker := offset }.attach p side := by
  cases side <;> rfl

/-- **Two scripts on different sides can be taken in either order.** -/
theorem Scripted.swap {x y : Side} (hxy : x ≠ y) {p q : Part} {s s' s'' : State} (h : Scripted x p s s')
    (h' : Scripted y q s' s'') : ∃ t, Scripted y q s t ∧ Scripted x p t s'' := by
  obtain ⟨run, term, hfocus, hx, rfl⟩ := h
  obtain ⟨_, _, ⟨⟩, hy, rfl⟩ := h'
  rw [script?_attach _ _ hxy] at hy
  refine ⟨_, ⟨run, term, hfocus, hy, rfl⟩, run, _, rfl, ?_, ?_⟩
  · rw [script?_attach _ _ hxy.symm]
    exact hx
  · rw [attach_marker, attach_marker, attach_comm _ p q hxy]

section

variable {limit : Nat} {a b u v : List TokenKind} {p q : Part} {x y : Side}

theorem reads_swap {s s' s'' : State} (hxy : x ≠ y) (ha : Factor a p) (hb : Factor b q) (hp : p.levels ≤ limit)
    (hq : q.levels ≤ limit) (hroom : s.frames.length + (a.length + b.length) ≤ limit)
    (h : Reads limit s (unplaced (.marker x :: a)) s') (h' : Reads limit s' (unplaced (.marker y :: b)) s'') :
    ∃ t, Reads limit s (unplaced (.marker y :: b)) t ∧ Reads limit t (unplaced (.marker x :: a)) s'' := by
  -- a script closes what it opens
  have hframes : ∀ {side : Side} {r : Part} {s s' : State}, Scripted side r s s' → s'.frames = s.frames := by
    rintro side r s s' ⟨_, _, -, -, rfl⟩
    rfl
  have hx := (reads_script_iff ha hp (by omega)).1 h
  have hy := (reads_script_iff hb hq (by rw [hframes hx]; omega)).1 h'
  obtain ⟨t, hy, hx⟩ := hx.swap hxy hy
  exact ⟨t, (reads_script_iff hb hq (by omega)).2 hy, (reads_script_iff ha hp (by rw [hframes hy]; omega)).2 hx⟩

/-- the order of two scripts does not matter to what the word around them stands for -/
theorem expression_swap {r : Part} (hxy : x ≠ y) (ha : Factor a p) (hb : Factor b q)
    (h : Expression (u ++ (.marker x :: a ++ (.marker y :: b ++ v))) r) :
    Expression (u ++ (.marker y :: b ++ (.marker x :: a ++ v))) r := by
  -- a limit that refuses nothing
  set limit := max (max p.levels q.levels) (max r.levels (u ++ (.marker x :: a ++ (.marker y :: b ++ v))).length)
    with hlimit
  have hlength : (u ++ (.marker y :: b ++ (.marker x :: a ++ v))).length ≤ limit := by
    simp only [List.length_append, List.length_cons] at hlimit ⊢
    omega
  obtain ⟨division, run, term, hread, hpart⟩ := (expression_iff_reads limit (by omega) (by omega)).1 h
  refine (expression_iff_reads limit (by omega) hlength).2 ⟨division, run, term, ?_, hpart⟩
  rw [unplaced_append, unplaced_append, unplaced_append] at hread ⊢
  obtain ⟨before, hu, hread⟩ := Reads.append_iff.1 hread
  obtain ⟨between, hfirst, hread⟩ := Reads.append_iff.1 hread
  obtain ⟨behind, hsecond, hv⟩ := Reads.append_iff.1 hread
  have hroom : before.frames.length + (a.length + b.length) ≤ limit := by
    have hframes := frames_le_length hu
    simp only [List.length_append, List.length_cons] at hlimit
    omega
  obtain ⟨between', hsecond, hfirst⟩ := reads_swap hxy ha hb (by omega) (by omega) hroom hfirst hsecond
  exact hu.append (hsecond.append (hfirst.append hv))

end

/-! ## Nesting -/

/-- two neighbouring words that close what they open can change places -/
theorem nested_swap {limit : Nat} {u x y v : List TokenKind} (hx : balance x = 0) (hy : balance y = 0)
    (h : NestedWithin limit 0 (u ++ (x ++ (y ++ v)))) : NestedWithin limit 0 (u ++ (y ++ (x ++ v))) := by
  change OpensWithin limit 0 _ at h
  change OpensWithin limit 0 _
  simp only [opensWithin_append, hx, hy, add_zero] at h ⊢
  obtain ⟨hu, hx, hy, hv⟩ := h
  exact ⟨hu, hy, hx, hv⟩

/-! ## Texts -/

theorem balance_script {a : List TokenKind} {p : Part} (ha : Factor a p) (side : Side) :
    balance (.marker side :: a) = 0 := by
  simp [ha.balance_eq, TokenKind.turn]

/-- a text is read as the same formula when two scripts of it that stand one behind the other change places -/
theorem parse_swap {a b u v : List TokenKind} {p q : Part} {x y : Side} (hxy : x ≠ y) (ha : Factor a p)
    (hb : Factor b q) {input swapped : String} (hinput : kinds input = u ++ (.marker x :: a ++ (.marker y :: b ++ v)))
    (hswapped : kinds swapped = u ++ (.marker y :: b ++ (.marker x :: a ++ v))) {e : Expr} (h : parse input = .ok e) :
    parse swapped = .ok e := by
  obtain ⟨⟨bound, hbound, hderives⟩, hnested⟩ := parseTokens_sound h
  change Derives (kinds input) e bound at hderives
  change NestedWithin Formula.maxDepth 0 (kinds input) at hnested
  rw [hinput] at hderives hnested
  have hderives' : Derives (kinds swapped) e bound := by
    rw [hswapped]
    exact expression_swap hxy ha hb hderives
  have hnested' : NestedWithin Formula.maxDepth 0 (kinds swapped) := by
    rw [hswapped]
    exact nested_swap (balance_script ha x) (balance_script hb y) hnested
  exact parseTokens_complete hderives' hbound hnested' rfl

end FormulaLayout.Notation
