/-
What has been read is a word of the grammar so far.

`State.Spells` relates a state to the word in front of it: each frame has a division, a run and a term begun on its
level, followed by its opener. One move keeps it (`Moves.spells`), hence a run does (`Reads.spells`).

- `finish_derives`: a formula that the reader accepts is an expression for its whole word.
- `State.Spells.viable`: whatever has been read can be completed. The current level is closed, with a glyph where a
  factor is missing, and the frames are closed from the inside out.
- `Reads.nested`: the openers among the tokens read have kept the limit.
-/
import Mathlib.Tactic
import FormulaLayout.Proofs.Notation.Steps

namespace FormulaLayout.Notation

open Grammar

/-! ## The word of a state -/

/-- the word of a division in front of its denominator -/
inductive DivisionSpells : Option Division → List TokenKind → Prop
  | none : DivisionSpells none []
  | some {w : List TokenKind} {numerator : Part} {slash : Nat} (h : Expression w numerator) :
    DivisionSpells (some ⟨numerator, slash⟩) (w ++ [.slash])

/-- the word of a level in front of its current term: a division and the terms before -/
def RunSpells (division : Option Division) (run : Run) (w : List TokenKind) : Prop :=
  ∃ u v, DivisionSpells division u ∧ Terms v run.terms.reverse ∧ w = u ++ v

/-- the word of a level -/
inductive FocusSpells (division : Option Division) : Focus → List TokenKind → Prop
  | opening {w : List TokenKind} (h : DivisionSpells division w) : FocusSpells division .opening w
  | factor {u v : List TokenKind} {run : Run} {term : Term} (h : RunSpells division run u)
    (ht : Grammar.Term v term.base term.superscript term.subscript) :
    FocusSpells division (.factor run term) (u ++ v)
  | marker {u v : List TokenKind} {run : Run} {term : Term} {side : Side} (h : RunSpells division run u)
    (ht : Grammar.Term v term.base term.superscript term.subscript) (hside : term.script? side = none) :
    FocusSpells division (.marker run term side) (u ++ v ++ [.marker side])

/-- the word of a level in front of a factor -/
inductive SlotSpells (division : Option Division) : Slot → List TokenKind → Prop
  | base {w : List TokenKind} {run : Run} (h : RunSpells division run w) : SlotSpells division (.base run) w
  | script {u v : List TokenKind} {run : Run} {term : Term} {side : Side} (h : RunSpells division run u)
    (ht : Grammar.Term v term.base term.superscript term.subscript) (hside : term.script? side = none) :
    SlotSpells division (.script run term side) (u ++ v ++ [.marker side])

/-- the word of the levels around the current one -/
inductive FramesSpell : List Frame → List TokenKind → Prop
  | nil : FramesSpell [] []
  | cons {u v : List TokenKind} {frame : Frame} {outer : List Frame} (h : FramesSpell outer u)
    (hslot : SlotSpells frame.division frame.slot v) :
    FramesSpell (frame :: outer) (u ++ v ++ [.opener frame.delimiter])

/-- the word of a state: the frames and then the current level -/
def State.Spells (s : State) (w : List TokenKind) : Prop :=
  ∃ u v, FramesSpell s.frames u ∧ FocusSpells s.division s.focus v ∧ w = u ++ v

theorem start_spells : State.start.Spells [] :=
  ⟨[], [], .nil, .opening .none, rfl⟩

/-! ## Closing a level -/

/-- a run that has a term is a phrase, and its join is the one that closing gives -/
theorem run_of_terms {w : List TokenKind} {run : Run} {last : Part} (h : Terms w (run.terms.reverse ++ [last])) :
    Grammar.Run w (run.part last) := by
  have hne : (run.terms.reverse ++ [last]).map Part.expr ≠ [] := by simp
  obtain ⟨e, he⟩ := Formula.concatAll_isSome hne
  have hpart : run.part last = ⟨e, Nat.clog 2 (run.terms.reverse ++ [last]).length
      + Part.maxLevels (run.terms.reverse ++ [last])⟩ := by
    simp only [Run.part, List.reverse_cons, he, Option.getD_some]
  rw [hpart]
  exact .join h he

/-- a level with a term is an expression, for the part that closing gives -/
theorem level_expression {division : Option Division} {run : Run} {term : Term} {u v : List TokenKind}
    (h : RunSpells division run u) (ht : Grammar.Term v term.base term.superscript term.subscript) :
    Expression (u ++ v) (levelPart division run term) := by
  obtain ⟨x, y, hx, hy, rfl⟩ := h
  have hrun : Grammar.Run (y ++ v) (run.part term.part) := run_of_terms (hy.snoc ht)
  cases hx with
  | none => exact .run hrun
  | some hnum => simpa [levelPart] using Expression.division hnum hrun

theorem closeLevel_expression {limit : Nat} {division : Option Division} {run : Run} {term : Term} {p : Part}
    {w : List TokenKind} (h : FocusSpells division (.factor run term) w)
    (hp : closeLevel limit division run term = .ok p) : Expression w p := by
  cases h with
  | factor h ht =>
    rw [(closeLevel_yields limit division run term).eq_of_ok hp]
    exact level_expression h ht

/-! ## Where a factor goes -/

/-- a term that is finished joins the terms of its run -/
theorem RunSpells.push {division : Option Division} {run : Run} {term : Term} {u v : List TokenKind}
    (h : RunSpells division run u) (ht : Grammar.Term v term.base term.superscript term.subscript) :
    RunSpells division (run.push term.part) (u ++ v) := by
  obtain ⟨x, y, hx, hy, rfl⟩ := h
  refine ⟨x, y ++ v, hx, ?_, List.append_assoc _ _ _⟩
  simpa [Run.push, Term.part] using hy.snoc ht

theorem slot_spells {limit offset : Nat} {division : Option Division} {focus : Focus} {slot : Slot}
    {w : List TokenKind} (h : FocusSpells division focus w) (hslot : focus.slot limit offset = .ok slot) :
    SlotSpells division slot w := by
  cases h with
  | opening h =>
    cases hslot
    exact .base ⟨w, [], h, .nil, (List.append_nil w).symm⟩
  | factor h ht =>
    obtain ⟨last, hlast, hslot⟩ := bind_eq_ok.1 hslot
    rw [(Term.close_yields limit _).eq_of_ok hlast] at hslot
    cases hslot
    exact .base (h.push ht)
  | marker h ht hside =>
    cases hslot
    exact .script h ht hside

/-- a script goes to the side that was free -/
theorem attach_term {term : Term} {side : Side} {p : Part} {u v : List TokenKind}
    (ht : Grammar.Term u term.base term.superscript term.subscript) (hside : term.script? side = none)
    (hp : Factor v p) :
    Grammar.Term (u ++ .marker side :: v) (term.attach p side).base (term.attach p side).superscript
      (term.attach p side).subscript := by
  obtain ⟨base, sup, sub, offset⟩ := term
  cases side with
  | above => cases hside; exact .superscript ht hp
  | below => cases hside; exact .subscript ht hp

theorem fill_spells {division : Option Division} {slot : Slot} {p : Part} {u v : List TokenKind}
    (h : SlotSpells division slot u) (hp : Factor v p) : FocusSpells division (slot.fill p) (u ++ v) := by
  cases h with
  | base h => exact .factor h (.base hp)
  | script h ht hside => simpa [Slot.fill] using FocusSpells.factor h (attach_term ht hside hp)

/-- a group with its delimiters is a factor -/
theorem group_factor (frame : Frame) {inside : Part} {w : List TokenKind} (h : Expression w inside) :
    Factor (.opener frame.delimiter :: (w ++ [.closer frame.delimiter])) (frame.part inside) := by
  unfold Frame.part
  cases frame.delimiter with
  | paren => exact .paren h
  | brace => exact .brace h

/-! ## Steps and runs -/

/-- one token more is one token more in the word -/
theorem Moves.spells {limit : Nat} {s s' : State} {t : Token} {w : List TokenKind} (hm : Moves limit s t s')
    (h : s.Spells w) : s'.Spells (w ++ [t.kind]) := by
  obtain ⟨u, v, hu, hv, rfl⟩ := h
  rw [List.append_assoc]
  cases hm with
  | char hslot => exact ⟨u, _, hu, fill_spells (slot_spells hv hslot) (.char _), rfl⟩
  | opener hslot hroom =>
    exact ⟨_, [], @FramesSpell.cons _ _ ⟨_, _, _, _⟩ _ hu (slot_spells hv hslot), .opening .none, by simp⟩
  | marker hside =>
    cases hv with
    | factor h ht => exact ⟨u, _, hu, .marker h ht hside, rfl⟩
  | slash hclose => exact ⟨u, _, hu, .opening (.some (closeLevel_expression hv hclose)), rfl⟩
  | closer hclose hgroup =>
    rw [(Frame.wrap_yields limit _ _).eq_of_ok hgroup]
    cases hu with
    | cons hu hslot =>
      refine ⟨_, _, hu, fill_spells hslot (group_factor _ (closeLevel_expression hv hclose)), by simp⟩

/-- the word of the state behind a run -/
theorem Reads.spells {limit : Nat} {s s' : State} {ts : List Token} {w : List TokenKind} (hr : Reads limit s ts s')
    (h : s.Spells w) : s'.Spells (w ++ ts.map Token.kind) := by
  induction ts generalizing s w with
  | nil => cases hr; simpa using h
  | cons t ts ih =>
    obtain ⟨s1, hstep, hr⟩ := bind_eq_ok.1 hr
    simpa using ih hr ((moves_of_step hstep).spells h)

/-- a formula that is accepted at the end is an expression for the whole word, and keeps to the limit -/
theorem finish_derives {limit ending : Nat} {s : State} {e : Expr} {w : List TokenKind} (h : s.Spells w)
    (he : s.finish limit ending = .ok e) : ∃ b ≤ limit, Derives w e b := by
  obtain ⟨frames, division, focus⟩ := s
  obtain ⟨u, v, hu, hv, rfl⟩ := h
  cases hfocus : focus with
  | factor run term =>
    subst hfocus
    obtain ⟨whole, hwhole, he⟩ := bind_eq_ok.1 he
    cases hu with
    | nil =>
      cases he
      exact ⟨whole.levels, closeLevel_le hwhole, closeLevel_expression hv hwhole⟩
    | cons hu hslot => exact absurd he nofun
  | opening => subst hfocus; exact absurd he nofun
  | marker run term side => subst hfocus; exact absurd he nofun

/-! ## Completing what has been read -/

theorem slot_completable {division : Option Division} {slot : Slot} {p : Part} {u v : List TokenKind}
    (h : SlotSpells division slot u) (hp : Factor v p) : ∃ q, Expression (u ++ v) q := by
  cases h with
  | base h =>
    have hterm : Grammar.Term v (Term.ofBase p).base (Term.ofBase p).superscript (Term.ofBase p).subscript := .base hp
    exact ⟨_, level_expression h hterm⟩
  | script h ht hside => exact ⟨_, by simpa using level_expression h (attach_term ht hside hp)⟩

/-- the current level is an expression, if need be with one more glyph -/
theorem level_completable {division : Option Division} {focus : Focus} {w : List TokenKind}
    (h : FocusSpells division focus w) : ∃ z q, Expression (w ++ z) q := by
  have hglyph : Factor [.char 'x'] ⟨Formula.character 'x', 1⟩ := .char 'x'
  cases h with
  | opening h =>
    have hslot : SlotSpells division (.base ⟨0, []⟩) w := .base ⟨w, [], h, .nil, (List.append_nil w).symm⟩
    exact ⟨_, slot_completable hslot hglyph⟩
  | factor h ht => exact ⟨[], _, by simpa using level_expression h ht⟩
  | marker h ht hside => exact ⟨_, slot_completable (.script h ht hside) hglyph⟩

/-- open delimiters are closed from the inside out -/
theorem frames_completable {frames : List Frame} {u v : List TokenKind} {p : Part} (h : FramesSpell frames u)
    (hp : Expression v p) : ∃ z q, Expression (u ++ v ++ z) q := by
  induction h generalizing v p with
  | nil => exact ⟨[], p, by simpa using hp⟩
  | @cons u x frame outer h hslot ih =>
    obtain ⟨q, hq⟩ := slot_completable hslot (group_factor frame hp)
    obtain ⟨z, r, hr⟩ := ih hq
    exact ⟨.closer frame.delimiter :: z, r, by simpa using hr⟩

/-- **What has been read begins an expression.** -/
theorem State.Spells.viable {s : State} {w : List TokenKind} (h : s.Spells w) : Viable w := by
  obtain ⟨u, v, hu, hv, rfl⟩ := h
  obtain ⟨y, p, hp⟩ := level_completable hv
  obtain ⟨z, q, hq⟩ := frames_completable hu hp
  exact ⟨y ++ z, q.expr, q.levels, by simpa [Derives] using hq⟩

/-! ## Open delimiters -/

theorem RunSpells.balance_eq {division : Option Division} {run : Run} {w : List TokenKind}
    (h : RunSpells division run w) : balance w = 0 := by
  obtain ⟨u, v, hu, hv, rfl⟩ := h
  cases hu with
  | none => simp [hv.balance_eq]
  | some hnum => simp [hv.balance_eq, hnum.balance_eq, TokenKind.turn]

theorem SlotSpells.balance_eq {division : Option Division} {slot : Slot} {w : List TokenKind}
    (h : SlotSpells division slot w) : balance w = 0 := by
  cases h with
  | base h => exact h.balance_eq
  | script h ht hside => simp [h.balance_eq, ht.balance_eq, TokenKind.turn]

theorem FocusSpells.balance_eq {division : Option Division} {focus : Focus} {w : List TokenKind}
    (h : FocusSpells division focus w) : balance w = 0 := by
  cases h with
  | opening h =>
    have hrun : RunSpells division ⟨0, []⟩ w := ⟨w, [], h, .nil, (List.append_nil w).symm⟩
    exact hrun.balance_eq
  | factor h ht => simp [h.balance_eq, ht.balance_eq]
  | marker h ht hside => simp [h.balance_eq, ht.balance_eq, TokenKind.turn]

theorem FramesSpell.balance_eq {frames : List Frame} {w : List TokenKind} (h : FramesSpell frames w) :
    balance w = frames.length := by
  induction h with
  | nil => rfl
  | cons h hslot ih => simp [ih, hslot.balance_eq, TokenKind.turn]

/-- the frames of a state are the delimiters that its word leaves open -/
theorem State.Spells.balance_eq {s : State} {w : List TokenKind} (h : s.Spells w) : balance w = s.frames.length := by
  obtain ⟨u, v, hu, hv, rfl⟩ := h
  simp [hu.balance_eq, hv.balance_eq]

/-- the openers of a run have kept the limit -/
theorem Reads.nested {limit : Nat} {s s' : State} {ts : List Token} {w : List TokenKind} (hr : Reads limit s ts s')
    (h : s.Spells w) (hw : NestedWithin limit 0 w) : NestedWithin limit 0 (w ++ ts.map Token.kind) := by
  induction ts generalizing s w with
  | nil => simpa using hw
  | cons t ts ih =>
    obtain ⟨s1, hstep, hr⟩ := bind_eq_ok.1 hr
    have hm := moves_of_step hstep
    have hnext : NestedWithin limit 0 (w ++ [t.kind]) := by
      refine hw.snoc fun d hd => ?_
      rw [h.balance_eq]
      cases hm with
      | opener hslot hroom => simpa using hroom
      | _ => exact absurd hd nofun
    simpa using ih hr (hm.spells h) hnext

end FormulaLayout.Notation
