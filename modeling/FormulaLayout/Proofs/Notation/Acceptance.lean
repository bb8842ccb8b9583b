/-
Which texts are formulas, and where the others go wrong.

- `parse_ok_iff_derives`: a text is accepted with a tree exactly if the grammar derives the tree within the limit on
  levels and no delimiter is nested too deep; and a word stands for one tree only.
- `parse_error_first_fault`: a text that is refused by the grammar is refused at the first token that no expression
  goes on with, or at its end if more tokens are needed.

Both rest on reading with a limit that is large enough for everything: there every derivable word is accepted
(`parseTokens_unlimited`), and a fault that is found below the limit is found there as well
(`not_viable_of_step_error`).
-/
import Mathlib.Tactic
import FormulaLayout.Proofs.Notation.Completeness
import FormulaLayout.Proofs.Notation.Soundness

namespace FormulaLayout.Notation

open Grammar

/-! ## Accepted texts -/

theorem derivable_ne_nil {w : List TokenKind} (h : Derivable w) : w ≠ [] := by
  rintro rfl
  obtain ⟨e, b, h⟩ := h
  have hn : NestedWithin b 0 [] := NestedWithin.of_length (Nat.zero_le _)
  have haccept : parseTokens b 0 [] = .ok e := parseTokens_complete h le_rfl hn rfl
  exact absurd haccept nofun

/-- what is accepted is an expression within the limits -/
theorem parseTokens_sound {limit ending : Nat} {ts : List Token} {e : Expr} (h : parseTokens limit ending ts = .ok e) :
    (∃ b ≤ limit, Derives (ts.map Token.kind) e b) ∧ NestedWithin limit 0 (ts.map Token.kind) := by
  cases ts with
  | nil => exact absurd h nofun
  | cons t ts =>
    obtain ⟨s, hread, hfinish⟩ := bind_eq_ok.1 h
    have hspells := Reads.spells hread start_spells
    have hnested := Reads.nested hread start_spells (NestedWithin.of_length (Nat.zero_le _))
    exact ⟨finish_derives hspells hfinish, hnested⟩

/-- a limit that is at least the bound of the word and its length accepts it -/
theorem parseTokens_unlimited {limit ending bound : Nat} {w : List TokenKind} {e : Expr} {ts : List Token}
    (h : Derives w e bound) (hb : bound ≤ limit) (hw : w.length ≤ limit) (hts : ts.map Token.kind = w) :
    parseTokens limit ending ts = .ok e :=
  parseTokens_complete h hb (.of_length hw) hts

/-- tokens that stand for a word, for questions in which their places do not matter -/
def unplaced (w : List TokenKind) : List Token :=
  w.map (⟨·, 0⟩)

theorem map_kind_unplaced (w : List TokenKind) : (unplaced w).map Token.kind = w := by
  simp [unplaced, Function.comp_def]

theorem unplaced_append (u v : List TokenKind) : unplaced (u ++ v) = unplaced u ++ unplaced v :=
  List.map_append

/-- a word is an expression exactly if reading it ends in a level that stands for the part -/
theorem expression_iff_reads (limit : Nat) {w : List TokenKind} {p : Part} (hp : p.levels ≤ limit)
    (hw : w.length ≤ limit) :
    Expression w p ↔ ∃ division run term, Reads limit .start (unplaced w) ⟨[], division, .factor run term⟩ ∧
      levelPart division run term = p := by
  constructor
  · intro h
    exact h.fills hp [] (unplaced w) (map_kind_unplaced w) (.of_length hw)
  · rintro ⟨division, run, term, hread, rfl⟩
    have hspells := hread.spells start_spells
    rw [map_kind_unplaced, List.nil_append] at hspells
    obtain ⟨_, _, ⟨⟩, hlevel, rfl⟩ := hspells
    cases hlevel with
    | factor h ht => exact level_expression h ht

/-- a word stands for one part only -/
theorem expression_unique {w : List TokenKind} {p q : Part} (hp : Expression w p) (hq : Expression w q) : p = q := by
  -- a limit that refuses neither
  set limit := max (max p.levels q.levels) w.length
  obtain ⟨_, _, _, hread, rfl⟩ := (expression_iff_reads limit (by omega) (by omega)).1 hp
  obtain ⟨_, _, _, hread', rfl⟩ := (expression_iff_reads limit (by omega) (by omega)).1 hq
  cases hread.unique hread'
  rfl

/-- a word stands for one tree only -/
theorem derives_unique {w : List TokenKind} {e e' : Expr} {b b' : Nat} (h : Derives w e b) (h' : Derives w e' b') :
    e = e' :=
  congrArg Part.expr (expression_unique h h')

/-- **The parser accepts exactly its grammar.** A text is the tree that the grammar derives for its tokens, if the
bound on its levels keeps to the limit and no delimiter is opened inside as many open ones; and the grammar derives at
most one tree for a word. -/
theorem parse_ok_iff_derives :
    (∀ (input : String) (e : Expr), parse input = .ok e ↔
      (∃ b ≤ Formula.maxDepth, Derives (kinds input) e b) ∧ NestedWithin Formula.maxDepth 0 (kinds input)) ∧
    ∀ (w : List TokenKind) (e e' : Expr) (b b' : Nat), Derives w e b → Derives w e' b' → e = e' := by
  refine ⟨fun input e => ⟨parseTokens_sound, ?_⟩, fun w e e' b b' => derives_unique⟩
  rintro ⟨⟨b, hb, h⟩, hn⟩
  exact parseTokens_complete h hb hn rfl

theorem quotient_accepted : ∃ e, parse "a_b/(cd)" = .ok e ∧
    ((∃ b ≤ Formula.maxDepth, Derives (kinds "a_b/(cd)") e b) ∧ NestedWithin Formula.maxDepth 0 (kinds "a_b/(cd)")) ∧
      ∀ e' b', Derives (kinds "a_b/(cd)") e' b' → e' = e := by
  obtain ⟨e, he⟩ : ∃ e, parse "a_b/(cd)" = .ok e := ⟨_, rfl⟩
  have haccepted := (parse_ok_iff_derives.1 _ e).1 he
  refine ⟨e, he, haccepted, fun e' b' h => ?_⟩
  obtain ⟨b, -, hderives⟩ := haccepted.1
  exact parse_ok_iff_derives.2 _ _ _ _ _ h hderives

/-! ## Refused texts -/

/-- a token that is refused behind some word, not because of a limit, does not go on with it in any expression -/
theorem not_viable_of_step_error {limit : Nat} {before : List Token} {t : Token} {s : State} {e : SyntaxError}
    (hread : Reads limit .start before s) (herr : step limit s t = .error e) (hfault : ¬ e.IsRefusal limit) :
    ¬ Viable ((before ++ [t]).map Token.kind) := by
  rintro ⟨rest, tree, b, h⟩
  set w := (before ++ [t]).map Token.kind ++ rest
  set large := max limit (max b w.length)
  have hts : (before ++ t :: unplaced rest).map Token.kind = w := by simp [w, map_kind_unplaced]
  have haccept : parseTokens large 0 (before ++ t :: unplaced rest) = .ok tree :=
    parseTokens_unlimited h (by omega) (by omega) hts
  -- with the large limit the run reaches the same state and finds the same fault there
  have hread' : Reads large .start before s := (foldlM_lenient .start before).ok_of_le (by omega) hread
  have herr' : step large s t = .error e := (step_lenient s t).error_of_le (by omega) herr hfault
  have hrun : (before ++ t :: unplaced rest).foldlM (step large) State.start = .error e := by
    rw [List.foldlM_append, bind_eq_error]
    exact Or.inr ⟨s, hread', bind_eq_error.2 (Or.inl herr')⟩
  cases htokens : before ++ t :: unplaced rest with
  | nil => simp at htokens
  | cons t' ts =>
    rw [htokens] at haccept hrun
    exact absurd (haccept.symm.trans (bind_eq_error.2 (Or.inl hrun))) nofun

/-- a text that is refused, not because of a limit, is no expression -/
theorem not_derivable_of_error {limit ending : Nat} {ts : List Token} {e : SyntaxError}
    (h : parseTokens limit ending ts = .error e) (hfault : ¬ e.IsRefusal limit) : ¬ Derivable (ts.map Token.kind) := by
  rintro ⟨tree, b, hd⟩
  set large := max limit (max b (ts.map Token.kind).length)
  have haccept : parseTokens large ending ts = .ok tree := parseTokens_unlimited hd (by omega) (by omega) rfl
  have herr : parseTokens large ending ts = .error e :=
    (parseTokens_lenient ending ts).error_of_le (by omega) h hfault
  exact absurd (haccept.symm.trans herr) nofun

/-- the end of the text is refused because a part has too many levels, or behind the last character for a fault of the
text -/
theorem finish_fault {limit ending : Nat} {s : State} {e : SyntaxError} (h : s.finish limit ending = .error e) :
    e.cause = .tooManyLevels limit ∨ e.position = ending ∧ e.cause.isLimit = false ∧ e.cause ≠ .emptyRun := by
  obtain ⟨frames, division, focus⟩ := s
  cases focus with
  | factor run term =>
    rcases bind_eq_error.1 h with h | ⟨whole, -, h⟩
    · exact Or.inl (closeLevel_error h)
    · cases frames with
      | nil => exact absurd h nofun
      | cons frame outer => cases h; exact Or.inr ⟨rfl, rfl, nofun⟩
  | opening => cases h; exact Or.inr ⟨rfl, rfl, nofun⟩
  | marker run term side => cases h; exact Or.inr ⟨rfl, rfl, nofun⟩

theorem finish_error {limit ending : Nat} {s : State} {e : SyntaxError} (h : s.finish limit ending = .error e) :
    e.IsRefusal limit ∨ e.position = ending :=
  (finish_fault h).imp Or.inl And.left

theorem SyntaxError.IsRefusal.cause_ne {limit : Nat} {e : SyntaxError} (h : e.IsRefusal limit) :
    e.cause ≠ .emptyRun := by
  rcases h with h | h <;> rw [h] <;> exact nofun

/-- no text is refused because one of its runs has no terms: a run is closed only behind a term -/
theorem parseTokens_cause_ne {limit ending : Nat} {ts : List Token} {e : SyntaxError}
    (h : parseTokens limit ending ts = .error e) : e.cause ≠ .emptyRun := by
  cases ts with
  | nil => cases h; exact nofun
  | cons t ts =>
    rcases bind_eq_error.1 h with h | ⟨s, -, h⟩
    · obtain ⟨_, _, _, _, -, -, hstep⟩ := foldlM_error h
      exact (step_fault hstep).elim SyntaxError.IsRefusal.cause_ne And.right
    · rcases finish_fault h with hcause | ⟨-, -, hrun⟩
      · exact SyntaxError.IsRefusal.cause_ne (Or.inl hcause)
      · exact hrun

/-- a refusal for a limit says so in its message -/
theorem message_of_refusal {e : SyntaxError} (h : e.IsRefusal Formula.maxDepth) :
    e.message = "delimiters nested more than 128 deep" ∨ e.message = "expression nests deeper than 128 levels" := by
  obtain ⟨position, cause⟩ := e
  rcases h with rfl | rfl
  · exact Or.inr rfl
  · exact Or.inl rfl

/-- **The first impossible token.** A text that is refused with another message than that of a limit is refused at a
token such that the tokens before it begin an expression and those up to it do not; or at the end of the text, if all
its tokens begin an expression but are none. -/
theorem parse_error_first_fault (input : String) (e : SyntaxError) (h : parse input = .error e)
    (hnested : e.message ≠ "delimiters nested more than 128 deep")
    (hlevels : e.message ≠ "expression nests deeper than 128 levels") :
    (∃ before t after, tokenize input = before ++ t :: after ∧ e.position = t.offset ∧
      Viable (before.map Token.kind) ∧ ¬ Viable ((before ++ [t]).map Token.kind)) ∨
    (e.position = (if tokenize input = [] then 0 else input.length) ∧
      Viable (kinds input) ∧ ¬ Derivable (kinds input)) := by
  have hfault : ¬ e.IsRefusal Formula.maxDepth := fun hr => by
    rcases message_of_refusal hr with hm | hm
    · exact hnested hm
    · exact hlevels hm
  have hnone := not_derivable_of_error h hfault
  rw [parse] at h
  rw [kinds]
  cases htokens : tokenize input with
  | nil =>
    rw [htokens] at h
    cases h
    exact Or.inr ⟨rfl, start_spells.viable, fun hd => derivable_ne_nil hd rfl⟩
  | cons t ts =>
    rw [htokens] at h hnone
    rcases bind_eq_error.1 h with h | ⟨s, hread, h⟩
    · obtain ⟨before, t', after, s, hsplit, hread, hstep⟩ := foldlM_error h
      refine Or.inl ⟨before, t', after, hsplit, (step_error hstep).resolve_left hfault, ?_, ?_⟩
      · exact (Reads.spells hread start_spells).viable
      · exact not_viable_of_step_error hread hstep hfault
    · refine Or.inr ⟨by simpa using (finish_error h).resolve_left hfault, ?_, hnone⟩
      exact (Reads.spells hread start_spells).viable

theorem second_subscript_refused :
    (∃ e : SyntaxError, parse "(a_b_c" = .error e ∧ e = ⟨4, .duplicateScript .below⟩ ∧
      e.message ≠ "delimiters nested more than 128 deep" ∧ e.message ≠ "expression nests deeper than 128 levels") ∧
    ((∃ before t after, tokenize "(a_b_c" = before ++ t :: after ∧ 4 = t.offset ∧
      Viable (before.map Token.kind) ∧ ¬ Viable ((before ++ [t]).map Token.kind)) ∨
    (4 = (if tokenize "(a_b_c" = [] then 0 else "(a_b_c".length) ∧
      Viable (kinds "(a_b_c") ∧ ¬ Derivable (kinds "(a_b_c"))) :=
  ⟨⟨_, rfl, rfl, by decide, by decide⟩,
    parse_error_first_fault "(a_b_c" ⟨4, .duplicateScript .below⟩ rfl (by decide) (by decide)⟩

end FormulaLayout.Notation
