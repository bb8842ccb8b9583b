/-
The formulas that are read from some text.

A formula is drawable if it is not too deep, no glyph of it is a character that the notation keeps for itself, and no
base is without a script. The parser makes nothing else: the bound that it keeps for a part is at least the height of
the part (`bounded_closed`), a glyph is always the character of a token, and a term without scripts is its base.

`braced` writes a formula with braces around every part that is not in parentheses. The grammar reads such a text as
the formula it was written from, with the height of the formula as its bound, and its delimiters are nested one less
deep than the formula is high. So the text of a drawable formula keeps to both limits (`parse_braced`).

- `parse_image`: what is read from some text are the drawable formulas.
-/
import FormulaLayout.Proofs.Formula.Levels
import FormulaLayout.Proofs.Formula.Nodes
import FormulaLayout.Proofs.Notation.Acceptance

namespace FormulaLayout

namespace Notation

/-! ## Characters and tokens -/

/-- the characters that are operators or delimiters, and those that are skipped -/
def reserved : List Char :=
  ['^', '_', '/', '(', ')', '\x7b', '\x7d', '\t', '\n', '\r']

/-- the kinds of the tokens that characters make up -/
def spell (cs : List Char) : List TokenKind :=
  (cs.filter (!isSkipped ·)).map TokenKind.ofChar

theorem map_kind_scan (offset : Nat) (cs : List Char) : (scan offset cs).map Token.kind = spell cs := by
  induction cs generalizing offset with
  | nil => rfl
  | cons c cs ih =>
    by_cases hc : isSkipped c
    · simpa [scan, spell, hc] using ih (offset + 1)
    · simpa [scan, spell, hc] using ih (offset + 1)

theorem kinds_eq_spell (input : String) : kinds input = spell input.toList :=
  map_kind_scan 0 input.toList

theorem kinds_ofList (cs : List Char) : kinds (String.ofList cs) = spell cs := by
  rw [kinds_eq_spell, String.toList_ofList]

@[simp]
theorem spell_nil : spell [] = [] := rfl

@[simp]
theorem spell_append (cs ds : List Char) : spell (cs ++ ds) = spell cs ++ spell ds := by
  simp [spell]

theorem spell_cons {c : Char} (hc : isSkipped c = false) (cs : List Char) :
    spell (c :: cs) = .ofChar c :: spell cs := by
  simp [spell, hc]

@[simp]
theorem spell_caret (cs : List Char) : spell ('^' :: cs) = .marker .above :: spell cs :=
  spell_cons rfl cs

@[simp]
theorem spell_underscore (cs : List Char) : spell ('_' :: cs) = .marker .below :: spell cs :=
  spell_cons rfl cs

@[simp]
theorem spell_slash (cs : List Char) : spell ('/' :: cs) = .slash :: spell cs :=
  spell_cons rfl cs

/-- a character that is not reserved is the token that stands for it -/
theorem spell_glyph {c : Char} (hc : c ∉ reserved) : spell [c] = [.char c] := by
  simp only [reserved, List.mem_cons, List.not_mem_nil, or_false, not_or] at hc
  simp [spell, isSkipped, TokenKind.ofChar, hc]

/-- only characters that are not reserved are tokens that stand for themselves -/
theorem not_reserved_of_mem_spell {c : Char} {cs : List Char} (h : .char c ∈ spell cs) : c ∉ reserved := by
  obtain ⟨d, hd, hkind⟩ := List.mem_map.1 h
  have hskip : isSkipped d = false := by simpa using (List.mem_filter.1 hd).2
  unfold TokenKind.ofChar at hkind
  split_ifs at hkind
  obtain rfl : d = c := by simpa using hkind
  simp only [isSkipped, Bool.or_eq_false_iff, beq_eq_false_iff_ne] at hskip
  simp_all [reserved]

end Notation

/-! ## Drawable formulas -/

namespace Formula

open Notation (reserved spell)

variable {δ : Type}

/-- the node has a notation: its glyph is not reserved, its base has a script -/
def Writable : Formula δ → Prop
  | .char _ c => c ∉ reserved
  | .scripts _ _ p s => p.isSome ∨ s.isSome
  | _ => True

/-- the formula is not too deep, and all its nodes have a notation -/
structure Drawable (e : Expr) : Prop where
  depth_le : e.depth ≤ maxDepth
  writable : ∀ n ∈ e.nodes, n.Writable

theorem Drawable.height_le {e : Expr} (h : Drawable e) : e.height ≤ maxDepth := by
  rw [← depth_eq_height]
  exact h.depth_le

/-- the text between braces -/
def inBraces (cs : List Char) : List Char :=
  '\x7b' :: (cs ++ ['\x7d'])

/-- the notation of a formula with braces around all its parts -/
def braced : Formula δ → List Char
  | .char _ c => [c]
  | .concat _ l r => inBraces l.braced ++ inBraces r.braced
  | .fraction _ n m => inBraces n.braced ++ '/' :: inBraces m.braced
  | .scripts _ b p s =>
    inBraces b.braced ++ (match p with | none => [] | some p => '^' :: inBraces p.braced)
      ++ (match s with | none => [] | some s => '_' :: inBraces s.braced)
  | .paren _ t => '(' :: (t.braced ++ [')'])
termination_by structural t => t

theorem braced_scripts (d : δ) (b : Formula δ) (p s : Option (Formula δ)) :
    braced (.scripts d b p s) =
      inBraces b.braced ++ p.elim [] ('^' :: inBraces ·.braced) ++ s.elim [] ('_' :: inBraces ·.braced) := by
  cases p <;> cases s <;> rfl

end Formula

namespace Notation

open Formula (Writable Drawable inBraces)

/-! ## What the parser makes is drawable -/

/-- the part is no higher than its bound -/
def Part.Bounded (p : Part) : Prop :=
  p.expr.height ≤ p.levels

theorem bounded_closed : Grammar.Closed (fun _ => True) Part.Bounded where
  char c _ := le_rfl
  inParens p hp := Nat.add_le_add_left hp 1
  scripted p sup sub hp hsup hsub := by
    have hslot : ∀ slot : Option Part, (∀ q ∈ slot, q.Bounded) →
        (slot.map Part.expr).elim 0 Formula.height ≤ slot.elim 0 Part.levels := by
      intro slot hslot
      cases slot with
      | none => exact le_rfl
      | some q => exact hslot q rfl
    have habove := hslot sup hsup
    have hbelow := hslot sub hsub
    unfold Part.Bounded Part.scripted at *
    split
    · exact hp
    · rw [Formula.withScripts, Formula.height_scripts]
      dsimp only
      omega
  dividedBy p q hp hq := by
    unfold Part.Bounded at *
    simp only [Part.dividedBy, Formula.divide, Formula.height]
    omega
  joined ps e hps he := by
    unfold Part.Bounded at *
    have hterms : ∀ t ∈ ps.map Part.expr, t.height ≤ Part.maxLevels ps := by
      intro t ht
      obtain ⟨p, hp, rfl⟩ := List.mem_map.1 ht
      exact (hps p hp).trans (Part.le_maxLevels hp)
    simpa using Formula.height_concatAll_le he hterms

/-- **What is read is never too deep.** -/
theorem parse_depth_le {input : String} {e : Expr} (h : parse input = .ok e) : e.depth ≤ Formula.maxDepth := by
  obtain ⟨⟨b, hb, hderives⟩, -⟩ := parseTokens_sound h
  rw [Formula.depth_eq_height]
  exact (Grammar.Expression.holds bounded_closed hderives fun _ _ => trivial).trans hb

/-- all nodes of a join have a notation if those of its run do -/
theorem writable_of_grouping {terms : List Expr} {e : Expr} (h : Formula.Grouping terms e)
    (hterms : ∀ t ∈ terms, ∀ n ∈ t.nodes, n.Writable) : ∀ n ∈ e.nodes, n.Writable := by
  induction h with
  | single t => exact hterms t (by simp)
  | join hl hr ihl ihr =>
    have hleft := ihl fun t ht => hterms t (by simp [ht])
    have hright := ihr fun t ht => hterms t (by simp [ht])
    exact Formula.forall_nodes_concat.2 ⟨trivial, hleft, hright⟩

theorem writable_closed : Grammar.Closed (· ∉ reserved) fun p => ∀ n ∈ p.expr.nodes, n.Writable where
  char c hc := Formula.forall_nodes_char.2 hc
  inParens p hp := Formula.forall_nodes_paren.2 ⟨trivial, hp⟩
  scripted p sup sub hp hsup hsub := by
    have hslot : ∀ slot : Option Part, (∀ q ∈ slot, ∀ n ∈ q.expr.nodes, n.Writable) →
        ∀ t ∈ slot.map Part.expr, ∀ n ∈ t.nodes, n.Writable := by
      intro slot hslot t ht
      obtain ⟨q, hq, rfl⟩ := Option.mem_map.1 ht
      exact hslot q hq
    have habove := hslot sup hsup
    have hbelow := hslot sub hsub
    unfold Part.scripted
    split
    · exact hp
    · rename_i hscript
      refine Formula.forall_nodes_scripts.2 ⟨?_, hp, habove, hbelow⟩
      cases sup with
      | none =>
        cases sub with
        | none => exact absurd rfl (hscript rfl)
        | some sub => exact Or.inr rfl
      | some sup => exact Or.inl rfl
  dividedBy p q hp hq := Formula.forall_nodes_fraction.2 ⟨trivial, hp, hq⟩
  joined ps e hps he := by
    refine writable_of_grouping (Formula.grouping_of_concatAll he) fun t ht => ?_
    obtain ⟨p, hp, rfl⟩ := List.mem_map.1 ht
    exact hps p hp

/-- what is read is drawable -/
theorem drawable_of_parse {input : String} {e : Expr} (h : parse input = .ok e) : e.Drawable := by
  obtain ⟨⟨b, -, hderives⟩, -⟩ := parseTokens_sound h
  have hglyphs : ∀ c, .char c ∈ kinds input → c ∉ reserved := by
    intro c hc
    rw [kinds_eq_spell] at hc
    exact not_reserved_of_mem_spell hc
  exact ⟨parse_depth_le h, Grammar.Expression.holds writable_closed hderives hglyphs⟩

/-! ## Reading braced text -/

@[simp]
theorem spell_inBraces (cs : List Char) :
    spell (inBraces cs) = .opener .brace :: (spell cs ++ [.closer .brace]) := by
  rw [inBraces, spell_cons rfl, spell_append]
  rfl

theorem Grammar.Term.expression {w : List TokenKind} {p : Part} {sup sub : Option Part}
    (h : Grammar.Term w p sup sub) : Grammar.Expression w (p.scripted sup sub) := by
  have hterms : Grammar.Terms w [p.scripted sup sub] := Grammar.Terms.nil.snoc h
  have hrun := Grammar.Run.join hterms (e := (p.scripted sup sub).expr) rfl
  simpa [Part.maxLevels] using Grammar.Expression.run hrun

theorem Grammar.Factor.expression {w : List TokenKind} {p : Part} (h : Grammar.Factor w p) :
    Grammar.Expression w p :=
  (Grammar.Term.base h).expression

/-- two factors side by side -/
theorem Grammar.Factor.beside {u v : List TokenKind} {p q : Part} (h : Grammar.Factor u p) (h' : Grammar.Factor v q) :
    Grammar.Expression (u ++ v) ⟨Formula.adjoin p.expr q.expr, 1 + max p.levels q.levels⟩ := by
  have hterms : Grammar.Terms (u ++ v) [p, q] := (Grammar.Terms.nil.snoc (.base h)).snoc (.base h')
  have hjoin : Formula.concatAll ([p, q].map Part.expr) = some (Formula.adjoin p.expr q.expr) := by
    simp [Formula.concatAll, Formula.joinWithin]
  have hlevels : Nat.clog 2 [p, q].length + Part.maxLevels [p, q] = 1 + max p.levels q.levels := by
    simp [Part.maxLevels, Formula.clog_half]
  rw [← hlevels]
  exact .run (.join hterms hjoin)

/-- one factor over another -/
theorem Grammar.Factor.over {u v : List TokenKind} {p q : Part} (h : Grammar.Factor u p) (h' : Grammar.Factor v q) :
    Grammar.Expression (u ++ .slash :: v) (p.dividedBy q) := by
  have hrun : Grammar.Run v q := by
    have hterms : Grammar.Terms v [q] := Grammar.Terms.nil.snoc (.base h')
    simpa [Part.maxLevels] using Grammar.Run.join hterms (e := q.expr) rfl
  exact .division h.expression hrun

/-- **Braced text is read as the formula it was written from**, and its bound is the height. -/
theorem braced_derives (e : Expr) (he : ∀ n ∈ e.nodes, n.Writable) :
    Grammar.Expression (spell e.braced) ⟨e, e.height⟩ := by
  induction e using Formula.ind with
  | char d c =>
    have hc : c ∉ reserved := Formula.forall_nodes_char.1 he
    rw [Formula.braced, spell_glyph hc]
    exact (Grammar.Factor.char c).expression
  | concat d l r hl hr =>
    obtain ⟨-, hel, her⟩ := Formula.forall_nodes_concat.1 he
    have hleft := Grammar.Factor.brace (hl hel)
    have hright := Grammar.Factor.brace (hr her)
    rw [Formula.braced, spell_append, spell_inBraces, spell_inBraces]
    exact hleft.beside hright
  | fraction d n m hn hm =>
    obtain ⟨-, hen, hem⟩ := Formula.forall_nodes_fraction.1 he
    have hnum := Grammar.Factor.brace (hn hen)
    have hden := Grammar.Factor.brace (hm hem)
    rw [Formula.braced, spell_append, spell_cons rfl, spell_inBraces, spell_inBraces]
    exact hnum.over hden
  | scripts d b p s hb hp hs =>
    obtain ⟨hscript, heb, hep, hes⟩ := Formula.forall_nodes_scripts.1 he
    have hbase := Grammar.Term.base (.brace (hb heb))
    cases p with
    | none =>
      cases s with
      | none => simp [Formula.Writable] at hscript
      | some s =>
        have hsub := Grammar.Factor.brace (hs s rfl (hes s rfl))
        simp only [Formula.braced, spell_append, spell_underscore, spell_inBraces, List.append_nil]
        exact (hbase.subscript hsub).expression
    | some p =>
      have hsup := Grammar.Factor.brace (hp p rfl (hep p rfl))
      cases s with
      | none =>
        simp only [Formula.braced, spell_append, spell_caret, spell_inBraces, List.append_nil]
        exact (hbase.superscript hsup).expression
      | some s =>
        have hsub := Grammar.Factor.brace (hs s rfl (hes s rfl))
        simp only [Formula.braced, spell_append, spell_caret, spell_underscore, spell_inBraces]
        exact ((hbase.superscript hsup).subscript hsub).expression
  | paren d t ht =>
    obtain ⟨-, het⟩ := Formula.forall_nodes_paren.1 he
    rw [Formula.braced, spell_cons rfl, spell_append]
    exact (Grammar.Factor.paren (ht het)).expression

/-- braces around a part take one level of room -/
theorem inBraces_contained {limit outer : Nat} {cs : List Char} (hroom : outer < limit)
    (h : Contained limit (outer + 1) (spell cs)) : Contained limit outer (spell (inBraces cs)) := by
  rw [spell_inBraces]
  exact h.group hroom

/-- the delimiters of braced text are nested one less deep than the formula is high -/
theorem braced_contained {limit : Nat} (e : Expr) (he : ∀ n ∈ e.nodes, n.Writable) {outer : Nat}
    (h : outer + e.height ≤ limit) : Contained limit outer (spell e.braced) := by
  induction e using Formula.ind generalizing outer with
  | char d c =>
    have hc : c ∉ reserved := Formula.forall_nodes_char.1 he
    rw [Formula.braced, spell_glyph hc]
    exact Contained.nil.cons rfl
  | concat d l r hl hr =>
    obtain ⟨-, hel, her⟩ := Formula.forall_nodes_concat.1 he
    simp only [Formula.height] at h
    rw [Formula.braced, spell_append]
    apply Contained.append
    · exact inBraces_contained (by omega) (hl hel (by omega))
    · exact inBraces_contained (by omega) (hr her (by omega))
  | fraction d n m hn hm =>
    obtain ⟨-, hen, hem⟩ := Formula.forall_nodes_fraction.1 he
    simp only [Formula.height] at h
    rw [Formula.braced, spell_append, spell_slash]
    apply Contained.append
    · exact inBraces_contained (by omega) (hn hen (by omega))
    · apply Contained.cons rfl
      exact inBraces_contained (by omega) (hm hem (by omega))
  | scripts d b p s hb hp hs =>
    obtain ⟨-, heb, hep, hes⟩ := Formula.forall_nodes_scripts.1 he
    rw [Formula.height_scripts] at h
    rw [Formula.braced_scripts, spell_append, spell_append]
    refine Contained.append (.append ?_ ?_) ?_
    · exact inBraces_contained (by omega) (hb heb (by omega))
    · cases p with
      | none => exact .nil
      | some p =>
        simp only [Option.elim_some] at h ⊢
        rw [spell_caret]
        apply Contained.cons rfl
        exact inBraces_contained (by omega) (hp p rfl (hep p rfl) (by omega))
    · cases s with
      | none => exact .nil
      | some s =>
        simp only [Option.elim_some] at h ⊢
        rw [spell_underscore]
        apply Contained.cons rfl
        exact inBraces_contained (by omega) (hs s rfl (hes s rfl) (by omega))
  | paren d t ht =>
    obtain ⟨-, het⟩ := Formula.forall_nodes_paren.1 he
    simp only [Formula.height] at h
    rw [Formula.braced, spell_cons rfl, spell_append]
    exact (ht het (by omega)).group (by omega)

/-- a drawable formula is read from its braced text -/
theorem parse_braced {e : Expr} (he : e.Drawable) : parse (String.ofList e.braced) = .ok e := by
  have hheight := he.height_le
  have hnested : NestedWithin Formula.maxDepth 0 (spell e.braced) :=
    (braced_contained e he.writable (by omega)).nested
  exact parseTokens_complete (braced_derives e he.writable) hheight hnested (kinds_ofList e.braced)

/-- **What is read from some text are the drawable formulas**, and each of them is read from its braced text. -/
theorem parse_image :
    (∀ e : Expr, (∃ input, parse input = .ok e) ↔ e.Drawable) ∧
      ∀ e : Expr, e.Drawable → parse (String.ofList e.braced) = .ok e := by
  refine ⟨fun e => ⟨?_, ?_⟩, fun e he => parse_braced he⟩
  · rintro ⟨input, h⟩
    exact drawable_of_parse h
  · intro he
    exact ⟨_, parse_braced he⟩

/-- a quotient in parentheses, with its scripts in the other order and braces that the tree does not need -/
theorem scripted_quotient_rewritten :
    ∃ e, parse "(a/bc)_i^\x7b2\x7d" = .ok e ∧ e.Drawable ∧
      parse "\x7b(\x7ba\x7d/\x7b\x7bb\x7d\x7bc\x7d\x7d)\x7d^\x7b2\x7d_\x7bi\x7d" = .ok e := by
  obtain ⟨e, he⟩ : ∃ e, parse "(a/bc)_i^\x7b2\x7d" = .ok e := ⟨_, rfl⟩
  have htext : (parse "(a/bc)_i^\x7b2\x7d").toOption.map (fun e => String.ofList e.braced) =
      some "\x7b(\x7ba\x7d/\x7b\x7bb\x7d\x7bc\x7d\x7d)\x7d^\x7b2\x7d_\x7bi\x7d" := by decide +kernel
  have hdrawable := (parse_image.1 e).1 ⟨_, he⟩
  rw [he] at htext
  refine ⟨e, he, hdrawable, ?_⟩
  rw [← Option.some.inj htext]
  exact parse_image.2 e hdrawable

end Notation

end FormulaLayout
