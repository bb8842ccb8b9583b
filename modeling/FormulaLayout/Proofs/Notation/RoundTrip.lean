/-
Reading back the text of a formula.

`Formula.source` writes no braces, so what is written need not read back as the formula. It does if the formula was read
from a text without braces: then every part of a term is a factor as it stands, and a phrase of the grammar stands for
the same part when it is written again (`Expression.written`). The delimiters that are left are the parentheses of the
tree, which are nested less deep than the tree is high (`source_contained`), so both limits are kept a second time.

What may change is the order of two scripts: a word of the grammar in which no term takes its subscript first is written
as it was read (`Expression.source_eq`).

- `parse_value`: the text of a formula that was read from a text without braces is read as the same formula; and it is
  the text it was read from, less the characters that are skipped, if no term had its subscript first.
-/
import Mathlib.Tactic
import FormulaLayout.Formula.Source
import FormulaLayout.Proofs.Notation.Image

namespace FormulaLayout

namespace Notation

open Formula (source)
open Grammar

/-! ## Characters of tokens -/

namespace TokenKind

/-- the character that is the token -/
def symbol : TokenKind → Char
  | char c => c
  | marker .above => '^'
  | marker .below => '_'
  | slash => '/'
  | opener .paren => '('
  | closer .paren => ')'
  | opener .brace => '\x7b'
  | closer .brace => '\x7d'

theorem symbol_ofChar (c : Char) : (ofChar c).symbol = c := by
  unfold ofChar
  split_ifs with h1 h2 h3 h4 h5 h6 h7
  all_goals simp [symbol, *]

end TokenKind

/-- the characters of the tokens of a text are those that are not skipped -/
theorem map_symbol_kinds (input : String) :
    (kinds input).map TokenKind.symbol = input.toList.filter (!isSkipped ·) := by
  rw [kinds_eq_spell, spell, List.map_map]
  exact List.map_id'' TokenKind.symbol_ofChar _

/-- a text in parentheses -/
theorem spell_inParens (cs : List Char) :
    spell ('(' :: cs ++ [')']) = .opener .paren :: (spell cs ++ [.closer .paren]) := by
  rw [List.cons_append, spell_cons rfl, spell_append]
  rfl

/-- the text of a term is that of its base and of its scripts with their markers -/
theorem Part.source_scripted (p : Part) (sup sub : Option Part) :
    (p.scripted sup sub).expr.source =
      p.expr.source ++ sup.elim [] ('^' :: ·.expr.source) ++ sub.elim [] ('_' :: ·.expr.source) := by
  cases sup <;> cases sub <;> simp [scripted, Formula.withScripts, source]

/-! ## Words without braces -/

/-- no token of the word opens a brace, and those that stand for themselves are not reserved -/
structure Plain (w : List TokenKind) : Prop where
  no_brace : .opener .brace ∉ w
  glyphs : ∀ c, .char c ∈ w → c ∉ reserved

theorem Plain.of_subset {u w : List TokenKind} (h : Plain w) (hu : u ⊆ w) : Plain u where
  no_brace hopener := h.no_brace (hu hopener)
  glyphs c hc := h.glyphs c (hu hc)

section

variable {u v w : List TokenKind} {k : TokenKind}

theorem Plain.left (h : Plain (u ++ v)) : Plain u :=
  h.of_subset (List.subset_append_left u v)

theorem Plain.right (h : Plain (u ++ v)) : Plain v :=
  h.of_subset (List.subset_append_right u v)

theorem Plain.tail (h : Plain (k :: w)) : Plain w :=
  h.of_subset (List.subset_cons_self k w)

end

/-- the tokens of a text without an opening brace -/
theorem plain_kinds {input : String} (h : '\x7b' ∉ input.toList) : Plain (kinds input) := by
  rw [kinds_eq_spell]
  refine ⟨?_, fun c => not_reserved_of_mem_spell⟩
  intro hopener
  obtain ⟨c, hc, hkind⟩ := List.mem_map.1 hopener
  have hbrace : c = '\x7b' := by rw [← TokenKind.symbol_ofChar c, hkind]; rfl
  rw [hbrace] at hc
  exact h (List.mem_of_mem_filter hc)

/-! ## What is written is read as the same part -/

/-- the text of the part is a factor for it -/
def Part.Written (p : Part) : Prop :=
  Factor (spell p.expr.source) p

/-- a base and scripts that are factors as they stand are written as a term, the superscript first -/
theorem term_written {p : Part} {sup sub : Option Part} (hp : p.Written) (hsup : ∀ q ∈ sup, q.Written)
    (hsub : ∀ q ∈ sub, q.Written) : Grammar.Term (spell (p.scripted sup sub).expr.source) p sup sub := by
  have habove : Grammar.Term (spell (p.expr.source ++ sup.elim [] ('^' :: ·.expr.source))) p sup none := by
    cases sup with
    | none => simpa using Grammar.Term.base hp
    | some q => simpa using (Grammar.Term.base hp).superscript (hsup q rfl)
  rw [Part.source_scripted, spell_append]
  cases sub with
  | none => simpa using habove
  | some q => simpa using habove.subscript (hsub q rfl)

namespace Grammar

mutual

theorem Factor.written {w : List TokenKind} {p : Part} (h : Factor w p) (hw : Plain w) : p.Written := by
  match h with
  | .char c =>
    have hc : c ∉ reserved := hw.glyphs c (List.mem_singleton_self _)
    rw [Part.Written, Formula.character, source, spell_glyph hc]
    exact .char c
  | .paren h =>
    have hinside := h.written hw.tail.left
    rw [Part.Written, Part.inParens, Formula.parenthesize, source, spell_inParens]
    exact .paren hinside
  | .brace h => exact absurd List.mem_cons_self hw.no_brace

theorem Term.written {w : List TokenKind} {p : Part} {sup sub : Option Part} (h : Grammar.Term w p sup sub)
    (hw : Plain w) : p.Written ∧ (∀ q ∈ sup, q.Written) ∧ ∀ q ∈ sub, q.Written := by
  match h with
  | .base h => exact ⟨h.written hw, nofun, nofun⟩
  | .superscript h hq =>
    obtain ⟨hp, -, hsub⟩ := h.written hw.left
    have hscript := hq.written hw.right.tail
    exact ⟨hp, fun r hr => Option.mem_some.1 hr ▸ hscript, hsub⟩
  | .subscript h hq =>
    obtain ⟨hp, hsup, -⟩ := h.written hw.left
    have hscript := hq.written hw.right.tail
    exact ⟨hp, hsup, fun r hr => Option.mem_some.1 hr ▸ hscript⟩

theorem Terms.written {w : List TokenKind} {ps : List Part} (h : Terms w ps) (hw : Plain w) :
    Terms (spell (ps.flatMap (source ·.expr))) ps := by
  match h with
  | .nil => exact .nil
  | .snoc h ht =>
    obtain ⟨hp, hsup, hsub⟩ := ht.written hw.right
    rw [List.flatMap_append, List.flatMap_singleton, spell_append]
    exact (h.written hw.left).snoc (term_written hp hsup hsub)

theorem Run.written {w : List TokenKind} {p : Part} (h : Grammar.Run w p) (hw : Plain w) :
    Grammar.Run (spell p.expr.source) p := by
  match h with
  | .join h he =>
    have hterms := h.written hw
    rw [(Formula.grouping_of_concatAll he).source_eq, List.flatMap_map]
    exact .join hterms he

/-- **An expression without braces is written as an expression for the same part.** -/
theorem Expression.written {w : List TokenKind} {p : Part} (h : Expression w p) (hw : Plain w) :
    Expression (spell p.expr.source) p := by
  match h with
  | .run h => exact .run (h.written hw)
  | .division h hq =>
    have hnum := h.written hw.left
    have hden := hq.written hw.right.tail
    rw [Part.dividedBy, Formula.divide, source, spell_append, spell_slash]
    exact .division hnum hden

end

end Grammar

/-- the parentheses of a formula are nested less deep than it is high -/
theorem source_contained {limit : Nat} (e : Expr) (he : ∀ n ∈ e.nodes, n.Writable) {outer : Nat}
    (h : outer + e.height ≤ limit) : Contained limit outer (spell e.source) := by
  induction e using Formula.ind generalizing outer with
  | char d c =>
    have hc : c ∉ reserved := Formula.forall_nodes_char.1 he
    rw [source, spell_glyph hc]
    exact Contained.nil.cons rfl
  | concat d l r hl hr =>
    obtain ⟨-, hel, her⟩ := Formula.forall_nodes_concat.1 he
    simp only [Formula.height] at h
    rw [source, spell_append]
    exact (hl hel (by omega)).append (hr her (by omega))
  | fraction d n m hn hm =>
    obtain ⟨-, hen, hem⟩ := Formula.forall_nodes_fraction.1 he
    simp only [Formula.height] at h
    rw [source, spell_append, spell_slash]
    exact (hn hen (by omega)).append ((hm hem (by omega)).cons rfl)
  | scripts d b p s hb hp hs =>
    obtain ⟨-, heb, hep, hes⟩ := Formula.forall_nodes_scripts.1 he
    rw [Formula.height_scripts] at h
    rw [Formula.source_scripts, spell_append, spell_append]
    refine Contained.append (.append (hb heb (by omega)) ?_) ?_
    · cases p with
      | none => exact .nil
      | some p =>
        simp only [Option.elim_some] at h ⊢
        rw [spell_caret]
        exact (hp p rfl (hep p rfl) (by omega)).cons rfl
    · cases s with
      | none => exact .nil
      | some s =>
        simp only [Option.elim_some] at h ⊢
        rw [spell_underscore]
        exact (hs s rfl (hes s rfl) (by omega)).cons rfl
  | paren d t ht =>
    obtain ⟨-, het⟩ := Formula.forall_nodes_paren.1 he
    simp only [Formula.height] at h
    rw [source, spell_inParens]
    exact (ht het (by omega)).group (by omega)

/-! ## What is written is what was read -/

/-- in the word no term with a subscript and no superscript is followed by the marker of a superscript: a term that has
both scripts has the superscript first -/
def SuperscriptsFirst (w : List TokenKind) : Prop :=
  ∀ (u t v : List TokenKind) (p q : Part), Grammar.Term t p none (some q) → w ≠ u ++ (t ++ .marker .above :: v)

section

variable {u v w : List TokenKind} {k : TokenKind}

theorem SuperscriptsFirst.left (h : SuperscriptsFirst (u ++ v)) : SuperscriptsFirst u := by
  rintro x t y p q ht rfl
  exact h x t (y ++ v) p q ht (by simp)

theorem SuperscriptsFirst.right (h : SuperscriptsFirst (u ++ v)) : SuperscriptsFirst v := by
  rintro x t y p q ht rfl
  exact h (u ++ x) t y p q ht (by simp)

theorem SuperscriptsFirst.tail (h : SuperscriptsFirst (k :: w)) : SuperscriptsFirst w :=
  right (u := [k]) h

/-- it is enough that all superscripts of the word come before all its subscripts -/
theorem superscriptsFirst_append (hu : .marker .below ∉ u) (hv : .marker .above ∉ v) :
    SuperscriptsFirst (u ++ v) := by
  intro x t y p q ht hsplit
  have hmarker : .marker .below ∈ x ++ t := by
    cases ht with
    | subscript h hq => simp
  rw [← List.append_assoc] at hsplit
  rcases List.append_eq_append_iff.1 hsplit with ⟨z, -, rfl⟩ | ⟨z, rfl, -⟩
  · exact hv (by simp)
  · exact hu (List.mem_append_left _ hmarker)

end

namespace Grammar

mutual

theorem Factor.source_eq {w : List TokenKind} {p : Part} (h : Factor w p) (hw : Plain w) (hs : SuperscriptsFirst w) :
    p.expr.source = w.map TokenKind.symbol := by
  match h with
  | .char c => rfl
  | .paren h =>
    have hinside := h.source_eq hw.tail.left hs.tail.left
    rw [Part.inParens, Formula.parenthesize, source, hinside, List.map_cons, List.map_append]
    rfl
  | .brace h => exact absurd List.mem_cons_self hw.no_brace

theorem Term.source_eq {w : List TokenKind} {p : Part} {sup sub : Option Part} (h : Grammar.Term w p sup sub)
    (hw : Plain w) (hs : SuperscriptsFirst w) : (p.scripted sup sub).expr.source = w.map TokenKind.symbol := by
  match h with
  | .base h => exact h.source_eq hw hs
  | @Grammar.Term.superscript _ _ _ _ none h hq =>
    have hbase := h.source_eq hw.left hs.left
    have hscript := hq.source_eq hw.right.tail hs.right.tail
    rw [Part.source_scripted] at hbase ⊢
    simpa [TokenKind.symbol, hscript] using hbase
  | @Grammar.Term.superscript _ _ _ _ (some q) h hq => exact absurd rfl (hs [] _ _ _ _ h)
  | .subscript h hq =>
    have hbase := h.source_eq hw.left hs.left
    have hscript := hq.source_eq hw.right.tail hs.right.tail
    rw [Part.source_scripted] at hbase ⊢
    simp only [Option.elim_none, Option.elim_some, List.append_nil] at hbase ⊢
    rw [hbase, hscript, List.map_append]
    rfl

theorem Terms.source_eq {w : List TokenKind} {ps : List Part} (h : Terms w ps) (hw : Plain w)
    (hs : SuperscriptsFirst w) : ps.flatMap (source ·.expr) = w.map TokenKind.symbol := by
  match h with
  | .nil => rfl
  | .snoc h ht =>
    rw [List.flatMap_append, List.flatMap_singleton, List.map_append, h.source_eq hw.left hs.left,
      ht.source_eq hw.right hs.right]

theorem Run.source_eq {w : List TokenKind} {p : Part} (h : Grammar.Run w p) (hw : Plain w) (hs : SuperscriptsFirst w) :
    p.expr.source = w.map TokenKind.symbol := by
  match h with
  | .join h he =>
    rw [(Formula.grouping_of_concatAll he).source_eq, List.flatMap_map]
    exact h.source_eq hw hs

/-- an expression without braces in which no term takes its subscript first is written as it was read -/
theorem Expression.source_eq {w : List TokenKind} {p : Part} (h : Expression w p) (hw : Plain w)
    (hs : SuperscriptsFirst w) : p.expr.source = w.map TokenKind.symbol := by
  match h with
  | .run h => exact h.source_eq hw hs
  | .division h hq =>
    have hnum := h.source_eq hw.left hs.left
    have hden := hq.source_eq hw.right.tail hs.right.tail
    rw [Part.dividedBy, Formula.divide, source, hnum, hden, List.map_append]
    rfl

end

end Grammar

/-! ## Texts -/

/-- **The text of a formula that was read from a text without braces is notation for it**, and it is the text it was
read from, less the characters that are skipped, if every term with both scripts had the superscript first. No closing
brace is asked about: without an opening one it would have been refused. -/
theorem parse_value {input : String} {e : Expr} (hplain : '\x7b' ∉ input.toList) (h : parse input = .ok e) :
    parse e.value = .ok e ∧
      (SuperscriptsFirst (kinds input) → e.value = String.ofList (input.toList.filter (!isSkipped ·))) := by
  obtain ⟨⟨b, hb, hderives⟩, -⟩ := parseTokens_sound h
  have hword : Plain (kinds input) := plain_kinds hplain
  constructor
  · have hdrawable := drawable_of_parse h
    have hheight := hdrawable.height_le
    have hnested : NestedWithin Formula.maxDepth 0 (spell e.source) :=
      (source_contained e hdrawable.writable (by omega)).nested
    exact parseTokens_complete (hderives.written hword) hb hnested (kinds_ofList e.source)
  · intro hfirst
    have hsource : e.source = (kinds input).map TokenKind.symbol := hderives.source_eq hword hfirst
    rw [Formula.value, hsource, map_symbol_kinds]

/-- a line break inside a quotient in parentheses, which has a base with both scripts -/
theorem parse_value_of_lines : ∃ e, parse "(a^b\n_c/d)e" = .ok e ∧ '\x7b' ∉ "(a^b\n_c/d)e".toList ∧
    parse e.value = .ok e ∧ SuperscriptsFirst (kinds "(a^b\n_c/d)e") ∧ e.value = "(a^b_c/d)e" := by
  obtain ⟨e, he⟩ : ∃ e, parse "(a^b\n_c/d)e" = .ok e := ⟨_, rfl⟩
  have hplain : '\x7b' ∉ "(a^b\n_c/d)e".toList := by decide
  have hfirst : SuperscriptsFirst (kinds "(a^b\n_c/d)e") :=
    superscriptsFirst_append (u := kinds "(a^b") (v := kinds "_c/d)e") (by decide) (by decide)
  obtain ⟨hagain, hvalue⟩ := parse_value hplain he
  exact ⟨e, he, hplain, hagain, hfirst, hvalue hfirst⟩

/-- a term with its subscript first is written with its superscript first -/
example : ¬ SuperscriptsFirst (kinds "a_b^c") ∧ (parse "a_b^c").toOption.map Formula.value = some "a^c_b" :=
  ⟨fun h => h [] _ _ _ _ ((Grammar.Term.base (.char 'a')).subscript (.char 'b')) rfl, by decide +kernel⟩

end Notation

end FormulaLayout
