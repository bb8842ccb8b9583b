/-
The limit of the parser and that of the engine.

Both are limits on levels, and both are the same number. The engine counts the levels of the tree; the parser keeps to a
bound on them, which depends on how the text groups its runs and not on the tree alone. So the parser refuses everything
that an engine would refuse as too deep, and some formulas that none would.

- `parser_limit_covers_engine_limit`: what the bound decides, and how far it is from the number of levels. Formulas of
  up to 65 levels are never refused for their depth.
- `shallow_formula_refused`: a formula of 66 levels that is.
-/
import FormulaLayout.Proofs.Notation.Estimate
import FormulaLayout.Proofs.Pipeline.Faults

namespace FormulaLayout.Notation

theorem message_of_levels {fault : SyntaxError} (h : fault.cause = .tooManyLevels Formula.maxDepth) :
    fault.message = "expression nests deeper than 128 levels" := by
  rw [SyntaxError.message, h]; rfl

/-- **The parser's limit covers the engine's.** Where the delimiters of an expression are not nested too deep, the
parser accepts it exactly if its bound keeps to the limit, and otherwise says that it has too many levels. The bound is
at least the number of levels, and at most twice the number of those below the root. So up to 65 levels are always
accepted, and whatever an engine refuses as too deep the parser has refused with that message. -/
theorem parser_limit_covers_engine_limit (input : String) (e : Expr) (b : Nat) (h : Derives (kinds input) e b)
    (hn : NestedWithin Formula.maxDepth 0 (kinds input)) :
    (e.depth ≤ b ∧ b ≤ max 1 (2 * (e.depth - 1))) ∧
      (parse input = .ok e ↔ b ≤ Formula.maxDepth) ∧
      ((∃ fault, parse input = .error fault ∧ fault.message = "expression nests deeper than 128 levels") ↔
        Formula.maxDepth < b) ∧
      (e.depth ≤ 65 → parse input = .ok e) ∧
      ∀ (engine : Engine Float32) (depth limit : Nat), engine.layout e = .error (.tooDeep depth limit) →
        ∃ fault, parse input = .error fault ∧ fault.message = "expression nests deeper than 128 levels" := by
  obtain ⟨hlow, hhigh⟩ := bound_bounds h
  have haccepted : parse input = .ok e ↔ b ≤ Formula.maxDepth := by
    rcases parse_within_nesting h hn with ⟨hb, hparse⟩ | ⟨hb, fault, hparse, -⟩
    · exact iff_of_true hparse hb
    · exact iff_of_false (by simp [hparse]) (Nat.not_le.2 hb)
  have hrefused : (∃ fault, parse input = .error fault ∧
      fault.message = "expression nests deeper than 128 levels") ↔ Formula.maxDepth < b := by
    rcases parse_within_nesting h hn with ⟨hb, hparse⟩ | ⟨hb, fault, hparse, hcause⟩
    · exact iff_of_false (by simp [hparse]) (Nat.not_lt.2 hb)
    · exact iff_of_true ⟨fault, hparse, message_of_levels hcause⟩ hb
  have hlimit : Formula.maxDepth = 128 := rfl
  refine ⟨⟨hlow, hhigh⟩, haccepted, hrefused, fun hdepth => ?_, fun engine depth limit herror => ?_⟩
  · exact haccepted.2 (by omega)
  · have hdeep := Engine.depth_of_layout_tooDeep herror
    exact hrefused.2 (by omega)

/-- a group on the short branch of its run: three levels, and a bound of four -/
theorem short_branch_accepted : ∃ e, Derives (kinds "ab\x7bcd\x7d") e 4 ∧
    NestedWithin Formula.maxDepth 0 (kinds "ab\x7bcd\x7d") ∧ e.depth = 3 ∧ parse "ab\x7bcd\x7d" = .ok e := by
  have hkinds : kinds "ab\x7bcd\x7d" = spell (lopsided 1) := kinds_eq_spell _
  have hderives : Derives (kinds "ab\x7bcd\x7d") (lopsidedTree 1) 4 := hkinds ▸ lopsided_derives 1
  have hnested : NestedWithin Formula.maxDepth 0 (kinds "ab\x7bcd\x7d") :=
    hkinds ▸ (lopsided_contained 1 (by decide)).nested
  obtain ⟨-, haccepted, -⟩ := parser_limit_covers_engine_limit _ _ _ hderives hnested
  exact ⟨lopsidedTree 1, hderives, hnested, depth_lopsidedTree 1, haccepted.2 (by decide)⟩

/-- **Formulas of 66 levels can be refused as deeper than 128.** In every one of 64 groups the next one stands on the
short branch of a run of three. -/
theorem shallow_formula_refused : ∃ e b fault, Derives (kinds (String.ofList (lopsided 64))) e b ∧
    NestedWithin Formula.maxDepth 0 (kinds (String.ofList (lopsided 64))) ∧ e.depth = 66 ∧
      parse (String.ofList (lopsided 64)) = .error fault ∧
        fault.message = "expression nests deeper than 128 levels" ∧
          ∀ (engine : Engine Float32) (depth limit : Nat), engine.layout e ≠ .error (.tooDeep depth limit) := by
  have hkinds : kinds (String.ofList (lopsided 64)) = spell (lopsided 64) := by
    rw [kinds_eq_spell, String.toList_ofList]
  have hderives : Derives (kinds (String.ofList (lopsided 64))) (lopsidedTree 64) 130 := hkinds ▸ lopsided_derives 64
  have hnested : NestedWithin Formula.maxDepth 0 (kinds (String.ofList (lopsided 64))) :=
    hkinds ▸ (lopsided_contained 64 (by decide)).nested
  have hdepth : (lopsidedTree 64).depth = 66 := depth_lopsidedTree 64
  have hlimit : Formula.maxDepth = 128 := rfl
  rcases parse_within_nesting hderives hnested with ⟨hb, -⟩ | ⟨-, fault, hparse, hcause⟩
  · omega
  · refine ⟨lopsidedTree 64, 130, fault, hderives, hnested, hdepth, hparse, message_of_levels hcause, ?_⟩
    intro engine depth limit herror
    have hdeep := Engine.depth_of_layout_tooDeep herror
    omega

end FormulaLayout.Notation
