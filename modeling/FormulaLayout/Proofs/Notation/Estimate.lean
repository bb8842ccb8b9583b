/-
How good the bound on the levels of a part is.

The parser does not measure a formula, it carries a bound along. The bound of a run takes every term to be as far below
the join as the farthest one is, also where a deep term stands on a short branch. So the bound is never too low
(`bounded_closed`), and at most twice the number of levels below the root (`tight_closed`): a join adds the logarithm of
its length to the bound, rounded up, and at least the same rounded down to the height.

Both ends are attained. The bound is the height for text with braces around all parts (`braced_derives`), and it is
twice the number of levels below the root if every group has two characters and the next group (`lopsided_derives`).

- `parse_within_nesting`: where the delimiters are not nested too deep, the bound alone decides, and what it refuses is
  refused for its levels.
-/
import FormulaLayout.Proofs.Notation.Image

namespace FormulaLayout.Notation

open Grammar
open Formula (inBraces)

/-! ## The bound and the height -/

/-- the bound of a part that is no glyph is at most twice the number of its levels below the root -/
def Part.Tight (p : Part) : Prop :=
  p.levels ≤ max 1 (2 * (p.expr.height - 1))

/-- rounding up adds one level at most, and none where the logarithm is zero -/
theorem clog_le_twice_log (n : Nat) : Nat.clog 2 n ≤ 2 * Nat.log 2 n := by
  rcases Nat.lt_or_ge n 2 with hn | hn
  · interval_cases n <;> simp
  · have hup : Nat.clog 2 n ≤ Nat.log 2 n + 1 :=
      Nat.clog_le_of_le_pow (Nat.lt_pow_succ_log_self Nat.one_lt_two n).le
    have hpos : 0 < Nat.log 2 n := Nat.log_pos Nat.one_lt_two hn
    omega

theorem tight_closed : Closed (fun _ => True) Part.Tight where
  char c _ := le_max_left _ _
  inParens p hp := by
    have hpos := p.expr.height_pos
    unfold Part.Tight at *
    simp only [Part.inParens, Formula.parenthesize, Formula.height]
    omega
  scripted p sup sub hp hsup hsub := by
    have hslot : ∀ slot : Option Part, (∀ q ∈ slot, q.Tight) →
        slot.elim 0 Part.levels ≤ 2 * (slot.map Part.expr).elim 0 Formula.height - 1 := by
      intro slot hslot
      cases slot with
      | none => exact le_rfl
      | some q =>
        have hq := hslot q rfl
        have hpos := q.expr.height_pos
        unfold Part.Tight at hq
        simp only [Option.elim_some, Option.map_some]
        omega
    have habove := hslot sup hsup
    have hbelow := hslot sub hsub
    have hpos := p.expr.height_pos
    unfold Part.Tight Part.scripted at *
    split
    · exact hp
    · rw [Formula.withScripts, Formula.height_scripts]
      dsimp only
      omega
  dividedBy p q hp hq := by
    have hpos := p.expr.height_pos
    have hpos' := q.expr.height_pos
    unfold Part.Tight at *
    simp only [Part.dividedBy, Formula.divide, Formula.height]
    omega
  joined ps e hps he := by
    have hne : ps ≠ [] := by
      rintro rfl
      cases he
    obtain ⟨p, hp, hmax⟩ := Part.exists_maxLevels hne
    have htight := hps p hp
    -- the deepest term is below the join by the logarithm rounded down, some term by the one rounded up
    have hjoin := Formula.balanced_of_concatAll he
    have hdeepest := hjoin.le_height p.expr (List.mem_map_of_mem hp)
    have hfarthest := hjoin.clog_le_height fun t _ => t.height_pos
    have hround := clog_le_twice_log ps.length
    rw [List.length_map] at hdeepest hfarthest
    unfold Part.Tight at *
    dsimp only
    omega

theorem bound_bounds {w : List TokenKind} {e : Expr} {b : Nat} (h : Derives w e b) :
    e.depth ≤ b ∧ b ≤ max 1 (2 * (e.depth - 1)) := by
  rw [Formula.depth_eq_height]
  exact ⟨h.holds bounded_closed fun _ _ => trivial, h.holds tight_closed fun _ _ => trivial⟩

/-! ## What the bound decides -/

/-- a text is not refused for its delimiters if they keep the limit -/
theorem levels_of_refusal {limit ending : Nat} {ts : List Token} {e : SyntaxError}
    (h : parseTokens limit ending ts = .error e) (hrefusal : e.IsRefusal limit)
    (hn : NestedWithin limit 0 (ts.map Token.kind)) : e.cause = .tooManyLevels limit := by
  have hlimit : e.cause.isLimit = true := by
    rcases hrefusal with hcause | hcause
    · rw [hcause]; rfl
    · rw [hcause]; rfl
  cases ts with
  | nil => cases h; exact absurd hlimit nofun
  | cons t ts =>
    rcases bind_eq_error.1 h with h | ⟨s, -, h⟩
    · obtain ⟨before, t', after, s, hsplit, hread, hstep⟩ := foldlM_error h
      cases fails_of_step hstep with
      | levels hcause => exact hcause
      | text hposition hfault hrun => exact absurd (hfault.symm.trans hlimit) nofun
      | nesting hposition hcause hkind hroom =>
        -- the frames of the state are the delimiters that are open in front of the token
        have hopen := (hread.spells start_spells).balance_eq
        rw [hsplit, List.map_append, List.map_cons, hkind] at hn
        have hlt := hn _ _ _ rfl
        simp only [List.nil_append] at hopen
        omega
    · rcases finish_fault h with hcause | ⟨-, hfault, -⟩
      · exact hcause
      · exact absurd (hfault.symm.trans hlimit) nofun

/-- **Where the delimiters keep the limit, the bound alone decides**, and what it refuses is refused for its levels. -/
theorem parse_within_nesting {input : String} {e : Expr} {b : Nat} (h : Derives (kinds input) e b)
    (hn : NestedWithin Formula.maxDepth 0 (kinds input)) :
    b ≤ Formula.maxDepth ∧ parse input = .ok e ∨
      Formula.maxDepth < b ∧ ∃ fault, parse input = .error fault ∧ fault.cause = .tooManyLevels Formula.maxDepth := by
  rcases Nat.lt_or_ge Formula.maxDepth b with hb | hb
  · right
    refine ⟨hb, ?_⟩
    cases hparse : parse input with
    | ok e' =>
      obtain ⟨⟨b', hb', h'⟩, -⟩ := parseTokens_sound hparse
      have hsame : b = b' := congrArg Part.levels (expression_unique h h')
      omega
    | error fault =>
      refine ⟨fault, rfl, levels_of_refusal hparse ?_ hn⟩
      by_contra hfault
      exact not_derivable_of_error hparse hfault ⟨e, b, h⟩
  · left
    exact ⟨hb, parseTokens_complete h hb hn rfl⟩

/-! ## A bound that is far too high -/

/-- the text of groups one inside another, each with two characters in front of the next -/
def lopsided : Nat → List Char
  | 0 => ['c', 'd']
  | n + 1 => 'a' :: 'b' :: inBraces (lopsided n)

/-- what the text stands for: the two characters are joined first, so that the group is on the short branch -/
def lopsidedTree : Nat → Expr
  | 0 => Formula.adjoin (Formula.character 'c') (Formula.character 'd')
  | n + 1 => Formula.adjoin (Formula.adjoin (Formula.character 'a') (Formula.character 'b')) (lopsidedTree n)

theorem spell_lopsided_succ (n : Nat) :
    spell (lopsided (n + 1)) = [.char 'a'] ++ [.char 'b'] ++ spell (inBraces (lopsided n)) := by
  rw [lopsided, spell_cons rfl, spell_cons rfl]
  rfl

/-- every group adds one level -/
theorem depth_lopsidedTree (n : Nat) : (lopsidedTree n).depth = n + 2 := by
  rw [Formula.depth_eq_height]
  induction n with
  | zero => rfl
  | succ n ih =>
    simp only [lopsidedTree, Formula.adjoin, Formula.character, Formula.height, ih]
    omega

/-- and two levels to the bound -/
theorem lopsided_derives (n : Nat) : Derives (spell (lopsided n)) (lopsidedTree n) (2 * n + 2) := by
  induction n with
  | zero => exact (Factor.char 'c').beside (.char 'd')
  | succ n ih =>
    have hterms : Terms ([.char 'a'] ++ [.char 'b'] ++ spell (inBraces (lopsided n)))
        [⟨Formula.character 'a', 1⟩, ⟨Formula.character 'b', 1⟩, ⟨lopsidedTree n, 2 * n + 2⟩] := by
      rw [spell_inBraces]
      exact ((Terms.nil.snoc (.base (.char 'a'))).snoc (.base (.char 'b'))).snoc (.base (.brace ih))
    have hjoin : Formula.concatAll [Formula.character 'a', Formula.character 'b', lopsidedTree n] =
        some (lopsidedTree (n + 1)) := by
      simp [Formula.concatAll, Formula.joinWithin, lopsidedTree]
    have hclog : Nat.clog 2 3 = 2 := by simp [Formula.clog_half]
    have hlevels : Nat.clog 2 3 + Part.maxLevels
        [⟨Formula.character 'a', 1⟩, ⟨Formula.character 'b', 1⟩, ⟨lopsidedTree n, 2 * n + 2⟩] = 2 * (n + 1) + 2 := by
      rw [hclog, Part.maxLevels_cons, Part.maxLevels_cons, Part.maxLevels_cons, Part.maxLevels_nil]
      dsimp only
      omega
    rw [spell_lopsided_succ, Derives, ← hlevels]
    exact .run (.join hterms hjoin)

/-- the delimiters of the text are nested as deep as there are groups -/
theorem lopsided_contained (n : Nat) {limit outer : Nat} (h : outer + n ≤ limit) :
    Contained limit outer (spell (lopsided n)) := by
  induction n generalizing outer with
  | zero => exact (Contained.nil.cons rfl).cons rfl
  | succ n ih =>
    rw [spell_lopsided_succ]
    exact ((inBraces_contained (by omega) (ih (by omega))).cons rfl).cons rfl

end FormulaLayout.Notation
