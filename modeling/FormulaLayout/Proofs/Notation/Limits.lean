/-
How the two limits act on the reader.

- A level that is closed stands for `levelPart`, whatever the limit; the limit only decides whether it is refused
  (`closeLevel_yields`), and a level that is not refused keeps to it (`closeLevel_le`).
- `Lenient`: raising the limit changes no result and no fault, it only takes refusals away.
-/
import Mathlib.Tactic
import FormulaLayout.Proofs.Formula.Join
import FormulaLayout.Proofs.Notation.Grammar

namespace FormulaLayout.Notation

/-! ## Computations that may fail -/

variable {ε ε' α β : Type}

/-- a computation that goes on after another succeeds if both do -/
theorem bind_eq_ok {x : Except ε α} {f : α → Except ε β} {b : β} :
    (x >>= f) = .ok b ↔ ∃ a, x = .ok a ∧ f a = .ok b := by
  cases x <;> simp [bind, Except.bind]

/-- a computation that goes on after another fails if one of them does -/
theorem bind_eq_error {x : Except ε α} {f : α → Except ε β} {e : ε} :
    (x >>= f) = .error e ↔ x = .error e ∨ ∃ a, x = .ok a ∧ f a = .error e := by
  cases x <;> simp [bind, Except.bind]

theorem mapError_eq_ok {x : Except ε α} {f : ε → ε'} {a : α} : x.mapError f = .ok a ↔ x = .ok a := by
  cases x <;> simp [Except.mapError]

theorem mapError_eq_error {x : Except ε α} {f : ε → ε'} {e' : ε'} :
    x.mapError f = .error e' ↔ ∃ e, x = .error e ∧ f e = e' := by
  cases x <;> simp [Except.mapError]

/-! ## What a level stands for -/

/-- the finished term -/
def Term.part (term : Term) : Part :=
  term.base.scripted term.superscript term.subscript

/-- the finished run with its last term -/
def Run.part (run : Run) (last : Part) : Part :=
  let terms := (last :: run.terms).reverse
  ⟨(Formula.concatAll (terms.map Part.expr)).getD last.expr, Nat.clog 2 terms.length + Part.maxLevels terms⟩

/-- the finished level -/
def levelPart (division : Option Division) (run : Run) (term : Term) : Part :=
  match division with
  | none => run.part term.part
  | some division => division.numerator.dividedBy (run.part term.part)

/-- the finished group -/
def Frame.part (frame : Frame) (inside : Part) : Part :=
  match frame.delimiter with
  | .paren => inside.inParens
  | .brace => inside

/-- the computation gives the part, or refuses it because it has too many levels -/
def Yields (limit : Nat) (x : Except SyntaxError Part) (p : Part) : Prop :=
  x = .ok p ∨ limit < p.levels ∧ ∃ offset, x = .error ⟨offset, .tooManyLevels limit⟩

namespace Yields

variable {limit : Nat} {x : Except SyntaxError Part} {p q : Part}

theorem eq_of_ok (h : Yields limit x p) (hx : x = .ok q) : q = p := by
  rcases h with h | ⟨-, offset, h⟩
  · rw [hx] at h; exact Except.ok.inj h
  · rw [hx] at h; exact absurd h nofun

theorem ok_of_le (h : Yields limit x p) (hp : p.levels ≤ limit) : x = .ok p := by
  rcases h with h | ⟨hlt, -⟩
  · exact h
  · omega

theorem cause_of_error {e : SyntaxError} (h : Yields limit x p) (hx : x = .error e) :
    e.cause = .tooManyLevels limit := by
  rcases h with h | ⟨-, offset, h⟩
  · rw [hx] at h; exact absurd h nofun
  · rw [hx] at h; rw [Except.error.inj h]

/-- a further computation on the part, if it makes the part no shallower -/
theorem bind {f : Part → Except SyntaxError Part} (h : Yields limit x p) (hf : Yields limit (f p) q)
    (hle : p.levels ≤ q.levels) : Yields limit (x >>= f) q := by
  rcases h with rfl | ⟨hlt, offset, rfl⟩
  · exact hf
  · exact Or.inr ⟨by omega, offset, rfl⟩

end Yields

theorem Part.checked_yields (limit offset : Nat) (p : Part) : Yields limit (p.checked limit offset) p := by
  unfold Part.checked
  split_ifs with h
  · exact Or.inr ⟨h, offset, rfl⟩
  · exact Or.inl rfl

theorem Part.checked_le {limit offset : Nat} {p q : Part} (h : p.checked limit offset = .ok q) :
    q.levels ≤ limit := by
  unfold Part.checked at h
  split_ifs at h with hlt
  cases h; omega

theorem Term.close_yields (limit : Nat) (term : Term) : Yields limit (term.close limit) term.part := by
  obtain ⟨base, sup, sub, marker⟩ := term
  cases sup <;> cases sub
  · exact Or.inl rfl
  all_goals exact Part.checked_yields _ _ _

/-- a run always has its last term, so closing it fails only for its levels -/
theorem Run.close_eq (limit : Nat) (run : Run) (last : Part) :
    run.close limit last = (run.part last).checked limit run.start := by
  have hne : (last :: run.terms).reverse.map Part.expr ≠ [] := by simp
  obtain ⟨e, he⟩ := Formula.concatAll_isSome hne
  simp only [Run.close, Run.part, Part.checked, Part.maxLevels, Formula.joinLevels_eq_clog, he, Option.getD_some]

@[simp]
theorem Part.maxLevels_nil : Part.maxLevels [] = 0 := rfl

theorem Part.maxLevels_cons (p : Part) (ps : List Part) :
    Part.maxLevels (p :: ps) = max p.levels (Part.maxLevels ps) := by
  rw [maxLevels, List.map_cons, List.foldl_cons, Nat.max_comm, List.foldl_assoc, maxLevels]

/-- a part has no more levels than the greatest bound of a list it is in -/
theorem Part.le_maxLevels {p : Part} {ps : List Part} (h : p ∈ ps) : p.levels ≤ Part.maxLevels ps := by
  induction ps with
  | nil => exact absurd h nofun
  | cons q ps ih =>
    rw [maxLevels_cons]
    rcases List.mem_cons.1 h with rfl | h
    · exact le_max_left _ _
    · exact le_max_of_le_right (ih h)

/-- the greatest bound of a list is that of one of its parts -/
theorem Part.exists_maxLevels {ps : List Part} (h : ps ≠ []) : ∃ p ∈ ps, p.levels = Part.maxLevels ps := by
  induction ps with
  | nil => exact absurd rfl h
  | cons q ps ih =>
    rw [maxLevels_cons]
    by_cases hle : Part.maxLevels ps ≤ q.levels
    · exact ⟨q, List.mem_cons_self, (max_eq_left hle).symm⟩
    · have hne : ps ≠ [] := by
        rintro rfl
        exact hle (Nat.zero_le _)
      obtain ⟨p, hp, hmax⟩ := ih hne
      exact ⟨p, List.mem_cons_of_mem q hp, by omega⟩

theorem Run.le_part (run : Run) (last : Part) : last.levels ≤ (run.part last).levels :=
  le_trans (Part.le_maxLevels (by simp)) (Nat.le_add_left _ _)

theorem closeLevel_yields (limit : Nat) (division : Option Division) (run : Run) (term : Term) :
    Yields limit (closeLevel limit division run term) (levelPart division run term) := by
  have hrun := Part.checked_yields limit run.start (run.part term.part)
  rw [← Run.close_eq] at hrun
  cases division with
  | none => exact (term.close_yields limit).bind (hrun.bind (Or.inl rfl) le_rfl) (run.le_part _)
  | some division =>
    have hle : (run.part term.part).levels ≤ (division.numerator.dividedBy (run.part term.part)).levels := by
      simp only [Part.dividedBy]; omega
    exact (term.close_yields limit).bind (hrun.bind (Part.checked_yields _ _ _) hle) ((run.le_part _).trans hle)

/-- a level that was closed keeps to the limit -/
theorem closeLevel_le {limit : Nat} {division : Option Division} {run : Run} {term : Term} {p : Part}
    (h : closeLevel limit division run term = .ok p) : p.levels ≤ limit := by
  obtain ⟨last, -, h⟩ := bind_eq_ok.1 h
  obtain ⟨joined, hjoined, h⟩ := bind_eq_ok.1 h
  rw [Run.close_eq] at hjoined
  cases division with
  | none => cases h; exact Part.checked_le hjoined
  | some division => exact Part.checked_le h

theorem Frame.wrap_yields (limit : Nat) (frame : Frame) (inside : Part) :
    Yields limit (frame.wrap limit inside) (frame.part inside) := by
  unfold Frame.wrap Part.grouped Frame.part
  cases frame.delimiter with
  | paren => rw [Part.inParens, Nat.add_comm]; exact Part.checked_yields _ _ _
  | brace => exact Or.inl rfl

/-! ## Raising the limit -/

/-- the error says that a limit was exceeded -/
def SyntaxError.IsRefusal (limit : Nat) (e : SyntaxError) : Prop :=
  e.cause = .tooManyLevels limit ∨ e.cause = .nestedTooDeep limit

/-- a larger limit gives the same answer, unless the smaller one led to a refusal -/
def Lenient (f : Nat → Except SyntaxError α) : Prop :=
  ∀ l l', l ≤ l' → f l' = f l ∨ ∃ e, f l = .error e ∧ e.IsRefusal l

namespace Lenient

theorem ok_of_le {f : Nat → Except SyntaxError α} (hf : Lenient f) {l l' : Nat} {a : α} (hl : l ≤ l')
    (h : f l = .ok a) : f l' = .ok a := by
  rcases hf l l' hl with heq | ⟨e, he, -⟩
  · exact heq.trans h
  · exact absurd (he.symm.trans h) nofun

theorem error_of_le {f : Nat → Except SyntaxError α} (hf : Lenient f) {l l' : Nat} {e : SyntaxError} (hl : l ≤ l')
    (h : f l = .error e) (he : ¬ e.IsRefusal l) : f l' = .error e := by
  rcases hf l l' hl with heq | ⟨e', he', hlimit⟩
  · exact heq.trans h
  · rw [Except.error.inj (he'.symm.trans h)] at hlimit
    exact absurd hlimit he

theorem const (x : Except SyntaxError α) : Lenient fun _ => x :=
  fun _ _ _ => Or.inl rfl

theorem bind {f : Nat → Except SyntaxError α} {g : Nat → α → Except SyntaxError β} (hf : Lenient f)
    (hg : ∀ a, Lenient fun l => g l a) : Lenient fun l => f l >>= g l := by
  intro l l' hl
  rcases hf l l' hl with h | ⟨e, h, he⟩
  · cases hx : f l with
    | error e => left; simp only [h, hx]; rfl
    | ok a => simp only [h, hx]; exact hg a l l' hl
  · exact Or.inr ⟨e, by simp only [h]; rfl, he⟩

theorem checked (offset : Nat) (p : Part) : Lenient fun l => p.checked l offset := by
  intro l l' hl
  unfold Part.checked
  by_cases h : l < p.levels
  · exact Or.inr ⟨_, if_pos h, Or.inl rfl⟩
  · left; simp only [if_neg h, if_neg (show ¬ l' < p.levels by omega)]

theorem term_close (term : Term) : Lenient fun l => term.close l := by
  obtain ⟨base, sup, sub, marker⟩ := term
  cases sup <;> cases sub
  · exact const _
  all_goals exact checked _ _

theorem run_close (run : Run) (last : Part) : Lenient fun l => run.close l last := by
  simpa only [Run.close_eq] using checked run.start (run.part last)

theorem closeLevel (division : Option Division) (run : Run) (term : Term) :
    Lenient fun l => closeLevel l division run term := by
  refine (term_close term).bind fun last => (run_close run last).bind fun joined => ?_
  cases division with
  | none => exact const _
  | some division => exact checked _ _

theorem slot (focus : Focus) (offset : Nat) : Lenient fun l => focus.slot l offset := by
  cases focus with
  | opening => exact const _
  | factor run term => exact (term_close term).bind fun _ => const _
  | marker run term side => exact const _

theorem wrap (frame : Frame) (inside : Part) : Lenient fun l => frame.wrap l inside := by
  unfold Frame.wrap Part.grouped
  cases frame.delimiter
  · exact checked _ _
  · exact const _

end Lenient

end FormulaLayout.Notation
