/-
What the offsets of the tokens decide.

The reader keeps offsets for its messages and looks at nothing but the kinds of the tokens. So it commutes with moving
them: with every offset of a state and of a token moved by the same function, a step leads to the moved state, or fails
with the moved error (`step_relocate`), and so does a run (`foldlM_relocate`) and the end of a text (`finish_relocate`).
A term without scripts holds an offset that belongs to no token. It is not moved, and it is never reported.

The tokens of a text are the indices of its kinds, moved to the places where they stand (`tokenize_eq`), and the end of
the text is where the index behind them goes. So all texts with the same kinds share one reading, and their results
differ in the places only.

- `parse_of_kinds_eq`: two texts with the same kinds of tokens are the same formula, or they are refused for the same
  cause, either at the token with the same index or at their ends.
-/
import Mathlib.Tactic
import FormulaLayout.Proofs.Notation.RoundTrip

namespace FormulaLayout.Notation

/-! ## Moving offsets -/

section

variable (f : Nat → Nat)

def Token.relocate (t : Token) : Token :=
  { t with offset := f t.offset }

namespace SyntaxError

/-- two causes name the place of an opener -/
def Cause.relocate : Cause → Cause
  | .wrongCloser opened openedAt found => .wrongCloser opened (f openedAt) found
  | .unclosed opened openedAt => .unclosed opened (f openedAt)
  | cause => cause

def relocate (e : SyntaxError) : SyntaxError :=
  ⟨f e.position, e.cause.relocate f⟩

end SyntaxError

/-- the place of the last script marker moves; a term without scripts has none -/
def Term.relocate (term : Term) : Term :=
  match term.superscript, term.subscript with
  | none, none => term
  | _, _ => { term with marker := f term.marker }

def Run.relocate (run : Run) : Run :=
  { run with start := f run.start }

def Division.relocate (division : Division) : Division :=
  { division with slash := f division.slash }

/-- behind a marker the term has the place of the marker, with or without scripts -/
def Focus.relocate : Focus → Focus
  | .opening => .opening
  | .factor run term => .factor (run.relocate f) (term.relocate f)
  | .marker run term side => .marker (run.relocate f) { term with marker := f term.marker } side

def Slot.relocate : Slot → Slot
  | .base run => .base (run.relocate f)
  | .script run term side => .script (run.relocate f) { term with marker := f term.marker } side

def Frame.relocate (frame : Frame) : Frame :=
  ⟨frame.delimiter, f frame.offset, frame.division.map (Division.relocate f), frame.slot.relocate f⟩

def State.relocate (s : State) : State :=
  ⟨s.frames.map (Frame.relocate f), s.division.map (Division.relocate f), s.focus.relocate f⟩

/-- the result with its value moved in one way and its error in the other -/
def relocated {α β : Type} (g : α → β) : Except SyntaxError α → Except SyntaxError β
  | .ok a => .ok (g a)
  | .error e => .error (e.relocate f)

end

/-! ## Parts of the reader -/

variable (f : Nat → Nat) {α β α' β' : Type}

/-- computations that commute with moving offsets do so one after the other -/
theorem relocated_bind {g : α → β} {g' : α' → β'} {k : α → Except SyntaxError α'} {k' : β → Except SyntaxError β'}
    (hk : ∀ a, k' (g a) = relocated f g' (k a)) (x : Except SyntaxError α) :
    relocated f g x >>= k' = relocated f g' (x >>= k) := by
  cases x with
  | ok a => exact hk a
  | error e => rfl

theorem Part.checked_relocate (limit offset : Nat) (p : Part) :
    p.checked limit (f offset) = relocated f id (p.checked limit offset) := by
  unfold Part.checked
  split_ifs <;> rfl

namespace Term

theorem script?_relocate (term : Term) (side : Side) : (term.relocate f).script? side = term.script? side := by
  obtain ⟨base, sup, sub, marker⟩ := term
  cases sup <;> cases sub <;> rfl

theorem relocate_attach (term : Term) (p : Part) (side : Side) :
    (term.attach p side).relocate f = { term with marker := f term.marker }.attach p side := by
  obtain ⟨base, sup, sub, marker⟩ := term
  cases side <;> cases sup <;> cases sub <;> rfl

/-- a marker takes the place of the one before -/
theorem relocate_marker (term : Term) (offset : Nat) :
    { term.relocate f with marker := offset } = { term with marker := offset } := by
  obtain ⟨base, sup, sub, marker⟩ := term
  cases sup <;> cases sub <;> rfl

theorem close_relocate (limit : Nat) (term : Term) :
    (term.relocate f).close limit = relocated f id (term.close limit) := by
  obtain ⟨base, sup, sub, marker⟩ := term
  cases sup <;> cases sub
  · rfl
  all_goals exact Part.checked_relocate f limit marker _

end Term

theorem Run.close_relocate (limit : Nat) (run : Run) (last : Part) :
    (run.relocate f).close limit last = relocated f id (run.close limit last) := by
  rw [Run.close_eq, Run.close_eq]
  exact Part.checked_relocate f limit run.start _

theorem closeLevel_relocate (limit : Nat) (division : Option Division) (run : Run) (term : Term) :
    closeLevel limit (division.map (Division.relocate f)) (run.relocate f) (term.relocate f) =
      relocated f id (closeLevel limit division run term) := by
  unfold closeLevel
  rw [Term.close_relocate]
  apply relocated_bind
  intro last
  rw [id, Run.close_relocate]
  apply relocated_bind
  intro joined
  cases division with
  | none => rfl
  | some division => exact Part.checked_relocate f limit division.slash _

theorem Focus.slot_relocate (limit offset : Nat) (focus : Focus) :
    (focus.relocate f).slot limit (f offset) = relocated f (Slot.relocate f) (focus.slot limit offset) := by
  cases focus with
  | opening => rfl
  | marker run term side => rfl
  | factor run term =>
    rw [Focus.relocate, Focus.slot, Term.close_relocate]
    apply relocated_bind
    intro last
    rfl

theorem Slot.fill_relocate (slot : Slot) (p : Part) : (slot.relocate f).fill p = (slot.fill p).relocate f := by
  cases slot with
  | base run => rfl
  | script run term side => simp only [Slot.relocate, Slot.fill, Focus.relocate, Term.relocate_attach]

theorem Frame.relocate_delimiter (frame : Frame) : (frame.relocate f).delimiter = frame.delimiter := rfl

theorem Frame.wrap_relocate (limit : Nat) (frame : Frame) (inside : Part) :
    (frame.relocate f).wrap limit inside = relocated f id (frame.wrap limit inside) := by
  obtain ⟨delimiter, offset, division, slot⟩ := frame
  cases delimiter with
  | paren => exact Part.checked_relocate f limit offset _
  | brace => rfl

/-! ## Steps and runs -/

/-- **A step commutes with moving all offsets.** -/
theorem step_relocate (limit : Nat) (s : State) (t : Token) :
    step limit (s.relocate f) (t.relocate f) = relocated f (State.relocate f) (step limit s t) := by
  obtain ⟨kind, offset⟩ := t
  obtain ⟨frames, division, focus⟩ := s
  cases kind with
  | char c =>
    simp only [step, State.relocate, Token.relocate, Focus.slot_relocate]
    apply relocated_bind
    intro slot
    rw [Slot.fill_relocate]
    rfl
  | opener d =>
    simp only [step, State.relocate, Token.relocate, Focus.slot_relocate, List.length_map]
    apply relocated_bind
    intro slot
    split_ifs with hroom
    · rfl
    · rfl
  | marker side =>
    cases focus with
    | opening => rfl
    | marker run term side' => rfl
    | factor run term =>
      simp only [step, State.relocate, Token.relocate, Focus.relocate, Term.script?_relocate, Term.relocate_marker]
      split_ifs with hscript
      · rfl
      · rfl
  | slash =>
    cases focus with
    | opening => rfl
    | marker run term side => rfl
    | factor run term =>
      simp only [step, State.relocate, Token.relocate, Focus.relocate, closeLevel_relocate]
      apply relocated_bind
      intro numerator
      rfl
  | closer d =>
    cases focus with
    | opening =>
      cases division with
      | some division => rfl
      | none =>
        cases frames with
        | nil => rfl
        | cons frame outer =>
          simp only [step, State.relocate, Token.relocate, Focus.relocate, Option.map_none, List.map_cons]
          by_cases hd : frame.delimiter = d
          · rw [if_pos hd, if_pos ((frame.relocate_delimiter f).trans hd)]
            rfl
          · rw [if_neg hd, if_neg (frame.relocate_delimiter f ▸ hd)]
            rfl
    | marker run term side => rfl
    | factor run term =>
      simp only [step, State.relocate, Token.relocate, Focus.relocate, closeLevel_relocate]
      apply relocated_bind
      intro inside
      cases frames with
      | nil => rfl
      | cons frame outer =>
        simp only [List.map_cons, id]
        by_cases hd : frame.delimiter = d
        · rw [if_pos hd, if_pos ((frame.relocate_delimiter f).trans hd), Frame.wrap_relocate]
          apply relocated_bind
          intro group
          exact congrArg (fun focus => Except.ok (State.mk _ _ focus)) (frame.slot.fill_relocate f group)
        · rw [if_neg hd, if_neg (frame.relocate_delimiter f ▸ hd)]
          rfl

theorem foldlM_relocate (limit : Nat) (s : State) (ts : List Token) :
    (ts.map (Token.relocate f)).foldlM (step limit) (s.relocate f) =
      relocated f (State.relocate f) (ts.foldlM (step limit) s) := by
  induction ts generalizing s with
  | nil => rfl
  | cons t ts ih =>
    rw [List.map_cons, List.foldlM_cons, List.foldlM_cons, step_relocate]
    apply relocated_bind
    intro s'
    exact ih s'

theorem State.finish_relocate (limit ending : Nat) (s : State) :
    (s.relocate f).finish limit (f ending) = relocated f id (s.finish limit ending) := by
  obtain ⟨frames, division, focus⟩ := s
  cases focus with
  | opening => rfl
  | marker run term side => rfl
  | factor run term =>
    simp only [State.finish, State.relocate, Focus.relocate, closeLevel_relocate]
    apply relocated_bind
    intro whole
    cases frames with
    | nil => rfl
    | cons frame outer => rfl

/-- reading a text that has tokens commutes with moving them and the end of the text -/
theorem parseTokens_relocate (limit ending : Nat) {ts : List Token} (hts : ts ≠ []) :
    parseTokens limit (f ending) (ts.map (Token.relocate f)) = relocated f id (parseTokens limit ending ts) := by
  cases ts with
  | nil => exact absurd rfl hts
  | cons t ts =>
    have hrun := foldlM_relocate f limit .start (t :: ts)
    have hparse : parseTokens limit ending (t :: ts) =
        (t :: ts).foldlM (step limit) State.start >>= fun s => s.finish limit ending := rfl
    rw [hparse, ← relocated_bind f (fun s => s.finish_relocate f limit ending), ← hrun]
    rfl

/-! ## Texts -/

/-- where the token with an index stands; behind the last token it is the end of the text -/
def place (input : String) (i : Nat) : Nat :=
  ((tokenize input)[i]?.map Token.offset).getD input.length

/-- the tokens of a word, each at its index -/
def indexed (w : List TokenKind) : List Token :=
  w.mapIdx fun i kind => ⟨kind, i⟩

/-- where a text ends that is refused at its end; a text without tokens is refused at its beginning -/
def endOffset (input : String) : Nat :=
  if tokenize input = [] then 0 else input.length

/-- the places of the tokens with some index in the two texts, or their ends -/
def SamePlace (a b : String) (i j : Nat) : Prop :=
  (∃ k : Nat, (tokenize a)[k]?.map Token.offset = some i ∧ (tokenize b)[k]?.map Token.offset = some j) ∨
    i = endOffset a ∧ j = endOffset b

theorem endOffset_of_kinds {input : String} (h : kinds input ≠ []) : endOffset input = input.length := by
  have htokens : tokenize input ≠ [] := by simpa [kinds] using h
  exact if_neg htokens

/-- a text without tokens is refused at its beginning, however many characters of it are skipped -/
theorem parse_of_kinds_nil {input : String} (h : kinds input = []) :
    parse input = .error ⟨0, .noTokens⟩ ∧ endOffset input = 0 := by
  have htokens : tokenize input = [] := List.map_eq_nil_iff.1 h
  constructor
  · rw [parse, htokens]
    rfl
  · exact if_pos htokens

theorem tokenize_eq (input : String) :
    tokenize input = (indexed (kinds input)).map (Token.relocate (place input)) := by
  apply List.ext_getElem?
  intro i
  cases htoken : (tokenize input)[i]? with
  | none => simp [indexed, kinds, htoken]
  | some t => simp [indexed, kinds, htoken, Token.relocate, place]

theorem place_length (input : String) : place input (kinds input).length = input.length := by
  simp [place, kinds]

/-- the result for a text is that for the indices of its tokens, moved to their places -/
theorem parse_eq_relocated {input : String} (h : kinds input ≠ []) :
    parse input = relocated (place input) id
      (parseTokens Formula.maxDepth (kinds input).length (indexed (kinds input))) := by
  have hindexed : indexed (kinds input) ≠ [] := by simpa [indexed] using h
  rw [← parseTokens_relocate (place input) _ _ hindexed, ← tokenize_eq, place_length]
  rfl

/-- where an index goes in two texts that have the same kinds of tokens -/
theorem samePlace_place {a b : String} (h : kinds a = kinds b) (hne : kinds a ≠ []) (i : Nat) :
    SamePlace a b (place a i) (place b i) := by
  have hkind : (tokenize a)[i]?.map Token.kind = (tokenize b)[i]?.map Token.kind := by
    rw [← List.getElem?_map, ← List.getElem?_map]
    exact congrArg (·[i]?) h
  cases hs : (tokenize a)[i]? with
  | some s =>
    cases ht : (tokenize b)[i]? with
    | some t => exact Or.inl ⟨i, by simp [place, hs], by simp [place, ht]⟩
    | none => simp [hs, ht] at hkind
  | none =>
    cases ht : (tokenize b)[i]? with
    | some t => simp [hs, ht] at hkind
    | none =>
      have ha : place a i = endOffset a := by simp [place, hs, endOffset_of_kinds hne]
      have hb : place b i = endOffset b := by simp [place, ht, endOffset_of_kinds (h ▸ hne)]
      exact Or.inr ⟨ha, hb⟩

/-- the kinds of the tokens are what is left of a text without the characters that are skipped -/
theorem kinds_eq_iff {a b : String} :
    kinds a = kinds b ↔ a.toList.filter (!isSkipped ·) = b.toList.filter (!isSkipped ·) := by
  constructor
  · intro h
    rw [← map_symbol_kinds, ← map_symbol_kinds, h]
  · intro h
    rw [kinds_eq_spell, kinds_eq_spell, spell, spell, h]

/-- **Only the kinds of the tokens matter.** Two texts have the same kinds exactly if they differ in skipped characters
only. Then either both are the same formula, or both are refused, for a limit or for a fault: at the token with the same
index in each or at the end of each, and for one cause, which names the opener with the same index in each if it names
one. -/
theorem parse_of_kinds_eq :
    (∀ a b : String, kinds a = kinds b ↔ a.toList.filter (!isSkipped ·) = b.toList.filter (!isSkipped ·)) ∧
      ∀ a b : String, kinds a = kinds b →
        (∃ e, parse a = .ok e ∧ parse b = .ok e) ∨
          ∃ f g : SyntaxError, parse a = .error f ∧ parse b = .error g ∧ SamePlace a b f.position g.position ∧
            ∃ cause : SyntaxError.Cause, f.cause = cause.relocate (place a) ∧ g.cause = cause.relocate (place b) := by
  refine ⟨fun a b => kinds_eq_iff, ?_⟩
  intro a b h
  by_cases hne : kinds a = []
  · obtain ⟨ha, haend⟩ := parse_of_kinds_nil hne
    obtain ⟨hb, hbend⟩ := parse_of_kinds_nil (h ▸ hne)
    exact Or.inr ⟨_, _, ha, hb, Or.inr ⟨haend.symm, hbend.symm⟩, .noTokens, rfl, rfl⟩
  · have ha := parse_eq_relocated hne
    have hb := parse_eq_relocated (h ▸ hne)
    rw [← h] at hb
    cases hread : parseTokens Formula.maxDepth (kinds a).length (indexed (kinds a)) with
    | ok e =>
      rw [hread] at ha hb
      exact Or.inl ⟨e, ha, hb⟩
    | error e =>
      rw [hread] at ha hb
      exact Or.inr ⟨_, _, ha, hb, samePlace_place h hne e.position, e.cause, rfl, rfl⟩

/-- a second subscript behind a line break and a tab, and the same in one line -/
theorem second_subscript_place :
    kinds "(a\n_b\t_c" = kinds "(a_b_c" ∧ parse "(a\n_b\t_c" = .error ⟨6, .duplicateScript .below⟩ ∧
      parse "(a_b_c" = .error ⟨4, .duplicateScript .below⟩ ∧ SamePlace "(a\n_b\t_c" "(a_b_c" 6 4 := by
  have h : kinds "(a\n_b\t_c" = kinds "(a_b_c" := rfl
  rcases parse_of_kinds_eq.2 _ _ h with ⟨e, he, -⟩ | ⟨f, g, hf, hg, hplace, -⟩
  · exact absurd he nofun
  · cases hf
    cases hg
    exact ⟨h, rfl, rfl, hplace⟩

end FormulaLayout.Notation
