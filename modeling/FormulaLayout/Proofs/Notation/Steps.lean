/-
What one token does to a formula read in part, and what a list of tokens does.

- `Moves` lists the five kinds of steps with their guards; `step_eq_ok_iff`: these are exactly the steps that succeed.
- `fails_of_step`: a step fails because a part has too many levels, because a delimiter has no room, or at the token it
  was given for a fault of the text.
- `step_lenient`, `parseTokens_lenient`: a larger limit gives the same answer where no limit was exceeded.
- `Reads` is a run of steps; `foldlM_error`: a run that fails does so at one of its tokens.
-/
import Mathlib.Tactic
import FormulaLayout.Proofs.Notation.Limits

namespace FormulaLayout.Notation

/-! ## One step -/

/-- the steps that succeed, by the kind of their token -/
inductive Moves (limit : Nat) : State → Token → State → Prop
  | char {s : State} {c : Char} {offset : Nat} {slot : Slot} (h : s.focus.slot limit offset = .ok slot) :
    Moves limit s ⟨.char c, offset⟩ { s with focus := slot.fill (.ofChar c) }
  | opener {s : State} {d : Delimiter} {offset : Nat} {slot : Slot} (h : s.focus.slot limit offset = .ok slot)
    (hroom : s.frames.length < limit) :
    Moves limit s ⟨.opener d, offset⟩ ⟨⟨d, offset, s.division, slot⟩ :: s.frames, none, .opening⟩
  | marker {frames : List Frame} {division : Option Division} {run : Run} {term : Term} {side : Side} {offset : Nat}
    (h : term.script? side = none) :
    Moves limit ⟨frames, division, .factor run term⟩ ⟨.marker side, offset⟩
      ⟨frames, division, .marker run { term with marker := offset } side⟩
  | slash {frames : List Frame} {division : Option Division} {run : Run} {term : Term} {offset : Nat} {numerator : Part}
    (h : closeLevel limit division run term = .ok numerator) :
    Moves limit ⟨frames, division, .factor run term⟩ ⟨.slash, offset⟩ ⟨frames, some ⟨numerator, offset⟩, .opening⟩
  | closer {frame : Frame} {outer : List Frame} {division : Option Division} {run : Run} {term : Term} {offset : Nat}
    {inside group : Part} (h : closeLevel limit division run term = .ok inside)
    (hgroup : frame.wrap limit inside = .ok group) :
    Moves limit ⟨frame :: outer, division, .factor run term⟩ ⟨.closer frame.delimiter, offset⟩
      ⟨outer, frame.division, frame.slot.fill group⟩

theorem Moves.step_eq {limit : Nat} {s s' : State} {t : Token} (h : Moves limit s t s') :
    step limit s t = .ok s' := by
  cases h with
  | char h => simp only [step, h]; rfl
  | opener h hroom => simp only [step, h]; simp [bind, Except.bind, pure, Except.pure, Nat.not_le.2 hroom]
  | marker h => simp [step, h]
  | slash h => simp only [step, h]; rfl
  | closer h hgroup => simp only [step, h]; simp [bind, Except.bind, pure, Except.pure, hgroup]

theorem moves_of_step {limit : Nat} {s s' : State} {t : Token} (h : step limit s t = .ok s') : Moves limit s t s' := by
  obtain ⟨kind, offset⟩ := t
  obtain ⟨frames, division, focus⟩ := s
  cases kind with
  | char c =>
    obtain ⟨slot, hslot, h⟩ := bind_eq_ok.1 h
    cases h
    exact .char hslot
  | opener d =>
    obtain ⟨slot, hslot, h⟩ := bind_eq_ok.1 h
    by_cases hroom : limit ≤ frames.length
    · simp [hroom, bind, Except.bind, throw, throwThe, MonadExceptOf.throw] at h
    · simp only [hroom, if_false] at h
      cases h
      exact .opener hslot (Nat.not_le.1 hroom)
  | marker side =>
    simp only [step] at h
    split at h
    · split_ifs at h with hscript
      cases h
      exact .marker (by simpa using hscript)
    · exact absurd h nofun
  | slash =>
    simp only [step] at h
    split at h
    · obtain ⟨numerator, hn, h⟩ := bind_eq_ok.1 h
      cases h
      exact .slash hn
    · exact absurd h nofun
  | closer d =>
    simp only [step] at h
    split at h
    · obtain ⟨inside, hinside, hlevel⟩ := bind_eq_ok.1 h
      split at hlevel
      · exact absurd hlevel nofun
      · split_ifs at hlevel with hd
        obtain ⟨group, hgroup, hfill⟩ := bind_eq_ok.1 hlevel
        cases hfill
        exact hd ▸ .closer hinside hgroup
    · exact absurd h nofun
    · exact absurd h nofun

/-- the steps that succeed are the moves -/
theorem step_eq_ok_iff {limit : Nat} {s s' : State} {t : Token} : step limit s t = .ok s' ↔ Moves limit s t s' :=
  ⟨moves_of_step, Moves.step_eq⟩

theorem slot_error {limit offset : Nat} {focus : Focus} {e : SyntaxError} (h : focus.slot limit offset = .error e) :
    e.cause = .tooManyLevels limit := by
  cases focus with
  | opening => exact absurd h nofun
  | factor run term =>
    rcases bind_eq_error.1 h with h | ⟨last, -, h⟩
    · exact (term.close_yields limit).cause_of_error h
    · exact absurd h nofun
  | marker run term side => exact absurd h nofun

theorem closeLevel_error {limit : Nat} {division : Option Division} {run : Run} {term : Term} {e : SyntaxError}
    (h : closeLevel limit division run term = .error e) : e.cause = .tooManyLevels limit :=
  (closeLevel_yields limit division run term).cause_of_error h

/-- why a step fails: a finished part has too many levels, a delimiter has no room, or the text is at fault -/
inductive Fails (limit : Nat) (s : State) (t : Token) (e : SyntaxError) : Prop
  | levels (hcause : e.cause = .tooManyLevels limit)
  | nesting {d : Delimiter} (hposition : e.position = t.offset) (hcause : e.cause = .nestedTooDeep limit)
    (hkind : t.kind = .opener d) (hroom : limit ≤ s.frames.length)
  | text (hposition : e.position = t.offset) (hlimit : e.cause.isLimit = false) (hrun : e.cause ≠ .emptyRun)

/-- the steps that fail do so in one of the three ways -/
theorem fails_of_step {limit : Nat} {s : State} {t : Token} {e : SyntaxError} (h : step limit s t = .error e) :
    Fails limit s t e := by
  obtain ⟨kind, offset⟩ := t
  cases kind with
  | char c =>
    rcases bind_eq_error.1 h with h | ⟨slot, -, h⟩
    · exact .levels (slot_error h)
    · exact absurd h nofun
  | opener d =>
    rcases bind_eq_error.1 h with h | ⟨slot, -, h⟩
    · exact .levels (slot_error h)
    · split_ifs at h with hroom
      · cases h; exact .nesting rfl rfl rfl hroom
      · exact absurd h nofun
  | marker side =>
    simp only [step] at h
    split at h
    · split_ifs at h; cases h; exact .text rfl rfl nofun
    · cases h; exact .text rfl rfl nofun
  | slash =>
    simp only [step] at h
    split at h
    · rcases bind_eq_error.1 h with h | ⟨numerator, -, h⟩
      · exact .levels (closeLevel_error h)
      · exact absurd h nofun
    · cases h; exact .text rfl rfl nofun
  | closer d =>
    simp only [step] at h
    split at h
    · rcases bind_eq_error.1 h with h | ⟨inside, -, h⟩
      · exact .levels (closeLevel_error h)
      · split at h
        · cases h; exact .text rfl rfl nofun
        · split_ifs at h
          · rcases bind_eq_error.1 h with h | ⟨group, -, h⟩
            · exact .levels ((Frame.wrap_yields limit _ inside).cause_of_error h)
            · exact absurd h nofun
          · cases h; exact .text rfl rfl nofun
    · cases h
      split_ifs
      · exact .text rfl rfl nofun
      · exact .text rfl rfl nofun
    · cases h; exact .text rfl rfl nofun

/-- a step fails because a limit was exceeded, or at the token it was given for a fault of the text -/
theorem step_fault {limit : Nat} {s : State} {t : Token} {e : SyntaxError} (h : step limit s t = .error e) :
    e.IsRefusal limit ∨ e.position = t.offset ∧ e.cause ≠ .emptyRun := by
  cases fails_of_step h with
  | levels hcause => exact Or.inl (Or.inl hcause)
  | nesting hposition hcause hkind hroom => exact Or.inl (Or.inr hcause)
  | text hposition hlimit hrun => exact Or.inr ⟨hposition, hrun⟩

theorem step_error {limit : Nat} {s : State} {t : Token} {e : SyntaxError} (h : step limit s t = .error e) :
    e.IsRefusal limit ∨ e.position = t.offset :=
  (step_fault h).imp_right And.left

theorem step_lenient (s : State) (t : Token) : Lenient fun l => step l s t := by
  obtain ⟨kind, offset⟩ := t
  obtain ⟨frames, division, focus⟩ := s
  cases kind with
  | char c => exact (Lenient.slot focus offset).bind fun slot => Lenient.const _
  | opener d =>
    refine (Lenient.slot focus offset).bind fun slot l l' hl => ?_
    by_cases hroom : l ≤ frames.length
    · exact Or.inr ⟨⟨offset, .nestedTooDeep l⟩, by simp only [hroom, if_true]; rfl, Or.inr rfl⟩
    · left; simp only [hroom, show ¬ l' ≤ frames.length by omega, if_false]
  | marker side => exact Lenient.const _
  | slash =>
    cases focus with
    | factor run term => exact (Lenient.closeLevel division run term).bind fun _ => Lenient.const _
    | _ => exact Lenient.const _
  | closer d =>
    cases focus with
    | opening => cases division <;> cases frames <;> exact Lenient.const _
    | marker run term side => exact Lenient.const _
    | factor run term =>
      refine (Lenient.closeLevel division run term).bind fun inside => ?_
      cases frames with
      | nil => exact Lenient.const _
      | cons frame outer =>
        by_cases hd : frame.delimiter = d
        · simp only [hd, if_true]; exact (Lenient.wrap frame inside).bind fun _ => Lenient.const _
        · simp only [hd, if_false]; exact Lenient.const _

/-! ## A run of steps -/

/-- reading the tokens leads from one state to the other -/
def Reads (limit : Nat) (s : State) (ts : List Token) (s' : State) : Prop :=
  ts.foldlM (step limit) s = .ok s'

namespace Reads

variable {limit : Nat} {s s' s'' : State} {t : Token} {ts us : List Token}

theorem nil : Reads limit s [] s := rfl

theorem one (h : step limit s t = .ok s') : Reads limit s [t] s' := by
  simp [Reads, h]

theorem append_iff : Reads limit s (ts ++ us) s'' ↔ ∃ s', Reads limit s ts s' ∧ Reads limit s' us s'' := by
  rw [Reads, List.foldlM_append, bind_eq_ok]
  rfl

theorem append (h : Reads limit s ts s') (h' : Reads limit s' us s'') : Reads limit s (ts ++ us) s'' :=
  append_iff.2 ⟨s', h, h'⟩

/-- the tokens decide where a run leads -/
theorem unique (h : Reads limit s ts s') (h' : Reads limit s ts s'') : s' = s'' :=
  Except.ok.inj (h.symm.trans h')

end Reads

/-- a run that fails reads some of its tokens and fails at the next one -/
theorem foldlM_error {limit : Nat} {s : State} {ts : List Token} {e : SyntaxError}
    (h : ts.foldlM (step limit) s = .error e) :
    ∃ before t after s', ts = before ++ t :: after ∧ Reads limit s before s' ∧ step limit s' t = .error e := by
  induction ts generalizing s with
  | nil => exact absurd h nofun
  | cons t ts ih =>
    rcases bind_eq_error.1 h with h | ⟨s', hs', h⟩
    · exact ⟨[], t, ts, s, rfl, .nil, h⟩
    · obtain ⟨before, t', after, s'', rfl, hread, hstep⟩ := ih h
      exact ⟨t :: before, t', after, s'', rfl, Reads.append (.one hs') hread, hstep⟩

theorem foldlM_lenient (s : State) (ts : List Token) : Lenient fun l => ts.foldlM (step l) s := by
  induction ts generalizing s with
  | nil => exact Lenient.const _
  | cons t ts ih => exact (step_lenient s t).bind fun s' => ih s'

theorem finish_lenient (ending : Nat) (s : State) : Lenient fun l => s.finish l ending := by
  obtain ⟨frames, division, focus⟩ := s
  cases focus with
  | factor run term =>
    refine (Lenient.closeLevel division run term).bind fun whole => ?_
    cases frames <;> exact Lenient.const _
  | _ => exact Lenient.const _

/-- a larger limit reads the same formula or finds the same fault, unless a limit was exceeded -/
theorem parseTokens_lenient (ending : Nat) (ts : List Token) : Lenient fun l => parseTokens l ending ts := by
  cases ts with
  | nil => exact Lenient.const _
  | cons t ts => exact (foldlM_lenient .start (t :: ts)).bind fun s => finish_lenient ending s

end FormulaLayout.Notation
