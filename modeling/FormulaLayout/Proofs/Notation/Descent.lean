/-
The recursive descent and the machine of `step` are one parser.

The machine is in some state when a procedure is called, and the call reads what the machine goes on to read:
- `State.answer` is what the machine answers from a state on; taking a token that `step` accepts keeps the answer.
- `Agrees`: an error of the call is the machine's answer, and otherwise the machine goes on from a state that holds the
  part that the call returned. For a factor it fills the slot; a term, a run and a level that the call has closed are
  still open in the machine, which closes them at the next token, so `Stops` says which tokens can be next.
- `call_simulates`: every call reads what the machine reads (`Simulates`, a statement for each procedure).
- `parse_eq`: for every text, both give the same formula or the same error.
- `descent_bounded`: this with what the descent spends.
-/
import Mathlib.Tactic
import FormulaLayout.Proofs.Notation.Recursion
import FormulaLayout.Proofs.Notation.Steps

namespace FormulaLayout.Notation

/-! ## The machine's answer -/

variable {limit ending depth : Nat} {s s' : State} {t : Token} {ts : List Token}

/-- what the machine answers if it reads the tokens from a state on -/
def State.answer (limit ending : Nat) (s : State) (ts : List Token) : Except SyntaxError Expr := do
  (← ts.foldlM (step limit) s).finish limit ending

namespace State

theorem answer_nil (limit ending : Nat) (s : State) : s.answer limit ending [] = s.finish limit ending := rfl

theorem answer_cons : s.answer limit ending (t :: ts) = (step limit s t >>= fun s' => s'.answer limit ending ts) := by
  simp only [answer, List.foldlM_cons, bind_assoc]

theorem answer_of_moves (h : Moves limit s t s') : s.answer limit ending (t :: ts) = s'.answer limit ending ts := by
  rw [answer_cons, h.step_eq]
  rfl

theorem answer_of_fails {e : SyntaxError} (h : step limit s t = .error e) :
    s.answer limit ending (t :: ts) = .error e := by
  rw [answer_cons, h]
  rfl

end State

/-! ## Where the loops stop -/

/-- the innermost loop that goes on with a token: scripts, terms or quotients; a closer ends them all -/
def TokenKind.loop : TokenKind → Nat
  | marker _ => 0
  | char _ | opener _ => 1
  | slash => 2
  | closer _ => 3

/-- the loops up to a given one do not go on with the next token -/
def Stops (loop : Nat) (ts : List Token) : Prop :=
  ∀ t ∈ ts.head?, loop ≤ t.kind.loop

variable {frames : List Frame} {division : Option Division} {run : Run} {term : Term}

/-- at the end of a level, the machine reports what closing it reports -/
theorem answer_of_closeLevel_error {e : SyntaxError} (hstops : Stops 2 ts)
    (h : closeLevel limit division run term = .error e) :
    State.answer limit ending ⟨frames, division, .factor run term⟩ ts = .error e := by
  rcases ts with _ | ⟨⟨kind, offset⟩, ts⟩
  · simp only [State.answer_nil, State.finish, h]
    rfl
  refine State.answer_of_fails ?_
  have hkind := hstops _ rfl
  cases kind with
  | slash => simp only [step, h]; rfl
  | closer d => simp only [step, h]; rfl
  | _ => exact absurd hkind (by simp [TokenKind.loop])

/-- at the end of a term, the machine reports what closing it reports -/
theorem answer_of_close_error {e : SyntaxError} (hstops : Stops 1 ts) (h : term.close limit = .error e) :
    State.answer limit ending ⟨frames, division, .factor run term⟩ ts = .error e := by
  have hlevel : closeLevel limit division run term = .error e := by rw [closeLevel, h]; rfl
  rcases ts with _ | ⟨⟨kind, offset⟩, ts⟩
  · exact answer_of_closeLevel_error nofun hlevel
  have hkind := hstops _ rfl
  cases kind with
  | marker side => exact absurd hkind (by simp [TokenKind.loop])
  | char c => exact State.answer_of_fails (by simp only [step, Focus.slot, h]; rfl)
  | opener d => exact State.answer_of_fails (by simp only [step, Focus.slot, h]; rfl)
  | _ => exact answer_of_closeLevel_error (by simp [Stops, TokenKind.loop]) hlevel

/-! ## Where a factor is read -/

/-- the machine is to read a factor, which will fill the slot -/
structure Awaits (limit ending : Nat) (s : State) (ts : List Token) (slot : Slot) : Prop where
  missing : ts = [] → s.finish limit ending = .error ⟨ending, .unexpectedEnd⟩
  fits : ∀ t ∈ ts.head?, s.focus.slot limit t.offset = .ok slot
  fault : ∀ t ∈ ts.head?, t.kind.loop ≠ 1 → step limit s t = .error ⟨t.offset, .unexpected t.kind⟩

namespace Awaits

/-- at the start of a run; a closer there must not make an empty group -/
theorem opening {start : Nat} (hstart : ∀ t ∈ ts.head?, t.offset = start)
    (hinside : ∀ t ∈ ts.head?, ∀ frame ∈ frames.head?, division = none → t.kind ≠ .closer frame.delimiter) :
    Awaits limit ending ⟨frames, division, .opening⟩ ts (.base ⟨start, []⟩) where
  missing _ := rfl
  fits t ht := by rw [Focus.slot, hstart t ht]
  fault t ht hloop := by
    have hinside := hinside t ht
    obtain ⟨kind, offset⟩ := t
    cases kind with
    | closer d =>
      cases division with
      | some division => rfl
      | none =>
        cases frames with
        | nil => rfl
        | cons frame outer =>
          have hne : frame.delimiter ≠ d := fun heq => hinside frame rfl rfl (heq ▸ rfl)
          simp only [step, if_neg hne]
    | marker side => rfl
    | slash => rfl
    | _ => exact absurd rfl hloop

theorem marker {side : Side} : Awaits limit ending ⟨frames, division, .marker run term side⟩ ts
    (.script run term side) where
  missing _ := rfl
  fits _ _ := rfl
  fault t _ hloop := by
    obtain ⟨kind, offset⟩ := t
    cases kind with
    | char c => exact absurd rfl hloop
    | opener d => exact absurd rfl hloop
    | _ => rfl

/-- behind a term, if the next token starts another one -/
theorem factor {last : Part} (hlast : term.close limit = .ok last) (ht : ts.head? = some t) (hloop : t.kind.loop = 1) :
    Awaits limit ending ⟨frames, division, .factor run term⟩ ts (.base (run.push last)) where
  missing hnil := by simp [hnil] at ht
  fits _ _ := by rw [Focus.slot, hlast]; rfl
  fault t' ht' hloop' := by
    cases ht.symm.trans ht'
    exact absurd hloop hloop'

end Awaits

/-! ## Calls -/

namespace Descent

variable {r after : Reader}

/-- an error is the machine's answer, and otherwise the machine goes on from a state that holds the part -/
def Agrees (limit ending : Nat) (s : State) (ts : List Token) (P : Part → State → Reader → Prop) :
    Except SyntaxError Part → Reader → Prop
  | .error e, _ => s.answer limit ending ts = .error e
  | .ok part, after =>
    ∃ s', s.answer limit ending ts = s'.answer limit ending after.tokens ∧ P part s' after

variable {P Q : Part → State → Reader → Prop} {x : Descent Part} {f : Part → Descent Part}

/-- what agrees from a state that the machine gets to agrees from the state that it came from -/
theorem Agrees.trans {ts' : List Token} {result : Except SyntaxError Part}
    (heq : s.answer limit ending ts = s'.answer limit ending ts') (h : Agrees limit ending s' ts' P result after) :
    Agrees limit ending s ts P result after := by
  cases result with
  | error e => exact heq.trans h
  | ok part =>
    obtain ⟨s'', heq', hP⟩ := h
    exact ⟨s'', heq.trans heq', hP⟩

/-- one call and then what is made of its part -/
theorem Ends.followed {m : Nat} (hx : Ends x r (Agrees limit ending s r.tokens P))
    (hspends : Bounded limit depth m x r)
    (hf : ∀ part s' after, P part s' after → r.Goes limit depth after →
      after.tokens.length + m ≤ r.tokens.length → Ends (f part) after (Agrees limit ending s' after.tokens Q)) :
    Ends (x >>= f) r (Agrees limit ending s r.tokens Q) := by
  refine Ends.bind (hx.and hspends) (fun part after h => ?_) fun e after h => h.1
  obtain ⟨⟨s', heq, hP⟩, hspends⟩ := h
  exact (hf part s' after hP hspends.goes (hspends.taken rfl)).mono fun _ _ => .trans heq

/-- the machine's answer if a group has been read: it wraps the inside and fills the slot that it kept in the frame -/
def GroupAgrees (limit ending : Nat) (answer : Except SyntaxError Expr) (frames : List Frame) (frame : Frame) :
    Except SyntaxError Part → Reader → Prop
  | .error e, _ => answer = .error e
  | .ok inside, after => answer = (frame.wrap limit inside >>= fun part =>
      State.answer limit ending ⟨frames, frame.division, frame.slot.fill part⟩ after.tokens)

/-- the group fills its slot, or it has too many levels in the machine as well -/
theorem GroupAgrees.grouped {slot : Slot} {delimiter : Delimiter} {opened : Nat} {inside : Part}
    (h : GroupAgrees limit ending (s.answer limit ending ts) s.frames ⟨delimiter, opened, s.division, slot⟩
      (.ok inside) after) :
    Agrees limit ending s ts (fun part s' _ => s' = { s with focus := slot.fill part })
      (inside.grouped limit opened delimiter) after := by
  change s.answer limit ending ts = (inside.grouped limit opened delimiter >>= _) at h
  cases hgrouped : inside.grouped limit opened delimiter with
  | error e =>
    rw [hgrouped] at h
    exact h
  | ok part =>
    rw [hgrouped] at h
    exact ⟨_, h, rfl⟩

/-- a term has been read; the machine has yet to close it -/
def TermRead (limit : Nat) (frames : List Frame) (division : Option Division) (run : Run) (part : Part) (s : State)
    (after : Reader) : Prop :=
  Stops 1 after.tokens ∧ ∃ term : Term, s = ⟨frames, division, .factor run term⟩ ∧ term.close limit = .ok part

/-- a run has been read -/
def RunRead (limit : Nat) (frames : List Frame) (division : Option Division) (part : Part) (s : State)
    (after : Reader) : Prop :=
  Stops 2 after.tokens ∧
    ∃ run term, s = ⟨frames, division, .factor run term⟩ ∧ closeLevel limit none run term = .ok part

/-- a level has been read -/
def LevelRead (limit : Nat) (frames : List Frame) (part : Part) (s : State) (after : Reader) : Prop :=
  Stops 3 after.tokens ∧
    ∃ division run term, s = ⟨frames, division, .factor run term⟩ ∧ closeLevel limit division run term = .ok part

/-- the loop that reads scripts stops and closes the term -/
theorem close_agrees (hstops : Stops 1 after.tokens) :
    Agrees limit ending ⟨frames, division, .factor run term⟩ after.tokens (TermRead limit frames division run)
      (term.close limit) after := by
  cases hclose : term.close limit with
  | error e => exact answer_of_close_error hstops hclose
  | ok part => exact ⟨_, rfl, hstops, term, rfl, hclose⟩

theorem closeLevel_of_close {last : Part} (hlast : term.close limit = .ok last) :
    closeLevel limit none run term = run.close limit last := by
  rw [closeLevel, hlast]
  exact bind_pure (run.close limit last)

theorem closeLevel_divided {joined : Part} (numerator : Part) (slash : Nat)
    (h : closeLevel limit none run term = .ok joined) :
    closeLevel limit (some ⟨numerator, slash⟩) run term = Part.checked limit slash
      ⟨Formula.divide numerator.expr joined.expr, 1 + max numerator.levels joined.levels⟩ := by
  obtain ⟨last, hlast, h⟩ := bind_eq_ok.1 h
  obtain ⟨_, hjoined, h⟩ := bind_eq_ok.1 h
  cases h
  simp only [closeLevel, hlast, bind, Except.bind, hjoined]

/-- the loop that reads terms stops and closes the run -/
theorem closeRun_agrees {last : Part} (hstops : Stops 2 after.tokens) (hlast : term.close limit = .ok last) :
    Agrees limit ending ⟨frames, division, .factor run term⟩ after.tokens (RunRead limit frames division)
      (run.close limit last) after := by
  cases hclose : run.close limit last with
  | error e =>
    refine answer_of_closeLevel_error hstops ?_
    simp only [closeLevel, hlast, bind, Except.bind, hclose]
  | ok part => exact ⟨_, rfl, hstops, run, term, rfl, (closeLevel_of_close hlast).trans hclose⟩

/-- the machine takes the token that the call takes -/
theorem Ends.moved (htokens : r.tokens = t :: ts) (hmoves : Moves limit s t s')
    (h : Ends x r.taken (Agrees limit ending s' r.taken.tokens P)) :
    Ends x r.taken (Agrees limit ending s r.tokens P) := by
  have htaken : r.taken.tokens = ts := by simp [htokens]
  refine h.mono fun _ _ => .trans ?_
  rw [htokens, htaken, State.answer_of_moves hmoves]

/-- a group is refused as empty if its closer is next -/
theorem refuseEmpty_ends (delimiter : Delimiter) : Ends (refuseEmpty delimiter) r fun
    | .error e, _ => ∃ offset, r.tokens.head? = some ⟨.closer delimiter, offset⟩ ∧ e = ⟨offset, .emptyGroup⟩
    | .ok _, after => after = r.looked ∧ ∀ t ∈ r.tokens.head?, t.kind ≠ .closer delimiter := by
  refine Ends.peek ?_
  rcases r.tokens.head? with _ | ⟨kind, offset⟩
  · exact Ends.pure ⟨rfl, nofun⟩
  cases kind with
  | closer found =>
    by_cases hfound : found = delimiter
    · simp only [hfound, if_true]
      exact Ends.throw ⟨offset, rfl, rfl⟩
    · simp only [hfound, if_false]
      exact Ends.pure ⟨rfl, by simp [hfound]⟩
  | _ => exact Ends.pure ⟨rfl, by simp⟩

/-- behind a level, the group is closed, or the machine finds the same fault -/
theorem closeGroup_agrees (frame : Frame) {inside : Part} (hstops : Stops 3 r.tokens)
    (hinside : closeLevel limit division run term = .ok inside) :
    Ends (closeGroup ending frame.delimiter frame.offset inside) r
      (GroupAgrees limit ending (State.answer limit ending ⟨frame :: frames, division, .factor run term⟩ r.tokens)
        frames frame) := by
  refine Ends.next ?_
  rcases htokens : r.tokens with _ | ⟨⟨kind, offset⟩, ts⟩
  · refine Ends.throw ?_
    simp only [GroupAgrees, State.answer_nil, State.finish, hinside]
    rfl
  have hkind := hstops ⟨kind, offset⟩ (by simp [htokens])
  cases kind with
  | closer found =>
    have htaken : r.taken.tokens = ts := by simp [htokens]
    by_cases hfound : found = frame.delimiter
    · simp only [List.head?_cons, hfound, if_true]
      refine Ends.pure ?_
      simp only [GroupAgrees, htaken, State.answer_cons, step, hinside, bind, Except.bind, if_true]
      cases frame.wrap limit inside <;> rfl
    · simp only [List.head?_cons, hfound, if_false]
      refine Ends.throw (State.answer_of_fails ?_)
      simp only [step, hinside, bind, Except.bind, if_neg (Ne.symm hfound)]
      rfl
  | _ => exact absurd hkind (by simp [TokenKind.loop])

/-- a call of a procedure reads what the machine reads, in every state in which the machine can be at the call -/
def Simulates (limit ending : Nat) (x : Descent Part) (r : Reader) : Procedure → Prop
  | .expression => ∀ frames : List Frame, frames.length = r.nesting →
      (∀ t ∈ r.tokens.head?, ∀ frame ∈ frames.head?, t.kind ≠ .closer frame.delimiter) →
      Ends x r (Agrees limit ending ⟨frames, none, .opening⟩ r.tokens (LevelRead limit frames))
  | .quotients parsed => ∀ (frames : List Frame) division run term, frames.length = r.nesting → Stops 2 r.tokens →
      closeLevel limit division run term = .ok parsed →
      Ends x r (Agrees limit ending ⟨frames, division, .factor run term⟩ r.tokens (LevelRead limit frames))
  | .concat => ∀ (frames : List Frame) division, frames.length = r.nesting →
      (∀ t ∈ r.tokens.head?, ∀ frame ∈ frames.head?, division = none → t.kind ≠ .closer frame.delimiter) →
      Ends x r (Agrees limit ending ⟨frames, division, .opening⟩ r.tokens (RunRead limit frames division))
  | .terms run last => ∀ (frames : List Frame) division (term : Term), frames.length = r.nesting → Stops 1 r.tokens →
      term.close limit = .ok last →
      Ends x r (Agrees limit ending ⟨frames, division, .factor run term⟩ r.tokens (RunRead limit frames division))
  | .term => ∀ (s : State) run, s.frames.length = r.nesting → Awaits limit ending s r.tokens (.base run) →
      Ends x r (Agrees limit ending s r.tokens (TermRead limit s.frames s.division run))
  | .scripts term => ∀ (frames : List Frame) division run, frames.length = r.nesting →
      Ends x r (Agrees limit ending ⟨frames, division, .factor run term⟩ r.tokens (TermRead limit frames division run))
  | .factor => ∀ (s : State) slot, s.frames.length = r.nesting → Awaits limit ending s r.tokens slot →
      Ends x r (Agrees limit ending s r.tokens fun part s' _ => s' = { s with focus := slot.fill part })
  | .group delimiter opened => ∀ (s : State) slot, s.frames.length = r.nesting → s.focus.slot limit opened = .ok slot →
      Ends x r (GroupAgrees limit ending (s.answer limit ending (⟨.opener delimiter, opened⟩ :: r.tokens)) s.frames
        ⟨delimiter, opened, s.division, slot⟩)

/-- the calls that can be made inside of a call are bounded and read what the machine reads -/
def CallsSimulate (limit ending : Nat) (calls : Nat → Procedure → Descent Part) (p : Procedure) (r : Reader) : Prop :=
  ∀ depth (q : Procedure) (r' : Reader), Inside q r' p r →
    Bounded limit depth q.least (calls depth q) r' ∧ Simulates limit ending (calls depth q) r' q

section

variable {calls : Nat → Procedure → Descent Part}

theorem factor_simulates (hcalls : CallsSimulate limit ending calls .factor r) :
    Simulates limit ending (body limit ending calls depth .factor) r .factor := by
  intro s slot hnesting hawaits
  refine Ends.next ?_
  rcases htokens : r.tokens with _ | ⟨⟨kind, offset⟩, ts⟩
  · exact Ends.throw (hawaits.missing htokens)
  rw [htokens] at hawaits
  have hfits := hawaits.fits _ rfl
  have htaken : r.taken.tokens = ts := by simp [htokens]
  cases kind with
  | char c => exact Ends.pure ⟨_, htaken ▸ State.answer_of_moves (.char hfits), rfl⟩
  | opener d =>
    obtain ⟨-, hgroup⟩ := hcalls depth (.group d offset) r.taken (.inl (by simp [htokens]))
    have hinside := hgroup s slot hnesting hfits
    rw [htaken] at hinside
    exact Ends.bind hinside (fun inside after h => Ends.lift h.grouped) fun e after h => h
  | _ => exact Ends.throw (State.answer_of_fails (hawaits.fault _ rfl (by simp [TokenKind.loop])))

theorem scripts_simulates {term : Term} (hcalls : CallsSimulate limit ending calls (.scripts term) r) :
    Simulates limit ending (body limit ending calls depth (.scripts term)) r (.scripts term) := by
  intro frames division run hnesting
  refine Ends.peek ?_
  rw [← r.looked_tokens]
  rcases htokens : r.looked.tokens with _ | ⟨⟨kind, offset⟩, ts⟩
  · exact Ends.lift (htokens ▸ close_agrees (by simp [Stops, htokens]))
  cases kind with
  | marker side =>
    rw [← htokens]
    cases htwice : term.script? side with
    | some script =>
      simp only [htokens, List.head?_cons, htwice, Option.isSome_some, if_true]
      exact Ends.throw (State.answer_of_fails (by simp [step, htwice]))
    | none =>
      simp only [htokens, List.head?_cons, htwice, Option.isSome_none]
      rw [← htokens]
      refine Ends.next (Ends.moved htokens (.marker htwice) ?_)
      have hlen : r.looked.taken.tokens.length + 1 = r.tokens.length := by rw [← r.looked_tokens]; simp [htokens]
      obtain ⟨hbounded, hfactor⟩ := hcalls depth .factor r.looked.taken (.inl (by omega))
      refine (hfactor _ _ hnesting .marker).followed (m := 1) hbounded ?_
      rintro script s' after rfl hgoes hlen'
      obtain ⟨-, hscripts⟩ := hcalls depth (.scripts _) after (.inl (by omega))
      exact hscripts _ _ _ (hnesting.trans hgoes.nesting.symm)
  | _ => exact Ends.lift (htokens ▸ close_agrees (by simp [Stops, htokens, TokenKind.loop]))

theorem term_simulates (hcalls : CallsSimulate limit ending calls .term r) :
    Simulates limit ending (body limit ending calls depth .term) r .term := by
  intro s run hnesting hawaits
  obtain ⟨hbounded, hfactor⟩ := hcalls depth .factor r (.inr ⟨le_rfl, by decide⟩)
  refine (hfactor _ _ hnesting hawaits).followed (m := 1) hbounded ?_
  rintro base s' after rfl hgoes hlen
  obtain ⟨-, hscripts⟩ := hcalls depth (.scripts (.ofBase base)) after (.inl (by omega))
  exact hscripts _ _ _ (hnesting.trans hgoes.nesting.symm)

theorem terms_simulates {run : Run} {last : Part} (hcalls : CallsSimulate limit ending calls (.terms run last) r) :
    Simulates limit ending (body limit ending calls depth (.terms run last)) r (.terms run last) := by
  intro frames division term hnesting hstops hlast
  refine Ends.peek ?_
  rw [← r.looked_tokens] at hstops ⊢
  have hround (t : Token) (ht : r.looked.tokens.head? = some t) (hloop : t.kind.loop = 1) :
      Ends (do calls depth (.terms (run.push last) (← calls depth .term))) r.looked
        (Agrees limit ending ⟨frames, division, .factor run term⟩ r.looked.tokens (RunRead limit frames division)) := by
    obtain ⟨hbounded, hterm⟩ := hcalls depth .term r.looked (.inr ⟨by simp, Nat.lt_add_one 2⟩)
    refine (hterm _ _ hnesting (.factor hlast ht hloop)).followed (m := 1) hbounded ?_
    rintro next s' after ⟨hstops', term', rfl, hnext⟩ hgoes hlen
    rw [r.looked_tokens] at hlen
    obtain ⟨-, hterms⟩ := hcalls depth (.terms (run.push last) next) after (.inl (by omega))
    exact hterms _ _ _ (hnesting.trans hgoes.nesting.symm) hstops' hnext
  rcases htokens : r.looked.tokens with _ | ⟨⟨kind, offset⟩, ts⟩
  · exact Ends.lift (htokens ▸ closeRun_agrees (by simp [Stops, htokens]) hlast)
  rw [htokens] at hround
  cases kind with
  | marker side => exact absurd (hstops ⟨.marker side, offset⟩ (by simp [htokens])) (by simp [TokenKind.loop])
  | char c => exact hround _ rfl rfl
  | opener d => exact hround _ rfl rfl
  | _ => exact Ends.lift (htokens ▸ closeRun_agrees (by simp [Stops, htokens, TokenKind.loop]) hlast)

theorem concat_simulates (hcalls : CallsSimulate limit ending calls .concat r) :
    Simulates limit ending (body limit ending calls depth .concat) r .concat := by
  intro frames division hnesting hinside
  refine Ends.peek ?_
  have hstart (t : Token) (ht : t ∈ r.tokens.head?) : t.offset = r.tokens.head?.elim ending Token.offset := by
    rw [Option.mem_def.1 ht]
    rfl
  have hawaits : Awaits limit ending ⟨frames, division, .opening⟩ r.tokens _ := .opening hstart hinside
  rw [← r.looked_tokens] at hawaits ⊢
  obtain ⟨hbounded, hterm⟩ := hcalls depth .term r.looked (.inr ⟨by simp, by decide⟩)
  refine (hterm _ _ hnesting hawaits).followed (m := 1) hbounded ?_
  rintro first s' after ⟨hstops, term, rfl, hfirst⟩ hgoes hlen
  rw [r.looked_tokens] at hlen
  obtain ⟨-, hterms⟩ := hcalls depth (.terms _ first) after (.inl (by omega))
  exact hterms _ _ _ (hnesting.trans hgoes.nesting.symm) hstops hfirst

theorem quotients_simulates {parsed : Part} (hcalls : CallsSimulate limit ending calls (.quotients parsed) r) :
    Simulates limit ending (body limit ending calls depth (.quotients parsed)) r (.quotients parsed) := by
  intro frames division run term hnesting hstops hparsed
  refine Ends.peek ?_
  rw [← r.looked_tokens] at hstops ⊢
  rcases htokens : r.looked.tokens with _ | ⟨⟨kind, offset⟩, ts⟩
  · exact Ends.pure ⟨_, by rw [htokens], by simp [Stops, htokens], division, run, term, rfl, hparsed⟩
  have hkind := hstops ⟨kind, offset⟩ (by simp [htokens])
  cases kind with
  | slash =>
    rw [← htokens]
    simp only [htokens, List.head?_cons]
    rw [← htokens]
    refine Ends.next (Ends.moved htokens (.slash hparsed) ?_)
    have hlen : r.looked.taken.tokens.length + 1 = r.tokens.length := by rw [← r.looked_tokens]; simp [htokens]
    obtain ⟨hbounded, hconcat⟩ := hcalls depth .concat r.looked.taken (.inl (by omega))
    refine (hconcat frames (some ⟨parsed, offset⟩) hnesting (by simp)).followed (m := 1) hbounded ?_
    rintro denominator s' after ⟨hstops', run', term', rfl, hdenominator⟩ hgoes hlen'
    have hquotient := closeLevel_divided parsed offset hdenominator
    refine Ends.liftBind (fun quotient hok => ?_) fun e herror => ?_
    · obtain ⟨-, hquotients⟩ := hcalls depth (.quotients quotient) after (.inl (by omega))
      exact hquotients _ _ _ _ (hnesting.trans hgoes.nesting.symm) hstops' (hquotient.trans hok)
    · exact answer_of_closeLevel_error hstops' (hquotient.trans herror)
  | closer d =>
    have hends : Stops 3 r.looked.tokens := by simp [Stops, htokens, TokenKind.loop]
    exact Ends.pure ⟨_, by rw [htokens], hends, division, run, term, rfl, hparsed⟩
  | _ => exact absurd hkind (by simp [TokenKind.loop])

theorem expression_simulates (hcalls : CallsSimulate limit ending calls .expression r) :
    Simulates limit ending (body limit ending calls depth .expression) r .expression := by
  intro frames hnesting hinside
  obtain ⟨hbounded, hconcat⟩ := hcalls depth .concat r (.inr ⟨le_rfl, by decide⟩)
  refine (hconcat frames none hnesting fun t ht frame hframe _ => hinside t ht frame hframe).followed (m := 1)
    hbounded ?_
  rintro parsed s' after ⟨hstops, run, term, rfl, hparsed⟩ hgoes hlen
  obtain ⟨-, hquotients⟩ := hcalls depth (.quotients parsed) after (.inl (by omega))
  exact hquotients _ _ _ _ (hnesting.trans hgoes.nesting.symm) hstops hparsed

theorem group_simulates {delimiter : Delimiter} {opened : Nat}
    (hcalls : CallsSimulate limit ending calls (.group delimiter opened) r) :
    Simulates limit ending (body limit ending calls depth (.group delimiter opened)) r (.group delimiter opened) := by
  intro s slot hnesting hslot
  rcases Nat.lt_or_ge r.nesting limit with hroom | hfull
  swap
  · refine ⟨_, _, body_refuses hfull, State.answer_of_fails ?_⟩
    simp only [step, hslot, bind, Except.bind, hnesting, if_pos hfull]
    rfl
  refine Ends.modify (Ends.get ?_)
  rw [Reader.enter_nesting, if_neg (Nat.not_le.2 hroom), State.answer_of_moves (.opener hslot (hnesting ▸ hroom))]
  refine Ends.modify ?_
  -- the machine has opened the group, and reads its inside from here on
  refine Ends.bind (refuseEmpty_ends delimiter) ?_ ?_
  · rintro _ _ ⟨rfl, hempty⟩
    have htokens : ((r.enter (depth + 1)).letIn (depth + 1)).looked.raise.tokens = r.tokens := by simp
    obtain ⟨-, hexpression⟩ := hcalls (depth + 1) .expression ((r.enter (depth + 1)).letIn (depth + 1)).looked.raise
      (.inr ⟨by rw [htokens], Nat.lt_add_one 4⟩)
    have hlevel := hexpression (⟨delimiter, opened, s.division, slot⟩ :: s.frames) (congrArg (· + 1) hnesting)
      (by simpa using hempty)
    rw [htokens] at hlevel
    refine Ends.modify (Ends.attempt hlevel fun inside after hagrees => Ends.modify ?_)
    cases inside with
    | error e => exact Ends.liftBind (by simp) fun _ he => Except.error.inj he ▸ hagrees
    | ok inside =>
      obtain ⟨s', heq, hstops, division, run, term, rfl, hclose⟩ := hagrees
      rw [heq]
      refine Ends.liftBind (fun _ hok => ?_) (by simp)
      cases hok
      exact closeGroup_agrees (r := after.lower) ⟨delimiter, opened, s.division, slot⟩ hstops hclose
  · rintro e _ ⟨offset, hhead, rfl⟩
    obtain ⟨ts, htokens⟩ := List.head?_eq_some_iff.1 hhead
    rw [show r.tokens = _ from htokens]
    exact State.answer_of_fails (by simp only [step, if_true])

theorem body_simulates {p : Procedure} (hcalls : CallsSimulate limit ending calls p r) :
    Simulates limit ending (body limit ending calls depth p) r p := by
  cases p with
  | expression => exact expression_simulates hcalls
  | quotients parsed => exact quotients_simulates hcalls
  | concat => exact concat_simulates hcalls
  | terms run last => exact terms_simulates hcalls
  | term => exact term_simulates hcalls
  | scripts term => exact scripts_simulates hcalls
  | factor => exact factor_simulates hcalls
  | group delimiter opened => exact group_simulates hcalls

end

/-- every call that has the room it needs reads what the machine reads -/
theorem call_simulates {room : Nat} {p : Procedure} (hroom : p.needs r.tokens.length ≤ room) :
    Simulates limit ending (call limit ending room depth p) r p := by
  induction room generalizing depth p r with
  | zero => exact absurd hroom (Nat.not_succ_le_zero _)
  | succ room ih =>
    refine body_simulates fun depth q r' hinside => ?_
    have hroom' : q.needs r'.tokens.length ≤ room := Nat.le_of_lt_succ (hinside.needs_lt.trans_le hroom)
    exact ⟨call_bounded hroom', ih hroom'⟩

/-! ## The whole text -/

/-- the descent answers what the machine answers -/
theorem formula_agrees {room : Nat} (hnesting : r.nesting = 0)
    (hroom : Procedure.expression.needs r.tokens.length ≤ room) :
    Ends (formula limit ending room) r fun result _ => result = parseTokens limit ending r.tokens := by
  refine Ends.peek ?_
  rcases htokens : r.tokens with _ | ⟨t, ts⟩
  · exact Ends.throw rfl
  have hexpression : Simulates limit ending (call limit ending room 0 .expression) r.looked .expression :=
    call_simulates (by simpa)
  have hlevel := hexpression [] hnesting.symm (by simp)
  rw [r.looked_tokens, htokens] at hlevel
  refine Ends.bind hlevel (fun part after h => ?_) fun e after h => h.symm
  obtain ⟨s', heq, hstops, division, run, term, rfl, hpart⟩ := h
  change Ends _ after fun result _ => result = State.answer limit ending .start (t :: ts)
  rw [State.start, heq]
  refine Ends.next ?_
  rcases hafter : after.tokens with _ | ⟨⟨kind, offset⟩, ts'⟩
  · refine Ends.pure ?_
    simp only [State.answer_nil, State.finish, hpart]
    rfl
  have hkind := hstops ⟨kind, offset⟩ (by simp [hafter])
  cases kind with
  | closer d =>
    refine Ends.throw (State.answer_of_fails ?_).symm
    simp only [step, hpart]
    rfl
  | _ => exact absurd hkind (by simp [TokenKind.loop])

/-- the room that a text needs at most -/
def roomFor (input : String) : Nat :=
  Procedure.expression.needs (tokenize input).length

/-- with the room that it needs, the descent parses every text as `parse` does -/
theorem parse_eq (input : String) : ∃ behind,
    (∀ room, roomFor input ≤ room → Descent.parse room input = some (Notation.parse input, behind)) ∧
      (Reader.ofString input).Goes Formula.maxDepth 0 behind := by
  have hanswer : Ends (formula Formula.maxDepth input.length (roomFor input)) (.ofString input)
      fun result _ => result = Notation.parse input := formula_agrees rfl le_rfl
  obtain ⟨_, behind, hrun, rfl, hspends⟩ := hanswer.and (formula_bounded le_rfl)
  exact ⟨behind, fun room hroom => formula_extends hroom _ _ hrun, hspends.goes⟩

/-- **The parser ends on every input, with bounded recursion.** By recursive descent with room for enough calls inside
one another, every text is parsed as `parse` does it, and on the way the counter of open delimiters has never exceeded
128. Never more than 129 calls of `group` have been under way inside one another, and of these the limit has let in 128
at most; in the end the counter is zero.

Every single call, of a procedure or of a loop and at any reader, has an answer as well, and with more room it is the
same. No token comes back; without an error, `factor`, `term`, `concat` and `expression` have taken one at least. With
or without an error the counter is what it was; neither it nor the calls of `group` that are let in have gone beyond the
limit, and there was at most one more of them. That one is refused: it takes no token and makes no call. -/
theorem descent_bounded (input : String) :
    (∃ behind, (∀ room, roomFor input ≤ room → Descent.parse room input = some (Notation.parse input, behind)) ∧
      behind.tokens <:+ tokenize input ∧ behind.nesting = 0 ∧ behind.highest ≤ 128 ∧
        behind.live ≤ 129 ∧ behind.admitted ≤ 128) ∧
    (∀ (p : Procedure) (limit ending depth : Nat) (r : Reader), ∃ result after,
      (∀ room, p.needs r.tokens.length ≤ room →
        (call limit ending room depth p).run.run r = some (result, after)) ∧
      after.tokens <:+ r.tokens ∧ (result.isOk → after.tokens.length + p.least ≤ r.tokens.length) ∧
        after.nesting = r.nesting ∧ after.highest ≤ max r.highest limit ∧
        after.live ≤ max r.live (depth + (limit - r.nesting) + 1) ∧
        after.admitted ≤ max r.admitted (depth + (limit - r.nesting))) ∧
    ∀ (limit ending room depth : Nat) (delimiter : Delimiter) (opened : Nat) (r : Reader), limit ≤ r.nesting →
      (call limit ending (room + 1) depth (.group delimiter opened)).run.run r =
        some (.error ⟨opened, .nestedTooDeep limit⟩, r.enter (depth + 1)) := by
  refine ⟨?_, fun p limit ending depth r => ?_, fun limit ending room depth delimiter opened r => body_refuses⟩
  · obtain ⟨behind, hrun, hgoes⟩ := parse_eq input
    have hhighest : max 0 Formula.maxDepth = 128 := rfl
    have hlive : max 0 (0 + (Formula.maxDepth - 0) + 1) = 129 := rfl
    have hadmitted : max 0 (0 + (Formula.maxDepth - 0)) = 128 := rfl
    exact ⟨behind, hrun, hgoes.tokens, hgoes.nesting, hgoes.highest.trans hhighest.le, hgoes.live.trans hlive.le,
      hgoes.admitted.trans hadmitted.le⟩
  · obtain ⟨result, after, hrun, hgoes, htaken⟩ := call_ends p limit ending depth r
    exact ⟨result, after, hrun, hgoes.tokens, htaken, hgoes.nesting, hgoes.highest, hgoes.live, hgoes.admitted⟩

/-- the call that is refused is under way like the others: behind 129 openers there have been 129 calls of `group`
inside one another, one more than the limit has let in -/
theorem unbroken_openers_live :
    ¬ ∀ input result behind, Descent.parse (roomFor input) input = some (result, behind) → behind.live ≤ 128 := by
  intro h
  let openers := String.ofList (List.replicate 129 '(')
  have hrun : (Descent.parse (roomFor openers) openers).map (fun answer => answer.2.live) = some 129 := by
    decide +kernel
  obtain ⟨⟨result, behind⟩, hparse, hlive⟩ := Option.map_eq_some_iff.1 hrun
  have hbound : behind.live ≤ 128 := h _ _ _ hparse
  rw [show behind.live = 129 from hlive] at hbound
  exact absurd hbound (by decide)

end Descent

end FormulaLayout.Notation
