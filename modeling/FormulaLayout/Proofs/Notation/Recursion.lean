/-
The recursive descent ends, and what it spends.

- `Ends` says that a computation has an answer, and what is true of it; it has one rule for each primitive of the
  descent and one for sequences.
- `Spends` is what a computation leaves behind: the tokens that are left are a suffix of those there were, the counter
  is what it was, and neither it nor the calls of `group` that were let in have gone beyond the limit; with the one that
  is refused there was one more. An answer without an error has taken a least number of tokens.
- `Inside`: a call is made inside of another only if a token has been taken before or its rank is lower. That bounds the
  calls inside one another (`Procedure.needs`), and `call_bounded` is by induction on the room for them.
- `call_ends`: every call has an answer, whatever room it has beyond what it needs (`call_extends`).
-/
import Mathlib.Tactic
import FormulaLayout.Notation.Descent
import FormulaLayout.Proofs.Notation.Lookahead

namespace FormulaLayout.Notation

/-! ## Looking at a token and taking it -/

namespace Reader

/-- the reader behind a look at the next token -/
def looked (r : Reader) : Reader :=
  { r with cursor := r.cursor.peek.2 }

/-- the reader behind the next token -/
def taken (r : Reader) : Reader :=
  { r with cursor := r.cursor.next.2 }

@[simp]
theorem looked_tokens (r : Reader) : r.looked.tokens = r.tokens :=
  r.cursor.peek_eq.2

@[simp]
theorem taken_tokens (r : Reader) : r.taken.tokens = r.tokens.tail :=
  r.cursor.next_eq.2

@[simp]
theorem enter_tokens (r : Reader) (depth : Nat) : (r.enter depth).tokens = r.tokens := rfl

@[simp]
theorem enter_nesting (r : Reader) (depth : Nat) : (r.enter depth).nesting = r.nesting := rfl

@[simp]
theorem letIn_tokens (r : Reader) (depth : Nat) : (r.letIn depth).tokens = r.tokens := rfl

@[simp]
theorem raise_tokens (r : Reader) : r.raise.tokens = r.tokens := rfl

end Reader

namespace Descent

variable {α β : Type} {r after : Reader}

/-! ## Computations that end -/

/-- an attempt has an answer where the computation has one -/
theorem run_attempt (x : Descent α) (r : Reader) :
    (attempt x).run.run r = (x.run.run r).map fun (result, after) => (.ok result, after) := by
  simp [attempt]

/-- the computation has an answer, which is as described -/
def Ends (x : Descent α) (r : Reader) (Q : Except SyntaxError α → Reader → Prop) : Prop :=
  ∃ result after, x.run.run r = some (result, after) ∧ Q result after

namespace Ends

variable {x : Descent α} {f : α → Descent β} {Q : Except SyntaxError α → Reader → Prop}
  {R : Except SyntaxError β → Reader → Prop}

theorem mono {Q' : Except SyntaxError α → Reader → Prop} (h : Ends x r Q)
    (hQ : ∀ result after, Q result after → Q' result after) : Ends x r Q' := by
  obtain ⟨result, after, hrun, h⟩ := h
  exact ⟨result, after, hrun, hQ result after h⟩

/-- there is only one answer -/
theorem and {Q' : Except SyntaxError α → Reader → Prop} (h : Ends x r Q) (h' : Ends x r Q') :
    Ends x r fun result after => Q result after ∧ Q' result after := by
  obtain ⟨result, after, hrun, h⟩ := h
  obtain ⟨result', after', hrun', h'⟩ := h'
  rw [hrun] at hrun'
  cases hrun'
  exact ⟨result, after, hrun, h, h'⟩

theorem pure {a : α} (h : Q (.ok a) r) : Ends (pure a) r Q :=
  ⟨_, _, rfl, h⟩

theorem throw {e : SyntaxError} (h : Q (.error e) r) : Ends (throw e) r Q :=
  ⟨_, _, rfl, h⟩

theorem lift {y : Except SyntaxError α} (h : Q y r) : Ends (liftM y : Descent α) r Q :=
  ⟨_, _, rfl, h⟩

/-- one computation and then, without an error, another -/
theorem bind (h : Ends x r Q) (hok : ∀ a after, Q (.ok a) after → Ends (f a) after R)
    (herror : ∀ e after, Q (.error e) after → R (.error e) after) : Ends (x >>= f) r R := by
  obtain ⟨result, after, hrun, h⟩ := h
  have hbind : (x >>= f).run.run r = (ExceptT.bindCont f result).run after := by
    rw [ExceptT.run_bind, StateT.run_bind, hrun]
    cases result <;> rfl
  cases result with
  | ok a =>
    obtain ⟨result', after', hrun', h'⟩ := hok a after h
    exact ⟨result', after', hbind.trans hrun', h'⟩
  | error e => exact ⟨.error e, after, hbind, herror e after h⟩

theorem peek {f : Option Token → Descent β} (h : Ends (f r.tokens.head?) r.looked R) :
    Ends (Descent.peek >>= f) r R := by
  rw [Reader.tokens, ← r.cursor.peek_eq.1] at h
  exact h

theorem next {f : Option Token → Descent β} (h : Ends (f r.tokens.head?) r.taken R) :
    Ends (Descent.next >>= f) r R := by
  rw [Reader.tokens, ← r.cursor.next_eq.1] at h
  exact h

/-- one computation and then another that is told whether there was an error -/
theorem attempt {f : Except SyntaxError α → Descent β} (h : Ends x r Q)
    (hf : ∀ result after, Q result after → Ends (f result) after R) : Ends (Descent.attempt x >>= f) r R := by
  obtain ⟨result, after, hrun, h⟩ := h
  have hattempt : Ends (Descent.attempt x) r fun result' after' => result' = .ok result ∧ after' = after :=
    ⟨_, _, by rw [run_attempt, hrun]; rfl, rfl, rfl⟩
  refine hattempt.bind ?_ nofun
  rintro _ _ ⟨⟨⟩, rfl⟩
  exact hf result _ h

/-- one computation and then a result that is there already -/
theorem liftBind {y : Except SyntaxError α} (hok : ∀ a, y = .ok a → Ends (f a) r R)
    (herror : ∀ e, y = .error e → R (.error e) r) : Ends ((liftM y : Descent α) >>= f) r R :=
  (lift (Q := fun result after => result = y ∧ after = r) ⟨rfl, rfl⟩).bind
    (fun a _ ⟨ha, hafter⟩ => hafter ▸ hok a ha.symm) fun e _ ⟨he, hafter⟩ => hafter ▸ herror e he.symm

theorem get {f : Reader → Descent β} (h : Ends (f r) r R) : Ends (MonadState.get >>= f) r R := h

theorem modify {g : Reader → Reader} {f : PUnit → Descent β} (h : Ends (f ⟨⟩) (g r) R) :
    Ends (modify g >>= f) r R := h

end Ends

end Descent

/-! ## What a computation spends -/

/-- from the one reader to the other, tokens were only taken, the counter is what it was, and it did not go beyond the
limit; nor did the calls of `group` inside one another, of which there were `depth`, but for the one that is refused -/
structure Reader.Goes (limit depth : Nat) (r after : Reader) : Prop where
  tokens : after.tokens <:+ r.tokens
  nesting : after.nesting = r.nesting
  highest : after.highest ≤ max r.highest limit
  live : after.live ≤ max r.live (depth + (limit - r.nesting) + 1)
  admitted : after.admitted ≤ max r.admitted (depth + (limit - r.nesting))

namespace Reader.Goes

variable {limit depth : Nat} {r after behind : Reader}

theorem refl (r : Reader) : r.Goes limit depth r :=
  ⟨List.suffix_rfl, rfl, le_max_left _ _, le_max_left _ _, le_max_left _ _⟩

theorem trans (h : r.Goes limit depth after) (h' : after.Goes limit depth behind) : r.Goes limit depth behind where
  tokens := h'.tokens.trans h.tokens
  nesting := h'.nesting.trans h.nesting
  highest := h'.highest.trans (max_le h.highest (le_max_right _ _))
  live := by
    have hlive := h'.live
    rw [h.nesting] at hlive
    exact hlive.trans (max_le h.live (le_max_right _ _))
  admitted := by
    have hadmitted := h'.admitted
    rw [h.nesting] at hadmitted
    exact hadmitted.trans (max_le h.admitted (le_max_right _ _))

theorem looked (r : Reader) : r.Goes limit depth r.looked :=
  ⟨by simp, rfl, le_max_left _ _, le_max_left _ _, le_max_left _ _⟩

theorem taken (r : Reader) : r.Goes limit depth r.taken :=
  ⟨by simp [List.tail_suffix], rfl, le_max_left _ _, le_max_left _ _, le_max_left _ _⟩

/-- one more call, whether it is let in or not -/
theorem enter (r : Reader) : r.Goes limit depth (r.enter (depth + 1)) where
  tokens := List.suffix_rfl
  nesting := rfl
  highest := le_max_left _ _
  live := by
    simp only [Reader.enter]
    omega
  admitted := le_max_left _ _

/-- one more call is let in, if the counter has room for it -/
theorem letIn (hroom : r.nesting < limit) : r.Goes limit depth (r.letIn (depth + 1)) where
  tokens := List.suffix_rfl
  nesting := rfl
  highest := le_max_left _ _
  live := le_max_left _ _
  admitted := by
    simp only [Reader.letIn]
    omega

/-- what is done with the counter raised, and the counter lowered again -/
theorem enclosed (hroom : r.nesting < limit) (h : r.raise.Goes limit (depth + 1) after) :
    r.Goes limit depth after.lower where
  tokens := h.tokens
  nesting := by simp [Reader.lower, h.nesting, Reader.raise]
  highest := by
    have hhighest := h.highest
    simp only [Reader.raise, Reader.lower] at hhighest ⊢
    omega
  live := by
    have hlive := h.live
    simp only [Reader.raise, Reader.lower] at hlive ⊢
    omega
  admitted := by
    have hadmitted := h.admitted
    simp only [Reader.raise, Reader.lower] at hadmitted ⊢
    omega

end Reader.Goes

namespace Descent

/-- what an answer has spent: without an error it has taken a least number of tokens -/
structure Spends (limit depth least : Nat) (r : Reader) (result : Except SyntaxError α) (after : Reader) : Prop where
  goes : r.Goes limit depth after
  taken : result.isOk → after.tokens.length + least ≤ r.tokens.length

namespace Spends

variable {limit depth m n : Nat} {result : Except SyntaxError α} {behind : Reader}

theorem error {e : SyntaxError} (hgoes : r.Goes limit depth after) :
    Spends limit depth n r (.error e : Except SyntaxError α) after :=
  ⟨hgoes, nofun⟩

theorem mono (hle : m ≤ n) (h : Spends limit depth n r result after) : Spends limit depth m r result after :=
  ⟨h.goes, fun hok => by have := h.taken hok; omega⟩

/-- an answer from a reader behind some tokens -/
theorem trans (hgoes : r.Goes limit depth after) (hlen : after.tokens.length + m ≤ r.tokens.length)
    (h : Spends limit depth n after result behind) : Spends limit depth (m + n) r result behind :=
  ⟨hgoes.trans h.goes, fun hok => by have := h.taken hok; omega⟩

end Spends

/-- the computation ends and spends no more than that -/
def Bounded (limit depth least : Nat) (x : Descent α) (r : Reader) : Prop :=
  Ends x r (Spends limit depth least r)

namespace Bounded

variable {limit depth m n : Nat} {x : Descent α} {f : α → Descent β}

theorem pure (a : α) : Bounded limit depth 0 (pure a) r :=
  Ends.pure ⟨.refl r, fun _ => le_rfl⟩

theorem throw (e : SyntaxError) : Bounded limit depth n (throw e : Descent α) r :=
  Ends.throw (.error (.refl r))

theorem lift (y : Except SyntaxError α) : Bounded limit depth 0 (liftM y : Descent α) r :=
  Ends.lift ⟨.refl r, fun _ => le_rfl⟩

/-- one computation and then another, which takes what the first may leave to take -/
theorem bind (hx : Bounded limit depth m x r)
    (hf : ∀ a after, r.Goes limit depth after → after.tokens.length + m ≤ r.tokens.length →
      Bounded limit depth (n - m) (f a) after) :
    Bounded limit depth n (x >>= f) r :=
  Ends.bind hx
    (fun a after h => Ends.mono (hf a after h.goes (h.taken rfl)) fun _ _ h' =>
      (h'.trans h.goes (h.taken rfl)).mono (by omega))
    fun _ _ h => .error h.goes

theorem liftBind {y : Except SyntaxError α} (hf : ∀ a, Bounded limit depth n (f a) r) :
    Bounded limit depth n ((liftM y : Descent α) >>= f) r :=
  Ends.liftBind (fun a _ => hf a) fun _ _ => .error (.refl r)

theorem peek {f : Option Token → Descent β} (h : Bounded limit depth n (f r.tokens.head?) r.looked) :
    Bounded limit depth n (Descent.peek >>= f) r := by
  refine Ends.peek (Ends.mono h fun result after hspends => ?_)
  simpa using hspends.trans (.looked r) (m := 0) (by simp)

/-- the next token is taken, if there is one -/
theorem next {f : Option Token → Descent β} (hnone : r.tokens = [] → Bounded limit depth n (f none) r.taken)
    (hsome : ∀ t, r.taken.tokens.length + 1 = r.tokens.length → Bounded limit depth (n - 1) (f (some t)) r.taken) :
    Bounded limit depth n (Descent.next >>= f) r := by
  refine Ends.next ?_
  cases htokens : r.tokens with
  | nil =>
    refine Ends.mono (hnone htokens) fun result after hspends => ?_
    simpa using hspends.trans (.taken r) (m := 0) (by simp)
  | cons t ts =>
    have hlen : r.taken.tokens.length + 1 = r.tokens.length := by simp [htokens]
    exact Ends.mono (hsome t hlen) fun result after h => (h.trans (.taken r) hlen.le).mono (by omega)

end Bounded

/-! ## The procedures -/

variable {limit ending depth : Nat}

theorem refuseEmpty_bounded (delimiter : Delimiter) : Bounded limit depth 0 (refuseEmpty delimiter) r := by
  refine Bounded.peek ?_
  split
  · split_ifs
    · exact Bounded.throw _
    · exact Bounded.pure _
  · exact Bounded.pure _

theorem closeGroup_bounded (delimiter : Delimiter) (opened : Nat) (inside : Part) :
    Bounded limit depth 1 (closeGroup ending delimiter opened inside) r := by
  refine Bounded.next (fun _ => Bounded.throw _) fun t _ => ?_
  obtain ⟨kind, offset⟩ := t
  cases kind with
  | closer found =>
    by_cases hfound : found = delimiter
    · simpa only [hfound, if_true] using Bounded.pure inside
    · simpa only [hfound, if_false] using Bounded.throw _
  | _ => exact Bounded.throw _

namespace Procedure

/-- the tokens that an answer without an error has taken at least: a loop may stop at once, and a group has a closer -/
def least : Procedure → Nat
  | expression | concat | term | factor => 1
  | group _ _ => 2
  | quotients _ | terms _ _ | scripts _ => 0

/-- a procedure that calls another at once, before it takes a token, has a higher rank -/
def rank : Procedure → Nat
  | quotients _ | scripts _ => 0
  | factor => 1
  | term => 2
  | concat | terms _ _ => 3
  | expression => 4
  | group _ _ => 5

/-- the room that a call needs at most if so many tokens are left -/
def needs (p : Procedure) (left : Nat) : Nat :=
  6 * left + p.rank + 1

theorem rank_le (p : Procedure) : p.rank ≤ 5 := by
  cases p <;> simp [rank]

end Procedure

/-- a call that can be made inside of another: a token has been taken before, or the rank is lower -/
def Inside (q : Procedure) (r' : Reader) (p : Procedure) (r : Reader) : Prop :=
  r'.tokens.length < r.tokens.length ∨ r'.tokens.length ≤ r.tokens.length ∧ q.rank < p.rank

theorem Inside.needs_lt {p q : Procedure} {r' : Reader} (h : Inside q r' p r) :
    q.needs r'.tokens.length < p.needs r.tokens.length := by
  have hq := q.rank_le
  unfold Procedure.needs
  unfold Inside at h
  omega

/-- the calls that can be made inside of a call are bounded -/
def CallsBounded (limit : Nat) (calls : Nat → Procedure → Descent Part) (p : Procedure) (r : Reader) : Prop :=
  ∀ depth (q : Procedure) (r' : Reader), Inside q r' p r → Bounded limit depth q.least (calls depth q) r'

section

variable {calls : Nat → Procedure → Descent Part}

theorem expression_bounded (hcalls : CallsBounded limit calls .expression r) :
    Bounded limit depth 1 (body limit ending calls depth .expression) r := by
  refine (hcalls depth .concat r (.inr ⟨le_rfl, by decide⟩)).bind (m := 1) fun parsed after _ hlen => ?_
  exact hcalls depth (.quotients parsed) after (.inl (by omega))

theorem quotients_bounded {parsed : Part} (hcalls : CallsBounded limit calls (.quotients parsed) r) :
    Bounded limit depth 0 (body limit ending calls depth (.quotients parsed)) r := by
  refine Bounded.peek ?_
  rcases hhead : r.tokens.head? with _ | ⟨kind, offset⟩
  · exact Bounded.pure _
  cases kind with
  | slash =>
    refine Bounded.next (fun hnil => by simp_all) fun _ hlen => ?_
    rw [Reader.looked_tokens] at hlen
    refine (hcalls depth .concat _ (.inl (by omega))).bind (m := 1) fun denominator after _ hlen' => ?_
    exact Bounded.liftBind fun quotient => hcalls depth (.quotients quotient) after (.inl (by omega))
  | _ => exact Bounded.pure _

theorem concat_bounded (hcalls : CallsBounded limit calls .concat r) :
    Bounded limit depth 1 (body limit ending calls depth .concat) r := by
  refine Bounded.peek ?_
  refine (hcalls depth .term _ (.inr ⟨by simp, by decide⟩)).bind (m := 1) fun first after _ hlen => ?_
  rw [Reader.looked_tokens] at hlen
  exact hcalls depth (.terms _ first) after (.inl (by omega))

theorem terms_bounded {run : Run} {last : Part} (hcalls : CallsBounded limit calls (.terms run last) r) :
    Bounded limit depth 0 (body limit ending calls depth (.terms run last)) r := by
  refine Bounded.peek ?_
  have hround : Bounded limit depth 0 (do calls depth (.terms (run.push last) (← calls depth .term))) r.looked := by
    refine (hcalls depth .term _ (.inr ⟨by simp, Nat.lt_add_one 2⟩)).bind (m := 1) fun next after _ hlen => ?_
    rw [Reader.looked_tokens] at hlen
    exact hcalls depth (.terms _ next) after (.inl (by omega))
  rcases r.tokens.head? with _ | ⟨kind, offset⟩
  · exact Bounded.lift _
  cases kind with
  | char c => exact hround
  | opener d => exact hround
  | _ => exact Bounded.lift _

theorem term_bounded (hcalls : CallsBounded limit calls .term r) :
    Bounded limit depth 1 (body limit ending calls depth .term) r := by
  refine (hcalls depth .factor r (.inr ⟨le_rfl, by decide⟩)).bind (m := 1) fun base after _ hlen => ?_
  exact hcalls depth (.scripts _) after (.inl (by omega))

theorem scripts_bounded {term : Term} (hcalls : CallsBounded limit calls (.scripts term) r) :
    Bounded limit depth 0 (body limit ending calls depth (.scripts term)) r := by
  refine Bounded.peek ?_
  rcases hhead : r.tokens.head? with _ | ⟨kind, offset⟩
  · exact Bounded.lift _
  cases kind with
  | marker side =>
    by_cases htwice : (term.script? side).isSome
    · simpa only [htwice, if_true] using Bounded.throw _
    simp only [htwice]
    refine Bounded.next (fun hnil => by simp_all) fun _ hlen => ?_
    rw [Reader.looked_tokens] at hlen
    refine (hcalls depth .factor _ (.inl (by omega))).bind (m := 1) fun script after _ hlen' => ?_
    exact hcalls depth (.scripts _) after (.inl (by omega))
  | _ => exact Bounded.lift _

theorem factor_bounded (hcalls : CallsBounded limit calls .factor r) :
    Bounded limit depth 1 (body limit ending calls depth .factor) r := by
  refine Bounded.next (fun _ => Bounded.throw _) fun t hlen => ?_
  obtain ⟨kind, offset⟩ := t
  cases kind with
  | char c => exact Bounded.pure _
  | opener d => exact (hcalls depth (.group d offset) _ (.inl (by omega))).bind fun inside after _ _ => Bounded.lift _
  | _ => exact Bounded.throw _

/-- one group too many is refused when its call is under way, before anything is taken -/
theorem body_refuses {delimiter : Delimiter} {opened : Nat} (hfull : limit ≤ r.nesting) :
    (body limit ending calls depth (.group delimiter opened)).run.run r =
      some (.error ⟨opened, .nestedTooDeep limit⟩, r.enter (depth + 1)) := by
  have hends : Ends (body limit ending calls depth (.group delimiter opened)) r fun result after =>
      result = .error ⟨opened, .nestedTooDeep limit⟩ ∧ after = r.enter (depth + 1) := by
    refine Ends.modify (Ends.get ?_)
    rw [Reader.enter_nesting, if_pos hfull]
    exact Ends.throw ⟨rfl, rfl⟩
  obtain ⟨_, _, hrun, rfl, rfl⟩ := hends
  exact hrun

/-- the counter is lowered again whatever the answer of the inside is -/
theorem group_bounded {delimiter : Delimiter} {opened : Nat}
    (hcalls : CallsBounded limit calls (.group delimiter opened) r) :
    Bounded limit depth 2 (body limit ending calls depth (.group delimiter opened)) r := by
  rcases Nat.lt_or_ge r.nesting limit with hroom | hfull
  swap
  · exact ⟨_, _, body_refuses hfull, .error (.enter r)⟩
  refine Ends.modify (Ends.get ?_)
  rw [Reader.enter_nesting, if_neg (Nat.not_le.2 hroom)]
  have hgoes : r.Goes limit depth ((r.enter (depth + 1)).letIn (depth + 1)) := (Reader.Goes.enter r).trans (.letIn hroom)
  suffices hrest : Bounded limit depth 2 (do
      refuseEmpty delimiter
      modify Reader.raise
      let inside ← attempt (calls (depth + 1) .expression)
      modify Reader.lower
      closeGroup ending delimiter opened (← inside)) ((r.enter (depth + 1)).letIn (depth + 1)) from
    Ends.modify (Ends.mono hrest fun _ _ h => (h.trans hgoes (m := 0) le_rfl).mono (by omega))
  refine (refuseEmpty_bounded delimiter).bind fun _ before hbefore hlen => ?_
  have hexpression := hcalls (depth + 1) .expression before.raise (.inr ⟨hlen, Nat.lt_add_one 4⟩)
  refine Ends.modify (Ends.attempt hexpression fun inside after hinside => Ends.modify ?_)
  have henclosed : before.Goes limit depth after.lower := .enclosed (by rwa [hbefore.nesting]) hinside.goes
  cases inside with
  | error e => exact Ends.liftBind nofun fun e _ => .error henclosed
  | ok inside =>
    refine Ends.liftBind (fun a _ => ?_) nofun
    exact Ends.mono (closeGroup_bounded delimiter opened a) fun _ _ h => h.trans henclosed (hinside.taken rfl)

/-- a procedure is bounded if the calls are that it makes -/
theorem body_bounded {p : Procedure} (hcalls : CallsBounded limit calls p r) :
    Bounded limit depth p.least (body limit ending calls depth p) r := by
  cases p with
  | expression => exact expression_bounded hcalls
  | quotients parsed => exact quotients_bounded hcalls
  | concat => exact concat_bounded hcalls
  | terms run last => exact terms_bounded hcalls
  | term => exact term_bounded hcalls
  | scripts term => exact scripts_bounded hcalls
  | factor => exact factor_bounded hcalls
  | group delimiter opened => exact group_bounded hcalls

end

/-- a call is bounded if it has the room that it needs -/
theorem call_bounded {room : Nat} {p : Procedure} (hroom : p.needs r.tokens.length ≤ room) :
    Bounded limit depth p.least (call limit ending room depth p) r := by
  induction room generalizing depth p r with
  | zero => exact absurd hroom (Nat.not_succ_le_zero _)
  | succ room ih =>
    exact body_bounded fun depth q r' hinside => ih (Nat.le_of_lt_succ (hinside.needs_lt.trans_le hroom))

/-! ## More room -/

/-- where the one computation has an answer, the other has the same -/
def Extends (x y : Descent α) : Prop :=
  ∀ r answer, x.run.run r = some answer → y.run.run r = some answer

namespace Extends

variable {x y : Descent α} {f g : α → Descent β}

theorem refl (x : Descent α) : Extends x x :=
  fun _ _ => id

theorem bind (hx : Extends x y) (hf : ∀ a, Extends (f a) (g a)) : Extends (x >>= f) (y >>= g) := by
  intro r answer h
  rw [ExceptT.run_bind, StateT.run_bind] at h ⊢
  obtain ⟨⟨result, after⟩, hrun, h⟩ := Option.bind_eq_some_iff.1 h
  rw [hx r _ hrun]
  cases result with
  | ok a => exact hf a after answer h
  | error e => exact h

theorem attempt (hx : Extends x y) : Extends (attempt x) (attempt y) := by
  intro r answer h
  rw [run_attempt] at h ⊢
  obtain ⟨answer', hrun, rfl⟩ := Option.map_eq_some_iff.1 h
  rw [hx r answer' hrun]
  rfl

end Extends

theorem body_extends {calls calls' : Nat → Procedure → Descent Part}
    (h : ∀ depth q, Extends (calls depth q) (calls' depth q)) (p : Procedure) :
    Extends (body limit ending calls depth p) (body limit ending calls' depth p) := by
  cases p with
  | expression => exact (h depth _).bind fun _ => h depth _
  | quotients parsed =>
    refine (Extends.refl _).bind fun t => ?_
    split
    · exact (Extends.refl _).bind fun _ => (h depth _).bind fun _ => (Extends.refl _).bind fun _ => h depth _
    · exact Extends.refl _
  | concat => exact (Extends.refl _).bind fun _ => (h depth _).bind fun _ => h depth _
  | terms run last =>
    refine (Extends.refl _).bind fun t => ?_
    split
    · exact (h depth _).bind fun _ => h depth _
    · exact (h depth _).bind fun _ => h depth _
    · exact Extends.refl _
  | term => exact (h depth _).bind fun _ => h depth _
  | scripts term =>
    refine (Extends.refl _).bind fun t => ?_
    split
    · split_ifs
      · exact Extends.refl _
      · exact (Extends.refl _).bind fun _ => (h depth _).bind fun _ => h depth _
    · exact Extends.refl _
  | factor =>
    refine (Extends.refl _).bind fun t => ?_
    split
    · exact Extends.refl _
    · exact Extends.refl _
    · exact (h depth _).bind fun _ => Extends.refl _
    · exact Extends.refl _
  | group delimiter opened =>
    refine (Extends.refl _).bind fun _ => (Extends.refl _).bind fun r => ?_
    split_ifs
    · exact Extends.refl _
    · exact (Extends.refl _).bind fun _ => (Extends.refl _).bind fun _ => (Extends.refl _).bind fun _ =>
        (h (depth + 1) _).attempt.bind fun _ => (Extends.refl _).bind fun _ => Extends.refl _

theorem call_extends {room more : Nat} (hle : room ≤ more) (p : Procedure) :
    Extends (call limit ending room depth p) (call limit ending more depth p) := by
  induction room generalizing more depth p with
  | zero => exact fun _ _ => nofun
  | succ room ih =>
    obtain ⟨more, rfl⟩ := Nat.exists_eq_add_of_lt hle
    exact body_extends (fun depth q => ih (Nat.le_add_right room more) q) p

/-- every call has an answer, the same with any room from what it needs on -/
theorem call_ends (p : Procedure) (limit ending depth : Nat) (r : Reader) : ∃ result after,
    (∀ room, p.needs r.tokens.length ≤ room → (call limit ending room depth p).run.run r = some (result, after)) ∧
      Spends limit depth p.least r result after := by
  obtain ⟨result, after, hrun, hspends⟩ : Bounded limit depth p.least (call limit ending _ depth p) r :=
    call_bounded le_rfl
  exact ⟨result, after, fun room hroom => call_extends hroom p r _ hrun, hspends⟩

/-! ## The whole text -/

theorem formula_bounded {room : Nat} (hroom : Procedure.expression.needs r.tokens.length ≤ room) :
    Bounded limit 0 1 (formula limit ending room) r := by
  refine Bounded.peek ?_
  split_ifs
  · exact Bounded.throw _
  have hexpression : Bounded limit 0 1 (call limit ending room 0 .expression) r.looked := call_bounded (by simpa)
  refine hexpression.bind fun parsed after _ _ => ?_
  refine Bounded.next (fun _ => Bounded.pure _) fun t _ => ?_
  obtain ⟨kind, offset⟩ := t
  cases kind <;> exact Bounded.throw _

theorem formula_extends {room more : Nat} (hle : room ≤ more) :
    Extends (formula limit ending room) (formula limit ending more) := by
  refine (Extends.refl _).bind fun t => ?_
  split_ifs
  · exact Extends.refl _
  · exact (call_extends hle .expression).bind fun _ => Extends.refl _

end Descent

end FormulaLayout.Notation
