/-
Steps that change a state and may fail.

An outcome has the state that a step left behind, also when it failed, and the error if there is one. `forEach` performs
a step for every item of a list and stops behind the first that fails; it splits over appended lists
(`forEach_append`). Steps on a larger state can be followed on a smaller one (`mapState_andThen`), and errors can be put
in other terms at each step (`mapError_andThen`).
-/
namespace FormulaLayout

/-- the state behind a step, and why the step failed, if it did -/
structure Outcome (σ ε : Type) where
  state : σ
  error? : Option ε
  deriving DecidableEq, Repr

namespace Outcome

variable {σ τ ε ε' β : Type}

/-- a step that succeeded -/
def done (s : σ) : Outcome σ ε := ⟨s, none⟩

/-- a step that failed -/
def failed (s : σ) (e : ε) : Outcome σ ε := ⟨s, some e⟩

/-- a further step, unless the first one failed -/
def andThen (o : Outcome σ ε) (next : σ → Outcome σ ε) : Outcome σ ε :=
  match o.error? with
  | none => next o.state
  | some _ => o

/-- the outcome seen from a larger or a smaller state -/
def mapState (f : σ → τ) (o : Outcome σ ε) : Outcome τ ε :=
  ⟨f o.state, o.error?⟩

/-- the outcome with its error in other terms -/
def mapError (f : ε → ε') (o : Outcome σ ε) : Outcome σ ε' :=
  ⟨o.state, o.error?.map f⟩

/-- one step for every item, up to the first that fails -/
def forEach (step : σ → β → Outcome σ ε) (s : σ) : List β → Outcome σ ε
  | [] => done s
  | item :: rest =>
    match step s item with
    | ⟨s, none⟩ => forEach step s rest
    | failure => failure

/-- the first item, and then the others unless it failed -/
theorem forEach_cons (step : σ → β → Outcome σ ε) (s : σ) (item : β) (rest : List β) :
    forEach step s (item :: rest) = (step s item).andThen (forEach step · rest) := by
  rw [forEach, andThen]
  rcases step s item with ⟨s', _ | e⟩ <;> rfl

theorem andThen_assoc (o : Outcome σ ε) (f g : σ → Outcome σ ε) :
    (o.andThen f).andThen g = o.andThen fun s => (f s).andThen g := by
  rcases o with ⟨s, _ | e⟩ <;> rfl

/-- the items of two lists one after the other -/
theorem forEach_append (step : σ → β → Outcome σ ε) (s : σ) (xs ys : List β) :
    forEach step s (xs ++ ys) = (forEach step s xs).andThen (forEach step · ys) := by
  induction xs generalizing s with
  | nil => rfl
  | cons x xs ih => simp only [List.cons_append, forEach_cons, andThen_assoc, ih]

theorem forEach_singleton (step : σ → β → Outcome σ ε) (s : σ) (item : β) : forEach step s [item] = step s item := by
  rw [forEach_cons]
  rcases step s item with ⟨s', _ | e⟩ <;> rfl

/-- steps for other items that stand for these -/
theorem forEach_map {γ : Type} (step : σ → β → Outcome σ ε) (f : γ → β) (s : σ) (items : List γ) :
    forEach step s (items.map f) = forEach (fun s item => step s (f item)) s items := by
  induction items generalizing s with
  | nil => rfl
  | cons item items ih => simp only [List.map_cons, forEach_cons, ih]

theorem andThen_done (o : Outcome σ ε) : o.andThen done = o := by
  rcases o with ⟨s, _ | e⟩ <;> rfl

/-- a further step seen from another state is a further step there -/
theorem mapState_andThen {f : σ → τ} {next : σ → Outcome σ ε} {next' : τ → Outcome τ ε} (o : Outcome σ ε)
    (h : ∀ s, (next s).mapState f = next' (f s)) : (o.andThen next).mapState f = (o.mapState f).andThen next' := by
  rcases o with ⟨s, _ | e⟩
  · exact h s
  · rfl

/-- a further step with its errors in other terms -/
theorem mapError_andThen (g : ε → ε') (o : Outcome σ ε) (next : σ → Outcome σ ε) :
    (o.andThen next).mapError g = (o.mapError g).andThen fun s => (next s).mapError g := by
  rcases o with ⟨s, _ | e⟩ <;> rfl

end Outcome

end FormulaLayout
