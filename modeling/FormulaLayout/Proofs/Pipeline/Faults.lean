/-
Which faults a text and a configuration can lead to.

The engine checks the scale, the corner, the depth, the root box and its far corner in this order, and each check has
an error of its own (`Engine.layout_error`). What is read is never too deep, so the check of the depth never fails behind
the parser (`layout_ne_tooDeep`). The parser itself has one error that is no fault of a text, a run without terms, and
never meets it (`parse_ne_emptyRun`).

- `typeset_fault_kinds`: typesetting fails for its text, its scale, its corner or its geometry, and for nothing else.
-/
import FormulaLayout.Pipeline
import FormulaLayout.Proofs.Notation.Image

namespace FormulaLayout

open Notation (bind_eq_error mapError_eq_ok mapError_eq_error)

/-! ## The checks of the engine -/

namespace Engine

variable {α : Type} [Scalar α]

theorem validate_error {engine : Engine α} {error : LayoutError α} (h : engine.validate = .error error) :
    error = .invalidScale engine.scale ∨ error = .invalidOrigin engine.origin := by
  unfold validate at h
  split_ifs at h
  · exact Or.inl (Except.error.inj h).symm
  · exact Or.inr (Except.error.inj h).symm

theorem checkBox_error {box : Sized α} {error : LayoutError α} (h : checkBox box = .error error) :
    error = .degenerateBox box := by
  unfold checkBox at h
  dsimp only at h
  split_ifs at h
  exact (Except.error.inj h).symm

theorem checkBounds_error {bounds : Rect α} {error : LayoutError α} (h : checkBounds bounds = .error error) :
    error = .unboundedBox bounds := by
  unfold checkBounds at h
  split_ifs at h
  exact (Except.error.inj h).symm

/-- an engine refuses its scale, its corner, a formula that is too deep, or the geometry of the root -/
theorem layout_error {engine : Engine α} {e : Expr} {error : LayoutError α} (h : engine.layout e = .error error) :
    error = .invalidScale engine.scale ∨ error = .invalidOrigin engine.origin ∨
      Formula.maxDepth < e.depth ∧ error = .tooDeep e.depth Formula.maxDepth ∨
        (∃ box, error = .degenerateBox box) ∨ ∃ bounds, error = .unboundedBox bounds := by
  unfold layout at h
  rcases bind_eq_error.1 h with h | ⟨_, -, h⟩
  · exact (validate_error h).imp_right Or.inl
  · by_cases hdepth : Formula.maxDepth < e.depth
    · rw [if_pos hdepth] at h
      exact Or.inr (Or.inr (Or.inl ⟨hdepth, (Except.error.inj h).symm⟩))
    · rw [if_neg hdepth] at h
      rcases bind_eq_error.1 h with h | ⟨_, -, h⟩
      · exact Or.inr (Or.inr (Or.inr (Or.inl ⟨_, checkBox_error h⟩)))
      · rcases bind_eq_error.1 h with h | ⟨_, -, h⟩
        · exact Or.inr (Or.inr (Or.inr (Or.inr ⟨_, checkBounds_error h⟩)))
        · exact absurd h nofun

/-- an engine refuses only what has too many levels as too deep -/
theorem depth_of_layout_tooDeep {engine : Engine α} {e : Expr} {depth limit : Nat}
    (h : engine.layout e = .error (.tooDeep depth limit)) : Formula.maxDepth < e.depth := by
  rcases layout_error h with h | h | ⟨hlt, -⟩ | ⟨_, h⟩ | ⟨_, h⟩
  · exact absurd h nofun
  · exact absurd h nofun
  · exact hlt
  · exact absurd h nofun
  · exact absurd h nofun

/-- what was read is not too deep for any engine -/
theorem layout_ne_tooDeep {input : String} {e : Expr} (h : Notation.parse input = .ok e) (engine : Engine α)
    (depth limit : Nat) : engine.layout e ≠ .error (.tooDeep depth limit) := by
  intro herror
  have hdeep := depth_of_layout_tooDeep herror
  have hdepth := Notation.parse_depth_le h
  omega

end Engine

/-! ## Typesetting -/

/-- no run of a text is without terms -/
theorem Notation.parse_ne_emptyRun (input : String) (position : Nat) :
    Notation.parse input ≠ .error ⟨position, .emptyRun⟩ :=
  fun h => Notation.parseTokens_cause_ne h rfl

/-- the fault of a text that is refused -/
theorem Notation.SyntaxError.toFault_of_parse {input : String} {e : Notation.SyntaxError}
    (h : Notation.parse input = .error e) : e.toFault = .parse e.position e.message := by
  have hcause := Notation.parseTokens_cause_ne h
  unfold Notation.SyntaxError.toFault
  split
  · rename_i hempty
    exact absurd hempty hcause
  · rfl

/-- typesetting fails where it reads, where it lays out, or in front of a command that is not finite -/
theorem typeset_error {input : String} {config : Config} {fault : Fault} (h : typeset input config = .error fault) :
    (∃ e, Notation.parse input = .error e ∧ fault = e.toFault) ∨
      ∃ e, Notation.parse input = .ok e ∧
        ((∃ error, config.engine.layout e = .error error ∧ fault = error.toFault) ∨
          ∃ command : Command Float32, fault = command.toFault) := by
  unfold typeset at h
  rcases bind_eq_error.1 h with h | ⟨e, hparse, h⟩
  · obtain ⟨e, he, rfl⟩ := mapError_eq_error.1 h
    exact Or.inl ⟨e, he, rfl⟩
  · refine Or.inr ⟨e, mapError_eq_ok.1 hparse, ?_⟩
    unfold drawExpr at h
    rcases bind_eq_error.1 h with h | ⟨tree, -, h⟩
    · obtain ⟨error, herror, rfl⟩ := mapError_eq_error.1 h
      exact Or.inl ⟨error, herror, rfl⟩
    · obtain ⟨command, -, rfl⟩ := mapError_eq_error.1 h
      exact Or.inr ⟨command, rfl⟩

/-- **Four kinds of faults.** What is read is not too deep for any engine, no run of a text is without terms, and
typesetting fails for its text, its scale, its corner or its geometry. -/
theorem typeset_fault_kinds :
    (∀ (input : String) (e : Expr), Notation.parse input = .ok e → e.depth ≤ Formula.maxDepth ∧
      ∀ (engine : Engine Float32) (depth limit : Nat), engine.layout e ≠ .error (.tooDeep depth limit)) ∧
    (∀ (input : String) (position : Nat), Notation.parse input ≠ .error ⟨position, .emptyRun⟩) ∧
    ∀ (input : String) (config : Config) (fault : Fault), typeset input config = .error fault →
      (∃ e, Notation.parse input = .error e ∧ fault = .parse e.position e.message) ∨
        fault = .invalidScale config.scale ∨ fault = .invalidOrigin config.origin ∨
          ∃ message, fault = .degenerateGeometry message := by
  refine ⟨?_, Notation.parse_ne_emptyRun, ?_⟩
  · intro input e h
    exact ⟨Notation.parse_depth_le h, fun engine => Engine.layout_ne_tooDeep h engine⟩
  · intro input config fault h
    rcases typeset_error h with ⟨e, he, rfl⟩ | ⟨e, he, ⟨error, herror, rfl⟩ | ⟨command, rfl⟩⟩
    · exact Or.inl ⟨e, he, Notation.SyntaxError.toFault_of_parse he⟩
    · have hdeep := Engine.layout_ne_tooDeep he config.engine
      rcases Engine.layout_error herror with rfl | rfl | ⟨-, rfl⟩ | ⟨box, rfl⟩ | ⟨bounds, rfl⟩
      · exact Or.inr (Or.inl rfl)
      · exact Or.inr (Or.inr (Or.inl rfl))
      · exact absurd herror (hdeep _ _)
      · exact Or.inr (Or.inr (Or.inr ⟨_, rfl⟩))
      · exact Or.inr (Or.inr (Or.inr ⟨_, rfl⟩))
    · exact Or.inr (Or.inr (Or.inr ⟨_, rfl⟩))

/-- a quotient that is read, at a scale at which its box is wider than any finite number -/
theorem oversized_quotient_refused :
    ∃ e fault, Notation.parse "abc/d" = .ok e ∧ e.depth ≤ Formula.maxDepth ∧
      typeset "abc/d" { Config.standard with scale := 3e38 } = .error fault ∧
        ∃ message, fault = .degenerateGeometry message := by
  obtain ⟨hread, -, hfaults⟩ := typeset_fault_kinds
  obtain ⟨e, he⟩ : ∃ e, Notation.parse "abc/d" = .ok e := ⟨_, rfl⟩
  have hkind : (match typeset "abc/d" { Config.standard with scale := 3e38 } with
      | .ok _ | .error (.invalidScale _) | .error (.invalidOrigin _) => false
      | _ => true) = true := by decide +kernel
  cases h : typeset "abc/d" { Config.standard with scale := 3e38 } with
  | ok drawing => rw [h] at hkind; exact absurd hkind nofun
  | error fault =>
    refine ⟨e, fault, he, (hread _ e he).1, rfl, ?_⟩
    rw [h] at hkind
    rcases hfaults _ _ _ h with ⟨error, herror, -⟩ | rfl | rfl | hmessage
    · rw [he] at herror; exact absurd herror nofun
    · exact absurd hkind nofun
    · exact absurd hkind nofun
    · exact hmessage

end FormulaLayout
