/-
Texts that are read as one formula.

A run depends on its text only through the formula that is read. So two texts that are read as the same formula, or
both as none, are laid out and drawn alike (`render_congr`), and a run leaves the same output and the same count behind
it for either (`run_congr`). Where both are refused the messages may differ, since they name a place in the text.

- `script_order_irrelevant`: the texts of a term with its two scripts in either order, in any surroundings.
-/
import FormulaLayout.Pipeline
import FormulaLayout.Proofs.Notation.Image
import FormulaLayout.Proofs.Notation.ScriptOrder

namespace FormulaLayout

open Notation (Part Grammar.Factor kinds parse parse_swap)

variable {input input' : String}

/-- two texts that are read as the same formulas give the same answer, or are both refused -/
theorem parse_eq_or_refused (h : ∀ e, parse input = .ok e ↔ parse input' = .ok e) :
    parse input = parse input' ∨ ∃ fault fault', parse input = .error fault ∧ parse input' = .error fault' := by
  cases hi : parse input with
  | ok e => exact Or.inl ((h e).1 hi).symm
  | error fault =>
    cases hi' : parse input' with
    | ok e => exact absurd ((h e).2 hi') (by simp [hi])
    | error fault' => exact Or.inr ⟨fault, fault', rfl, rfl⟩

namespace Pipeline

theorem render_of_refused {fault : Notation.SyntaxError} (h : parse input = .error fault) (config : Config) :
    render config input = .error fault.toFault := by
  rw [render, h]; rfl

/-- one formula has one layout and one drawing -/
theorem render_congr (h : ∀ e, parse input = .ok e ↔ parse input' = .ok e) (config : Config) (rendering : Rendering) :
    render config input = .ok rendering ↔ render config input' = .ok rendering := by
  rcases parse_eq_or_refused h with heq | ⟨fault, fault', hi, hi'⟩
  · rw [render, render, heq]
  · rw [render_of_refused hi, render_of_refused hi']
    exact iff_of_false nofun nofun

/-- one formula has one document -/
theorem run_congr (h : ∀ e, parse input = .ok e ↔ parse input' = .ok e) (p : Pipeline) {σ : Type}
    (device : Device σ String) (out : σ) :
    (∀ rendering, (p.run device input out).1 = .ok rendering ↔ (p.run device input' out).1 = .ok rendering) ∧
      (p.run device input out).2 = (p.run device input' out).2 := by
  rcases parse_eq_or_refused h with heq | ⟨fault, fault', hi, hi'⟩
  · have hrender : render p.config input = render p.config input' := by rw [render, render, heq]
    rw [run, run, hrender]
    exact ⟨fun _ => Iff.rfl, rfl⟩
  · rw [run, run, render_of_refused hi, render_of_refused hi']
    exact ⟨fun _ => iff_of_false nofun nofun, rfl⟩

/-- **The order of scripts is irrelevant everywhere.** Between any two texts, whether or not what results is a formula,
two scripts that stand one behind the other can change places: the same formula is read or none is. So the layout, the
drawing, the document on any output and the count of runs are the same. -/
theorem script_order_irrelevant (pre post above below : String) {p q : Part} (habove : Grammar.Factor (kinds above) p)
    (hbelow : Grammar.Factor (kinds below) q) :
    let input := pre ++ "^" ++ above ++ "_" ++ below ++ post
    let swapped := pre ++ "_" ++ below ++ "^" ++ above ++ post
    (∀ e, parse input = .ok e ↔ parse swapped = .ok e) ∧
      (∀ config rendering, render config input = .ok rendering ↔ render config swapped = .ok rendering) ∧
        ∀ (pipeline : Pipeline) (σ : Type) (device : Device σ String) (out : σ),
          (∀ rendering, (pipeline.run device input out).1 = .ok rendering ↔
              (pipeline.run device swapped out).1 = .ok rendering) ∧
            (pipeline.run device input out).2 = (pipeline.run device swapped out).2 := by
  intro input swapped
  have hinput : kinds input = kinds pre ++ (.marker .above :: kinds above ++
      (.marker .below :: kinds below ++ kinds post)) := by
    simp [input, Notation.kinds_eq_spell]
  have hswapped : kinds swapped = kinds pre ++ (.marker .below :: kinds below ++
      (.marker .above :: kinds above ++ kinds post)) := by
    simp [swapped, Notation.kinds_eq_spell]
  have hsides : Notation.Side.above ≠ .below := nofun
  have hparse : ∀ e, parse input = .ok e ↔ parse swapped = .ok e := by
    intro e
    constructor
    · exact parse_swap hsides habove hbelow hinput hswapped
    · exact parse_swap hsides.symm hbelow habove hswapped hinput
  exact ⟨hparse, render_congr hparse, fun pipeline _ device out => run_congr hparse pipeline device out⟩

/-- a group and a character as scripts, inside the numerator of a fraction -/
theorem scripts_in_numerator_swapped : ∃ p q e, Grammar.Factor (kinds "\x7bjk\x7d") p ∧ Grammar.Factor (kinds "2") q ∧
    parse "(f^\x7bjk\x7d_2)/g" = .ok e ∧ parse "(f_2^\x7bjk\x7d)/g" = .ok e := by
  obtain ⟨e, he⟩ : ∃ e, parse "(f^\x7bjk\x7d_2)/g" = .ok e := ⟨_, rfl⟩
  have hgroup : Grammar.Factor (kinds "\x7bjk\x7d") _ := .brace ((Grammar.Factor.char 'j').beside (.char 'k'))
  have hdigit : Grammar.Factor (kinds "2") _ := .char '2'
  have hswap := (script_order_irrelevant "(f" ")/g" "\x7bjk\x7d" "2" hgroup hdigit).1 e
  exact ⟨_, _, e, hgroup, hdigit, he, hswap.1 he⟩

end Pipeline

end FormulaLayout
