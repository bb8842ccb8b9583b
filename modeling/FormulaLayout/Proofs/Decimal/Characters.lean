/-
The characters of a number's text.

A number that is written out in full has digits and at most a point (`mem_positional`), a negative one begins with a
hyphen, and the values that are not finite are words of letters (`mem_text`).
-/
import Mathlib.Tactic
import FormulaLayout.Decimal.Style

namespace FormulaLayout.Decimal

/-- a number that is written out has digits and at most a point -/
theorem mem_positional {style : Style} {d : Digits} {c : Char} (h : c ∈ style.positional d) :
    c ∈ Nat.toDigits 10 d.digits ∨ c = '0' ∨ c = '.' := by
  unfold Style.positional at h
  dsimp only at h
  split_ifs at h <;> simp only [List.mem_append, List.mem_replicate, List.mem_cons, List.not_mem_nil, or_false] at h
  · tauto
  · tauto
  · rcases h with h | rfl | h
    · exact Or.inl (List.mem_of_mem_take h)
    · exact Or.inr (Or.inr rfl)
    · exact Or.inl (List.mem_of_mem_drop h)
  · tauto

/-- the text of a number has digits, a point and a hyphen, or it is the word for a value that is not finite -/
theorem mem_text {x : Float32} {c : Char} (h : c ∈ (text x).toList) : c.isDigit ∨ c ∈ "-.NaNinf".toList := by
  have hpositional : ∀ d, c ∈ Style.plain.positional d → c.isDigit ∨ c ∈ "-.NaNinf".toList := by
    intro d hc
    rcases mem_positional hc with hc | rfl | rfl
    · exact Or.inl (Nat.isDigit_of_mem_toDigits (by decide) (by decide) hc)
    · decide
    · decide
  have hword : ∀ w : String, (w.toList.all (· ∈ "-.NaNinf".toList)) = true → c ∈ w.toList →
      c.isDigit ∨ c ∈ "-.NaNinf".toList :=
    fun w hw hc => Or.inr (of_decide_eq_true (List.all_eq_true.1 hw c hc))
  unfold text Style.text Style.write at h
  cases hx : Numeral.ofFloat32 x with
  | notANumber =>
    rw [hx] at h
    exact hword "NaN" (by decide) h
  | infinite negative =>
    rw [hx] at h
    cases negative with
    | false => exact hword "inf" (by decide) h
    | true => exact hword "-inf" (by decide) h
  | finite negative m =>
    rw [hx, String.toList_ofList, List.mem_append] at h
    rcases h with h | h
    · split_ifs at h
      · exact hword "-" (by decide) h
      · exact absurd h List.not_mem_nil
    · cases m with
      | none => exact hpositional ⟨0, 0⟩ h
      | some b => exact hpositional (shortest .up b) h

end FormulaLayout.Decimal
