/-
Text in lines.

A text that ends every line is cut into its lines again (`completeLines_join`) if no line has a line break in it. Quoted
text has none, whatever was quoted (`notMem_quote`): a line break is written with a letter, and a number in hexadecimal
has digits and letters only.
-/
import Mathlib.Tactic
import FormulaLayout.Text.Quoted

namespace FormulaLayout.Text

/-- the lines of a text, without what follows the last line break -/
def completeLines (text : String) : List String :=
  ((text.toList.splitOn '\n').dropLast).map String.ofList

/-- what is written as lines is read as those lines -/
theorem completeLines_join {lines : List String} (h : ∀ line ∈ lines, '\n' ∉ line.toList) :
    completeLines (String.join (lines.map (· ++ "\n"))) = lines := by
  have hsplit : (String.join (lines.map (· ++ "\n"))).toList.splitOn '\n' = lines.map String.toList ++ [[]] := by
    induction lines with
    | nil => rfl
    | cons line lines ih =>
      obtain ⟨hline, hlines⟩ := List.forall_mem_cons.1 h
      have htext : (String.join ((line :: lines).map (· ++ "\n"))).toList =
          line.toList ++ '\n' :: (String.join (lines.map (· ++ "\n"))).toList := by
        simp
      rw [htext, List.splitOn_append_cons_self_of_not_mem hline, ih hlines]
      rfl
  rw [completeLines, hsplit, List.dropLast_concat, List.map_map]
  simp [Function.comp_def]

theorem notMem_toDigits (n : Nat) : '\n' ∉ Nat.toDigits 16 n := by
  induction n using Nat.strongRecOn with
  | ind n ih =>
    have hdigit : ∀ k : Nat, '\n' ∉ [k.digitChar] := fun k hk =>
      absurd (List.mem_singleton.1 hk).symm (Nat.digitChar_ne '\n' (by decide))
    rw [Nat.toDigits_eq_if (by decide)]
    split_ifs with h
    · exact hdigit n
    · exact List.not_mem_append (ih (n / 16) (Nat.div_lt_self (by omega) (by decide))) (hdigit _)

/-- an escaped character is no line break, also if it was one -/
theorem notMem_escapeWithin (quote c : Char) : '\n' ∉ escapeWithin quote c := by
  unfold escapeWithin numberEscape
  split_ifs with hnul htab hnewline hreturn hquoted hunprintable
  · decide
  · decide
  · decide
  · decide
  · have hc : '\n' ≠ c := fun heq => hnewline heq.symm
    simp [hc]
  · simp [notMem_toDigits]
  · have hc : '\n' ≠ c := fun heq => hnewline heq.symm
    simp [hc]

/-- quoted text has no line break -/
theorem notMem_quote (s : String) : '\n' ∉ (quote s).toList := by
  rw [quote, quoteChars, String.toList_ofList]
  intro h
  simp only [List.mem_append, List.mem_cons, List.mem_flatMap, List.not_mem_nil, or_false] at h
  rcases h with (h | ⟨c, -, h⟩) | h
  · exact absurd h (by decide)
  · exact notMem_escapeWithin '\x22' c h
  · exact absurd h (by decide)

end FormulaLayout.Text
