/-
The five entities, read back.

A reader replaces entities from left to right by the characters they stand for (`decode`). An escape writes every
character as itself or as an entity (`contentEntity_cases`, `attributeEntity_cases`), and an ampersand always as one, so
the reader cannot take for an entity what was none.

- `decode_content`, `decode_attribute`: decoding undoes both ways of escaping, on every text.
- `ne_of_mem_content`, `ne_of_mem_attribute`: escaped text has none of the characters that would end it.
-/
import Mathlib.Tactic
import FormulaLayout.Text.Markup

namespace FormulaLayout.Text

/-! ## Decoding -/

/-- the text with its entities read from left to right; whatever begins none of them stands for itself -/
def decode : List Char → List Char
  | '&' :: 'a' :: 'm' :: 'p' :: ';' :: rest => '&' :: decode rest
  | '&' :: 'l' :: 't' :: ';' :: rest => '<' :: decode rest
  | '&' :: 'g' :: 't' :: ';' :: rest => '>' :: decode rest
  | '&' :: 'q' :: 'u' :: 'o' :: 't' :: ';' :: rest => '\x22' :: decode rest
  | '&' :: '#' :: '3' :: '9' :: ';' :: rest => '\x27' :: decode rest
  | c :: rest => c :: decode rest
  | [] => []

theorem decode_cons_of_ne {c : Char} (h : c ≠ '&') (rest : List Char) : decode (c :: rest) = c :: decode rest := by
  rw [decode] <;> rintro _ rfl <;> exact absurd rfl h

theorem decode_contentEntity (c : Char) (rest : List Char) : decode (contentEntity c ++ rest) = c :: decode rest := by
  unfold contentEntity
  split_ifs with hamp hlt hgt
  · subst hamp; rfl
  · subst hlt; rfl
  · subst hgt; rfl
  · exact decode_cons_of_ne hamp rest

theorem decode_attributeEntity (c : Char) (rest : List Char) :
    decode (attributeEntity c ++ rest) = c :: decode rest := by
  unfold attributeEntity
  split_ifs with hdouble hsingle
  · subst hdouble; rfl
  · subst hsingle; rfl
  · exact decode_contentEntity c rest

/-- an escape that is undone in front of any text is undone character by character -/
theorem decode_flatMap {escape : Char → List Char} (h : ∀ c rest, decode (escape c ++ rest) = c :: decode rest)
    (cs : List Char) : decode (cs.flatMap escape) = cs := by
  induction cs with
  | nil => rfl
  | cons c cs ih => rw [List.flatMap_cons, h, ih]

theorem toList_escapeContent (s : String) : (escapeContent s).toList = s.toList.flatMap contentEntity :=
  String.toList_ofList

theorem toList_escapeAttribute (s : String) : (escapeAttribute s).toList = s.toList.flatMap attributeEntity :=
  String.toList_ofList

/-- decoding undoes the escaping of content -/
theorem decode_content (s : String) : decode (escapeContent s).toList = s.toList := by
  rw [toList_escapeContent]
  exact decode_flatMap decode_contentEntity s.toList

/-- decoding undoes the escaping of attribute values -/
theorem decode_attribute (s : String) : decode (escapeAttribute s).toList = s.toList := by
  rw [toList_escapeAttribute]
  exact decode_flatMap decode_attributeEntity s.toList

/-! ## What an escaped text consists of -/

/-- the names of the entities, as they stand between the ampersand and the semicolon -/
def entityNames : List String :=
  ["amp", "lt", "gt", "quot", "#39"]

/-- a character of content stands for itself or is replaced by an entity -/
theorem contentEntity_cases (c : Char) :
    contentEntity c = [c] ∧ c ≠ '&' ∧ c ≠ '<' ∧ c ≠ '>' ∨
      ∃ name ∈ entityNames, contentEntity c = '&' :: name.toList ++ [';'] := by
  unfold contentEntity
  split_ifs with hamp hlt hgt
  · exact Or.inr ⟨"amp", by simp [entityNames], rfl⟩
  · exact Or.inr ⟨"lt", by simp [entityNames], rfl⟩
  · exact Or.inr ⟨"gt", by simp [entityNames], rfl⟩
  · exact Or.inl ⟨rfl, hamp, hlt, hgt⟩

/-- a character of an attribute value stands for itself or is replaced by an entity -/
theorem attributeEntity_cases (c : Char) :
    attributeEntity c = [c] ∧ c ≠ '&' ∧ c ≠ '<' ∧ c ≠ '>' ∧ c ≠ '\x22' ∧ c ≠ '\x27' ∨
      ∃ name ∈ entityNames, attributeEntity c = '&' :: name.toList ++ [';'] := by
  unfold attributeEntity
  split_ifs with hdouble hsingle
  · exact Or.inr ⟨"quot", by simp [entityNames], rfl⟩
  · exact Or.inr ⟨"#39", by simp [entityNames], rfl⟩
  · rcases contentEntity_cases c with ⟨hself, hamp, hlt, hgt⟩ | hentity
    · exact Or.inl ⟨hself, hamp, hlt, hgt, hdouble, hsingle⟩
    · exact Or.inr hentity

/-- no entity has a character in it that ends content or a value -/
theorem ne_of_mem_entity :
    ∀ name ∈ entityNames, ∀ d ∈ '&' :: name.toList ++ [';'], d ≠ '<' ∧ d ≠ '>' ∧ d ≠ '\x22' ∧ d ≠ '\x27' := by
  have hall : (entityNames.all fun name => ('&' :: name.toList ++ [';']).all fun d =>
      decide (d ≠ '<' ∧ d ≠ '>' ∧ d ≠ '\x22' ∧ d ≠ '\x27')) = true := by decide
  simpa only [List.all_eq_true, decide_eq_true_eq] using hall

theorem ne_of_mem_content {s : String} {d : Char} (h : d ∈ (escapeContent s).toList) : d ≠ '<' ∧ d ≠ '>' := by
  rw [toList_escapeContent] at h
  obtain ⟨c, -, hd⟩ := List.mem_flatMap.1 h
  rcases contentEntity_cases c with ⟨hself, -, hraw⟩ | ⟨name, hname, hentity⟩
  · rw [hself, List.mem_singleton] at hd
    exact hd ▸ hraw
  · have hraw := ne_of_mem_entity name hname d (hentity ▸ hd)
    exact ⟨hraw.1, hraw.2.1⟩

theorem ne_of_mem_attribute {s : String} {d : Char} (h : d ∈ (escapeAttribute s).toList) :
    d ≠ '<' ∧ d ≠ '>' ∧ d ≠ '\x22' ∧ d ≠ '\x27' := by
  rw [toList_escapeAttribute] at h
  obtain ⟨c, -, hd⟩ := List.mem_flatMap.1 h
  rcases attributeEntity_cases c with ⟨hself, -, hraw⟩ | ⟨name, hname, hentity⟩
  · rw [hself, List.mem_singleton] at hd
    exact hd ▸ hraw
  · exact ne_of_mem_entity name hname d (hentity ▸ hd)

end FormulaLayout.Text
