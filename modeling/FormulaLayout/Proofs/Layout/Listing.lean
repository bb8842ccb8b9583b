/-
A listing gives back the outline of its tree.

The printer goes down the tree with the text so far; what it adds is the lines of the nodes in reading order
(`listInto_eq`, by induction over the parts of a node). No line has a line break in it, whatever the glyphs are and
whatever the numbers are (`notMem_listingLine`), and behind its indentation a line begins with a letter. So a reader of
the text finds the lines, their levels, and the branching of the tree.

- `listing_is_outline`: the lines of a listing against the nodes of the tree in reading order.
-/
import FormulaLayout.Layout.Listing
import FormulaLayout.Proofs.Decimal.Characters
import FormulaLayout.Proofs.Formula.Branching
import FormulaLayout.Proofs.Formula.Levels
import FormulaLayout.Proofs.Text.Lines

namespace FormulaLayout

/-- the level of a line, by its indentation -/
def indentedLevel (line : String) : Nat :=
  (line.toList.takeWhile (· == ' ')).length / 2

/-- the branching of a listed tree, read from the indentation of the lines alone -/
def Branching.ofListing? (text : String) : Option Branching :=
  ofLevels? ((Text.completeLines text).map indentedLevel)

namespace Formula

variable {t : Formula (Placed Float32)}

/-! ## The lines -/

/-- the line of a node comes before those of its parts -/
theorem listingLines_eq (level : Nat) (t : Formula (Placed Float32)) :
    t.listingLines level = t.listingLine level :: t.children.flatMap (listingLines (level + 1)) := by
  rw [listingLines, outlineFrom_eq, List.map_cons, List.map_flatMap]
  rfl

/-- the printer goes through the parts of a node in order -/
theorem listInto_children (out : String) (level : Nat) (t : Formula (Placed Float32)) :
    t.listInto out level =
      t.children.foldl (fun out c => c.listInto out (level + 1)) (out ++ t.listingLine level ++ "\n") := by
  cases t with
  | scripts d b p s => cases p <;> cases s <;> rfl
  | _ => rfl

/-- the printer adds the lines of all nodes -/
theorem listInto_eq (out : String) (level : Nat) (t : Formula (Placed Float32)) :
    t.listInto out level = out ++ String.join ((t.listingLines level).map (· ++ "\n")) := by
  induction t using children_ind generalizing out level with
  | h t ih =>
    have hparts : ∀ (parts : List (Formula (Placed Float32))) (out : String), (∀ c ∈ parts, c ∈ t.children) →
        parts.foldl (fun out c => c.listInto out (level + 1)) out =
          out ++ String.join ((parts.flatMap (listingLines (level + 1))).map (· ++ "\n")) := by
      intro parts out hmem
      induction parts generalizing out with
      | nil => simp
      | cons c parts ihparts =>
        obtain ⟨hc, hothers⟩ := List.forall_mem_cons.1 hmem
        rw [List.foldl_cons, ih c hc, ihparts _ hothers, List.flatMap_cons, List.map_append, String.join_append,
          String.append_assoc]
    rw [listInto_children, hparts t.children _ fun c hc => hc, listingLines_eq, List.map_cons, String.join_cons]
    simp only [String.append_assoc]

theorem listing_eq (t : Formula (Placed Float32)) :
    t.listing = String.join ((t.listingLines 0).map (· ++ "\n")) := by
  rw [listing, listInto_eq, String.empty_append]

/-! ## One line -/

theorem notMem_number (x : Float32) : '\n' ∉ (Decimal.text x).toList := by
  intro h
  rcases Decimal.mem_text h with hdigit | hmark
  · exact absurd hdigit (by decide)
  · exact absurd hmark (by decide)

theorem notMem_measurements (t : Formula (Placed Float32)) : '\n' ∉ t.measurements.toList := by
  have hfixed : (["scale=", " at=(", ", ", ") size=", "x", " divider="].all fun s => '\n' ∉ s.toList) = true := by decide
  simp only [List.all_cons, List.all_nil, Bool.and_true, Bool.and_eq_true, decide_eq_true_eq] at hfixed
  unfold measurements
  simp only [String.toList_append, List.mem_append, notMem_number, hfixed, or_self, not_false_eq_true]

/-- the name of a kind begins with a letter and has no line break -/
theorem kindName_letters (t : Formula (Placed Float32)) :
    '\n' ∉ t.kindName.toList ∧ t.kindName.toList.head?.any (· != ' ') := by
  cases t <;> simp [kindName]

/-- the line of a node has no line break, whatever its glyphs are -/
theorem notMem_listingLine (level : Nat) (t : Formula (Placed Float32)) : '\n' ∉ (t.listingLine level).toList := by
  have hblank : '\n' ∉ " ".toList := by decide
  have hindent : '\n' ∉ List.replicate (2 * level) ' ' := fun h => absurd (List.eq_of_mem_replicate h) (by decide)
  simp only [listingLine, String.toList_append, String.toList_ofList, List.mem_append, hindent, hblank,
    t.kindName_letters.1, Text.notMem_quote, notMem_measurements, or_self, not_false_eq_true]

/-- the level of a node can be read from its line -/
theorem indentedLevel_listingLine (level : Nat) (t : Formula (Placed Float32)) :
    indentedLevel (t.listingLine level) = level := by
  obtain ⟨c, rest, hkind, hc⟩ : ∃ c rest, t.kindName.toList = c :: rest ∧ (c == ' ') = false := by
    have hletters := t.kindName_letters.2
    cases hkind : t.kindName.toList with
    | nil => simp [hkind] at hletters
    | cons c rest => exact ⟨c, rest, rfl, by simpa [hkind] using hletters⟩
  have hindent : ∀ c ∈ List.replicate (2 * level) ' ', (c == ' ') = true := fun c hc =>
    beq_iff_eq.2 (List.eq_of_mem_replicate hc)
  simp only [indentedLevel, listingLine, String.toList_append, String.toList_ofList, List.append_assoc, hkind,
    List.cons_append]
  rw [List.takeWhile_append_of_pos hindent, List.takeWhile_cons_of_neg (by simp [hc]), List.append_nil,
    List.length_replicate]
  omega

/-! ## The text -/

/-- there are as many nodes in the outline as are counted -/
theorem length_outlineFrom (level : Nat) (t : Formula (Placed Float32)) : (t.outlineFrom level).length = t.size := by
  induction t using children_ind generalizing level with
  | h t ih =>
    have hparts : ∀ parts : List (Formula (Placed Float32)), (∀ c ∈ parts, c ∈ t.children) →
        (parts.flatMap (outlineFrom (level + 1))).length = totalSize parts := by
      intro parts hmem
      induction parts with
      | nil => rfl
      | cons c parts ihparts =>
        obtain ⟨hc, hothers⟩ := List.forall_mem_cons.1 hmem
        rw [List.flatMap_cons, List.length_append, ih c hc, ihparts hothers, totalSize]
    rw [outlineFrom_eq, size_children, List.length_cons, hparts t.children fun c hc => hc, Nat.add_comm]

theorem forall_listingLines {P : String → Prop} (h : ∀ level node, P (listingLine level node)) (level : Nat)
    (t : Formula (Placed Float32)) : ∀ line ∈ t.listingLines level, P line := by
  intro line hline
  obtain ⟨⟨level, node⟩, -, rfl⟩ := List.mem_map.1 hline
  exact h level node

/-- **A listing gives back the outline of its tree.** It has one complete line for each node, in reading order; the line
is indented by two blanks for each level and goes on with the kind and the quoted notation of the node. So the levels of
the nodes, and with them the branching of the tree, can be read from the text, whatever the glyphs are. -/
theorem listing_is_outline (t : Formula (Placed Float32)) :
    let lines := Text.completeLines t.listing
    t.listing = String.join (lines.map (· ++ "\n")) ∧
      (∀ line ∈ lines, '\n' ∉ line.toList) ∧
      lines.length = t.nodeCount ∧
      List.Forall₂
        (fun (entry : Nat × Formula (Placed Float32)) line =>
          ∃ rest : String, line =
            String.ofList (List.replicate (2 * entry.1) ' ') ++ entry.2.kindName ++ " " ++ Text.quote entry.2.value ++ rest)
        t.outline lines ∧
      lines.map indentedLevel = t.outline.map Prod.fst ∧
      Branching.ofListing? t.listing = some t.branching := by
  have hbreaks : ∀ line ∈ t.listingLines 0, '\n' ∉ line.toList := forall_listingLines notMem_listingLine 0 t
  have hlines : Text.completeLines t.listing = t.listingLines 0 := by
    rw [listing_eq, Text.completeLines_join hbreaks]
  have hlevels : (t.listingLines 0).map indentedLevel = t.outline.map Prod.fst := by
    rw [listingLines, List.map_map, outline]
    exact List.map_congr_left fun entry _ => indentedLevel_listingLine entry.1 entry.2
  dsimp only
  rw [hlines]
  refine ⟨t.listing_eq, hbreaks, ?_, ?_, hlevels, ?_⟩
  · rw [nodeCount_eq_size, listingLines, List.length_map, length_outlineFrom]
  · rw [listingLines, List.forall₂_map_right_iff, outline]
    refine List.forall₂_same.2 fun entry _ => ⟨" " ++ entry.2.measurements, ?_⟩
    simp only [listingLine, String.append_assoc]
  · rw [Branching.ofListing?, hlines, hlevels, ofLevels?_outline]

/-- a line break in parentheses: two nodes on two lines -/
example :
    let place : Placed Float32 := ⟨⟨1.0, 0, ⟨0.0, 0.0⟩, 0.0⟩, ⟨0.0, 0.0⟩⟩
    (Text.completeLines (paren place (char place '\n')).listing).map indentedLevel = [0, 1] := by
  decide +kernel

end Formula

end FormulaLayout
