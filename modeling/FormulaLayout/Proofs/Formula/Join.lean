/-
The balanced join of a run.

`concatAll_isSome`: a run of at least one formula has a join, since each half of a longer run is shorter and not empty.
`joinLevels_eq_clog`: the levels that a join adds are the logarithm of the number of formulas, rounded up.
`balanced_of_concatAll`: the join is a balanced tree over its run, made from the joins of the two halves.
`grouping_of_concatAll`: it is one of the groupings of the run. A `Grouping` is any binary tree over the run, and what
every join lists from left to right, such as the characters of the notation, it lists in the order of the run
(`Grouping.flatMap_eq`, `Grouping.source_eq`).
-/
import Mathlib.Data.Nat.Log
import Mathlib.Tactic
import FormulaLayout.Formula.Join
import FormulaLayout.Formula.Source

namespace FormulaLayout.Formula

/-- a run of two or more formulas splits in two shorter runs, neither of them empty -/
theorem half_bounds {n : Nat} (h : 2 ≤ n) : 0 < (n + 1) / 2 ∧ (n + 1) / 2 < n := by
  omega

/-- as many halvings as there are formulas suffice -/
theorem joinWithin_isSome (fuel : Nat) (terms : List Expr) (hne : terms ≠ []) (hf : terms.length ≤ fuel) :
    ∃ e, joinWithin fuel terms = some e := by
  induction fuel generalizing terms with
  | zero => exact absurd (List.length_eq_zero_iff.1 (Nat.le_zero.1 hf)) hne
  | succ fuel ih =>
    match terms, hne, hf with
    | [t], _, _ => exact ⟨t, rfl⟩
    | t :: u :: rest, _, hf =>
      set terms := t :: u :: rest
      obtain ⟨hpos, hlt⟩ : 0 < (terms.length + 1) / 2 ∧ (terms.length + 1) / 2 < terms.length :=
        half_bounds (by simp [terms])
      obtain ⟨l, hl⟩ := ih (terms.take ((terms.length + 1) / 2))
        (by rw [← List.length_pos_iff]; simp only [List.length_take]; omega)
        (by simp only [List.length_take]; omega)
      obtain ⟨r, hr⟩ := ih (terms.drop ((terms.length + 1) / 2))
        (by rw [← List.length_pos_iff]; simp only [List.length_drop]; omega)
        (by simp only [List.length_drop]; omega)
      exact ⟨adjoin l r, by simp only [terms] at hl hr ⊢; simp only [joinWithin, hl, hr]⟩

/-- a run of at least one formula has a join -/
theorem concatAll_isSome {terms : List Expr} (hne : terms ≠ []) : ∃ e, concatAll terms = some e :=
  joinWithin_isSome _ terms hne le_rfl

/-- the formula joins the run pairwise, in whatever way it is split -/
inductive Grouping : List Expr → Expr → Prop
  | single (t : Expr) : Grouping [t] t
  | join {ts us : List Expr} {l r : Expr} (hl : Grouping ts l) (hr : Grouping us r) : Grouping (ts ++ us) (adjoin l r)

theorem Grouping.ne_nil {terms : List Expr} {e : Expr} (h : Grouping terms e) : terms ≠ [] := by
  induction h with
  | single t => exact nofun
  | join hl hr ihl ihr => exact List.append_ne_nil_of_left_ne_nil ihl _

/-- a list that goes through every join from left to right goes through the run from left to right -/
theorem Grouping.flatMap_eq {β : Type} {listed : Expr → List β}
    (hjoin : ∀ l r, listed (adjoin l r) = listed l ++ listed r) {terms : List Expr} {e : Expr} (h : Grouping terms e) :
    listed e = terms.flatMap listed := by
  induction h with
  | single t => rw [List.flatMap_singleton]
  | join hl hr ihl ihr => rw [hjoin, ihl, ihr, List.flatMap_append]

/-- the text of a join is that of its formulas one after the other -/
theorem Grouping.source_eq {terms : List Expr} {e : Expr} (h : Grouping terms e) :
    e.source = terms.flatMap source :=
  h.flatMap_eq fun _ _ => rfl

/-- the formula joins the run as a balanced tree, with the larger half on the left -/
inductive Balanced : List Expr → Expr → Prop
  | single (t : Expr) : Balanced [t] t
  | join {terms : List Expr} {l r : Expr} (hlen : 2 ≤ terms.length)
    (hl : Balanced (terms.take ((terms.length + 1) / 2)) l) (hr : Balanced (terms.drop ((terms.length + 1) / 2)) r) :
    Balanced terms (adjoin l r)

theorem balanced_of_joinWithin {fuel : Nat} {terms : List Expr} {e : Expr} (h : joinWithin fuel terms = some e) :
    Balanced terms e := by
  induction fuel generalizing terms e with
  | zero =>
    match terms, h with
    | [_], h => cases h; exact .single e
  | succ fuel ih =>
    match terms, h with
    | [_], h => cases h; exact .single e
    | t :: u :: rest, h =>
      simp only [joinWithin] at h
      split at h
      · rename_i l r hl hr
        cases h
        exact .join (by simp) (ih hl) (ih hr)
      · cases h

/-- the join of a run is balanced; what holds of joins is proved by induction over this -/
theorem balanced_of_concatAll {terms : List Expr} {e : Expr} (h : concatAll terms = some e) : Balanced terms e :=
  balanced_of_joinWithin h

theorem Balanced.grouping {terms : List Expr} {e : Expr} (h : Balanced terms e) : Grouping terms e := by
  induction h with
  | single t => exact .single t
  | join hlen hl hr ihl ihr =>
    have hjoin := ihl.join ihr
    rwa [List.take_append_drop] at hjoin

/-- the balanced join is a grouping of its run -/
theorem grouping_of_concatAll {terms : List Expr} {e : Expr} (h : concatAll terms = some e) : Grouping terms e :=
  (balanced_of_concatAll h).grouping

/-- the levels of a join are the logarithm of the number of formulas to base two, rounded up -/
theorem joinLevels_eq_clog (n : Nat) : joinLevels n = Nat.clog 2 n := by
  rw [joinLevels, Nat.log2_eq_log_two]
  rcases Nat.lt_or_ge 1 n with hn | hn
  · have hlow : 2 ^ (Nat.clog 2 n - 1) < n := Nat.pow_pred_clog_lt_self Nat.one_lt_two hn
    have hhigh : n ≤ 2 ^ Nat.clog 2 n := Nat.le_pow_clog Nat.one_lt_two n
    have hpos : 0 < Nat.clog 2 n := Nat.clog_pos Nat.one_lt_two hn
    have hdouble : 2 ^ Nat.clog 2 n = 2 * 2 ^ (Nat.clog 2 n - 1) := by
      rw [← Nat.pow_succ', Nat.succ_eq_add_one, Nat.sub_add_cancel hpos]
    refine Nat.log_eq_of_pow_le_of_lt_pow ?_ ?_
    · omega
    · rw [Nat.pow_succ]; omega
  · interval_cases n <;> simp

end FormulaLayout.Formula
