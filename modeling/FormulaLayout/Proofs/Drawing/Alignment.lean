/-
The alignment line of a line of formulas.

The alignment line of a node goes up through the sizes and comes down again through the positions. Going up, the line of
a run is the lowest of its terms' lines, the line of a base moves down with the base, and parentheses take over the line
of what they hold. Coming down, each of these parts is placed where its own line meets that of its node
(`dividerY_part`). The other parts, those of a fraction and the scripts, are placed by their boxes.

- `one_alignment_line`: all nodes that are reached from one node without leaving the line have its alignment line, and
  their rules are painted on it.

The way down undoes the way up by subtracting what was added, so the law is one of exact numbers.
-/
import FormulaLayout.Notation.Parser
import FormulaLayout.Proofs.Drawing.Elements
import FormulaLayout.Proofs.Layout.Passes

namespace FormulaLayout.Formula

variable {δ : Type}

/-- the box of a node stands on the alignment line of its corner -/
theorem dividerY_placed (t : Formula (Sized ℚ)) (o : Point ℚ) :
    (t.placed o).datum.dividerY = o.y + t.datum.divider := by
  rw [placed_datum]; rfl

/-- a neighbour that is shifted to the line of its node meets it -/
theorem dividerY_shifted (t : Formula (Sized ℚ)) (x y line : ℚ) :
    (t.placed ⟨x, y + line - t.datum.divider⟩).datum.dividerY = y + line := by
  rw [dividerY_placed]
  exact sub_add_cancel _ _

/-- **A part in line with its node has the alignment line of the node.** -/
theorem dividerY_part (t : Formula δ) (scale : ℚ) (o : Point ℚ) {e : Edge} (he : e.isInline) :
    ∀ c ∈ (t.laidOut scale o).part? e, c.datum.dividerY = (t.laidOut scale o).datum.dividerY := by
  intro c hc
  cases t with
  | char d g => cases hc
  | concat d l r =>
    cases e with
    | left =>
      obtain rfl := Option.some.inj hc
      exact dividerY_shifted _ _ _ _
    | right =>
      obtain rfl := Option.some.inj hc
      exact dividerY_shifted _ _ _ _
    | _ => cases hc
  | fraction d n m =>
    cases e with
    | numerator => cases he
    | denominator => cases he
    | _ => cases hc
  | scripts d b p q =>
    rw [laidOut, sized_scaled_scripts, placed_scripts] at hc ⊢
    cases e with
    | base =>
      obtain rfl := Option.some.inj hc
      rw [dividerY_placed]
      -- the base moves down as far as its line does
      calc o.y + (Sized.placement _ _ _).baseTop + (b.scaled scale).sized.datum.divider
          = o.y + ((b.scaled scale).sized.datum.divider + (Sized.placement _ _ _).baseTop) := by ring
        _ = _ := rfl
    | superscript => cases he
    | subscript => cases he
    | _ => cases hc
  | paren d t =>
    cases e with
    | inside =>
      obtain rfl := Option.some.inj hc
      exact dividerY_placed _ _
    | _ => cases hc

/-- by induction on the path, whose edges all stay on the line -/
theorem dividerY_inline (t : Formula δ) (scale : ℚ) (o : Point ℚ) {path : List Edge} (h : ∀ e ∈ path, e.isInline) :
    ∀ n ∈ (t.laidOut scale o).at? path, n.datum.dividerY = (t.laidOut scale o).datum.dividerY := by
  induction path generalizing t scale o with
  | nil =>
    intro n hn
    rw [Option.some.inj hn]
  | cons e path ih =>
    intro n hn
    obtain ⟨he, hpath⟩ := List.forall_mem_cons.1 h
    obtain ⟨c, hc, hn⟩ := Option.bind_eq_some_iff.1 hn
    have hpart := dividerY_part t scale o he c hc
    obtain ⟨corner, hlaid⟩ := part?_laidOut t scale o e
    rw [hlaid] at hc
    obtain ⟨u, -, rfl⟩ := Option.map_eq_some_iff.1 hc
    exact (ih u (inherited scale e) corner hpath n hn).trans hpart

/-- the rule of a node is painted, and on the alignment line of the node -/
theorem rule_painted {t n : Formula (Placed ℚ)} (hn : n ∈ t.nodes) :
    ∀ rule ∈ n.rule?, rule ∈ t.rules ∧ rule.start.y = n.datum.dividerY ∧ rule.finish.y = n.datum.dividerY := by
  intro rule hrule
  refine ⟨(rules_perm t).mem_iff.2 (List.mem_filterMap.2 ⟨n, hn, hrule⟩), ?_⟩
  cases n with
  | fraction p u v =>
    obtain rfl := Option.some.inj hrule
    exact ⟨rfl, rfl⟩
  | _ => exact absurd hrule nofun

/-- **Everything on one line has one alignment line.** At any scale and any corner, a node that is reached from another
through runs, bases of scripts and parentheses has the alignment line of that node. So the rules of all fractions that
are reached in this way are painted on one line. -/
theorem one_alignment_line (t : Expr) (scale : ℚ) (origin : Point ℚ) {path : List Edge} {a : Formula (Placed ℚ)}
    (ha : (t.laidOut scale origin).at? path = some a) :
    ∀ inline : List Edge, (∀ e ∈ inline, e.isInline) → ∀ n, a.at? inline = some n →
      n.datum.dividerY = a.datum.dividerY ∧
        ∀ rule, n.rule? = some rule → rule ∈ (t.laidOut scale origin).rules ∧
          rule.start.y = a.datum.dividerY ∧ rule.finish.y = a.datum.dividerY := by
  intro inline hinline n hn
  have hline : n.datum.dividerY = a.datum.dividerY := by
    -- the node that the path leads to is laid out as a formula of its own
    obtain ⟨corner, hlaid⟩ := at?_laidOut t scale origin path
    obtain ⟨u, -, rfl⟩ := Option.map_eq_some_iff.1 (hlaid.symm.trans ha)
    exact dividerY_inline u (scaleAlong scale path) corner hinline n hn
  have hnode : n ∈ (t.laidOut scale origin).nodes := by
    apply mem_nodes_iff.2
    refine ⟨path ++ inline, ?_⟩
    rw [at?_append, ha]
    exact hn
  refine ⟨hline, fun rule hrule => ?_⟩
  rw [← hline]
  exact rule_painted hnode rule hrule

/-- a laid out fraction has a rule -/
theorem rule?_divide (n m : Expr) (scale : ℚ) (o : Point ℚ) :
    ∃ rule, ((divide n m).laidOut scale o).rule? = some rule :=
  ⟨_, rfl⟩

/-- in a superscript: a fraction with a script, and beside it a fraction in parentheses -/
theorem fractions_in_superscript : ∃ e a n m rule rule', Notation.parse "x^\x7b\x7ba/b\x7d^2(c/d)\x7d" = .ok e ∧
    (e.laidOut (1 : ℚ) ⟨0, 0⟩).at? [.superscript] = some a ∧
      a.at? [.left, .base] = some n ∧ a.at? [.right, .inside] = some m ∧
        n.rule? = some rule ∧ m.rule? = some rule' ∧
          rule ∈ (e.laidOut (1 : ℚ) ⟨0, 0⟩).rules ∧ rule' ∈ (e.laidOut (1 : ℚ) ⟨0, 0⟩).rules ∧
            rule.start.y = rule'.start.y := by
  let left := divide (character 'a') (character 'b')
  let right := divide (character 'c') (character 'd')
  let line := adjoin (withScripts left (some (character '2')) none) (parenthesize right)
  let e := withScripts (character 'x') (some line) none
  have he : Notation.parse "x^\x7b\x7ba/b\x7d^2(c/d)\x7d" = .ok e := rfl
  let scale := scaleAlong (1 : ℚ) [.superscript]
  -- the nodes are looked up in the formula, so that no position is computed
  obtain ⟨corner, ha⟩ := at?_laidOut e (1 : ℚ) ⟨0, 0⟩ [.superscript]
  obtain ⟨first, hn⟩ := at?_laidOut line scale corner [.left, .base]
  obtain ⟨second, hm⟩ := at?_laidOut line scale corner [.right, .inside]
  obtain ⟨rule, hrule⟩ := rule?_divide (character 'a') (character 'b') (scaleAlong scale [.left, .base]) first
  obtain ⟨rule', hrule'⟩ := rule?_divide (character 'c') (character 'd') (scaleAlong scale [.right, .inside]) second
  obtain ⟨-, hfirst⟩ := one_alignment_line e 1 ⟨0, 0⟩ ha [.left, .base] (by decide) _ hn
  obtain ⟨-, hsecond⟩ := one_alignment_line e 1 ⟨0, 0⟩ ha [.right, .inside] (by decide) _ hm
  obtain ⟨hpainted, hy, -⟩ := hfirst rule hrule
  obtain ⟨hpainted', hy', -⟩ := hsecond rule' hrule'
  exact ⟨e, _, _, _, rule, rule', he, ha, hn, hm, hrule, hrule', hpainted, hpainted', hy.trans hy'.symm⟩

end FormulaLayout.Formula
