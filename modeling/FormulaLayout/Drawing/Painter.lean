/-
From a laid out formula to drawing commands.

The commands of a formula come in reading order: the parts of a fraction with its rule between them, a base before its
superscript and its subscript, the inside of parentheses between the two glyphs. The glyphs of parentheses are stretched
by the fractions inside and centred on the box.

The painter walks a formula, gives each command to a sink as it comes to it, and counts those that were taken. A command
with a value that is not finite never reaches the sink: painting fails in front of it, wherever in the formula that is.
What the painter does to a sink is giving it the commands one after the other (`paint_eq`).
-/
import FormulaLayout.Drawing.Sink
import FormulaLayout.Layout.Placed

namespace FormulaLayout

variable {σ ε α : Type} [Scalar α]

namespace Placed

/-- the rule of a fraction: as wide as the wider of its parts, on the alignment line -/
def rule (p : Placed α) (numerator denominator : Sized α) : LineCommand α :=
  let width := Scalar.larger numerator.size.width denominator.size.width
  { start := ⟨p.origin.x, p.dividerY⟩
    finish := ⟨p.origin.x + width, p.dividerY⟩
    strokeWidth := Metrics.ruleThickness p.box.scale }

/-- the vertical stretch of a pair of parentheses -/
def stretch (p : Placed α) : α :=
  Metrics.stretchFactor p.box.divisions

/-- the top of a pair of stretched parentheses, so that they are centred on the box -/
def glyphY (p : Placed α) : α :=
  p.origin.y + (p.box.size.height - p.box.scale * p.stretch) / 2.0

/-- the left glyph, at the left edge of the box -/
def leftParen (p : Placed α) : TextCommand α :=
  ⟨⟨p.origin.x, p.glyphY⟩, p.box.scale, "(", p.stretch⟩

/-- the right glyph, where the inside ends -/
def rightParen (p : Placed α) (child : Sized α) : TextCommand α :=
  ⟨⟨p.origin.x + child.size.width + Metrics.parenPadding p.box.scale, p.glyphY⟩, p.box.scale, ")", p.stretch⟩

end Placed

namespace Formula

/-- the commands that draw a formula -/
def commands : Formula (Placed α) → List (Command α)
  | .char p c => [.text ⟨p.origin, p.box.scale, String.singleton c, 1.0⟩]
  | .concat _ l r => l.commands ++ r.commands
  | .fraction p n m => n.commands ++ .line (p.rule n.datum.box m.datum.box) :: m.commands
  | .scripts _ b p s =>
    b.commands ++ (match p with | none => [] | some p => p.commands)
      ++ (match s with | none => [] | some s => s.commands)
  | .paren p t => .text p.leftParen :: t.commands ++ [.text (p.rightParen t.datum.box)]
termination_by structural t => t

theorem commands_scripts (d : Placed α) (b : Formula (Placed α)) (p s : Option (Formula (Placed α))) :
    commands (.scripts d b p s) = b.commands ++ p.elim [] commands ++ s.elim [] commands := by
  cases p <;> cases s <;> rfl

end Formula

/-- why painting stopped -/
inductive PaintError (ε α : Type) where
  | notFinite (command : Command α)
  | refused (error : ε)

/-- a sink, and how many commands a painter has put into it -/
structure Painting (σ : Type) where
  emitted : Nat
  sink : σ

namespace Painting

/-- one command, if it is finite and the sink takes it -/
def emit (sink : Sink σ ε α) (p : Painting σ) (command : Command α) : Outcome (Painting σ) (PaintError ε α) :=
  if command.isFinite then
    match sink p.sink command with
    | ⟨s, none⟩ => .done ⟨p.emitted + 1, s⟩
    | ⟨s, some e⟩ => .failed ⟨p.emitted, s⟩ (.refused e)
  else
    .failed p (.notFinite command)

section

variable {sink : Sink σ ε α} {p : Painting σ} {c : Command α} {s : σ}

theorem emit_notFinite (hc : c.isFinite = false) : emit sink p c = .failed p (.notFinite c) := by
  simp [emit, hc]

theorem emit_done (hc : c.isFinite) (h : sink p.sink c = .done s) : emit sink p c = .done ⟨p.emitted + 1, s⟩ := by
  simp [emit, hc, h, Outcome.done]

theorem emit_failed {e : ε} (hc : c.isFinite) (h : sink p.sink c = .failed s e) :
    emit sink p c = .failed ⟨p.emitted, s⟩ (.refused e) := by
  simp [emit, hc, h, Outcome.failed]

end

/-- the parts of a formula in reading order, up to the first command that is not finite or not taken -/
def paint (sink : Sink σ ε α) (p : Painting σ) (t : Formula (Placed α)) : Outcome (Painting σ) (PaintError ε α) :=
  match t with
  | .char d c => emit sink p (.text ⟨d.origin, d.box.scale, String.singleton c, 1.0⟩)
  | .concat _ l r => (paint sink p l).andThen fun p => paint sink p r
  | .fraction d n m =>
    (paint sink p n).andThen fun p =>
      (emit sink p (.line (d.rule n.datum.box m.datum.box))).andThen fun p => paint sink p m
  | .scripts _ b u v =>
    (paint sink p b).andThen fun p =>
      Outcome.andThen (match u with | none => .done p | some u => paint sink p u) fun p =>
        match v with | none => .done p | some v => paint sink p v
  | .paren d t =>
    (emit sink p (.text d.leftParen)).andThen fun p =>
      (paint sink p t).andThen fun p => emit sink p (.text (d.rightParen t.datum.box))
termination_by structural t

/-- painting a formula is giving its commands to the sink one after the other -/
theorem paint_eq (sink : Sink σ ε α) (p : Painting σ) (t : Formula (Placed α)) :
    paint sink p t = Outcome.forEach (emit sink) p t.commands := by
  induction t using Formula.ind generalizing p with
  | char d c => exact (Outcome.forEach_singleton _ _ _).symm
  | concat d l r hl hr => simp only [paint, Formula.commands, Outcome.forEach_append, hl, hr]
  | fraction d n m hn hm =>
    simp only [paint, Formula.commands, Outcome.forEach_append, Outcome.forEach_cons, hn, hm]
  | scripts d b u v hb hu hv =>
    -- a slot that is empty has no commands, and doing nothing is giving none
    have hpart : ∀ w : Option (Formula (Placed α)),
        (∀ t ∈ w, ∀ p, paint sink p t = Outcome.forEach (emit sink) p t.commands) → ∀ p,
          (match w with | none => .done p | some t => paint sink p t) =
            Outcome.forEach (emit sink) p (w.elim [] Formula.commands) := by
      rintro (_ | t) ht p
      · rfl
      · exact ht t rfl p
    simp only [paint, Formula.commands_scripts, Outcome.forEach_append, Outcome.andThen_assoc, hb, hpart u hu,
      hpart v hv]
  | paren d t ht =>
    rw [Formula.commands, List.cons_append, Outcome.forEach_cons]
    simp only [paint, Outcome.forEach_append, Outcome.forEach_singleton, ht]

end Painting

/-- the drawing of a formula, or the first command that is not finite -/
def Formula.draw (t : Formula (Placed α)) : Except (Command α) (Drawing α) :=
  match (Painting.paint (Sink.recorder (ε := Empty)) ⟨0, #[]⟩ t) with
  | ⟨p, none⟩ => .ok p.sink
  | ⟨_, some (.notFinite command)⟩ => .error command

end FormulaLayout
