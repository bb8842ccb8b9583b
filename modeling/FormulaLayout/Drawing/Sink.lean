/-
Receivers of drawing commands.

A sink takes one command at a time and may refuse it. `Sink.recorder` keeps them all; `Sink.limited` refuses every
command once it holds so many. Replaying a drawing gives its commands to a sink in order, up to the first that is
refused.
-/
import FormulaLayout.Drawing.Command
import FormulaLayout.Outcome

namespace FormulaLayout

/-- a way to give a command to a state -/
abbrev Sink (σ ε α : Type) := σ → Command α → Outcome σ ε

namespace Sink

variable {ε α : Type}

/-- keeps all commands -/
def recorder : Sink (Drawing α) ε α :=
  fun drawing command => .done (drawing.push command)

/-- keeps commands until it holds `limit` of them and then refuses with the error `full` -/
def limited (limit : Nat) (full : ε) : Sink (Drawing α) ε α :=
  fun drawing command => if limit ≤ drawing.size then .failed drawing full else .done (drawing.push command)

end Sink

/-- the commands of a drawing, given to a sink in order -/
def Drawing.replay {σ ε α : Type} (drawing : Drawing α) (sink : Sink σ ε α) (s : σ) : Outcome σ ε :=
  Outcome.forEach sink s drawing.toList

end FormulaLayout
