/-
Drawings that are kept in memory.

A recorder takes every command, so a painter that draws into one stops only in front of a command that is not finite:
what it has recorded then are the commands before that one (`record_eq`). A formula therefore has a drawing exactly if
all its commands are finite, and the drawing is the list of its commands (`draw_eq_ok_iff`).
-/
import Mathlib.Data.List.TakeWhile
import Mathlib.Tactic
import FormulaLayout.Drawing.Painter

namespace FormulaLayout

variable {α : Type} [Scalar α]

namespace Painting

theorem emit_recorder (p : Painting (Drawing α)) (c : Command α) :
    emit (Sink.recorder (ε := Empty)) p c =
      if c.isFinite then .done ⟨p.emitted + 1, p.sink.push c⟩ else .failed p (.notFinite c) :=
  rfl

/-- the commands up to the first that is not finite are recorded and counted -/
theorem record_eq (p : Painting (Drawing α)) (cs : List (Command α)) :
    Outcome.forEach (emit (Sink.recorder (ε := Empty))) p cs =
      ⟨⟨p.emitted + (cs.takeWhile Command.isFinite).length, p.sink ++ cs.takeWhile Command.isFinite⟩,
        (cs.find? (!·.isFinite)).map .notFinite⟩ := by
  induction cs generalizing p with
  | nil => simp [Outcome.forEach, Outcome.done]
  | cons c cs ih =>
    rw [Outcome.forEach_cons, emit_recorder]
    by_cases hc : c.isFinite
    · simp [hc, Outcome.andThen, Outcome.done, ih]
      omega
    · simp [hc, Outcome.andThen, Outcome.failed]

end Painting

/-- a formula has a drawing exactly if all its commands are finite, and then the drawing holds them in order -/
theorem Formula.draw_eq_ok_iff {t : Formula (Placed α)} {drawing : Drawing α} :
    t.draw = .ok drawing ↔ (∀ c ∈ t.commands, c.isFinite) ∧ drawing = t.commands.toArray := by
  rw [draw, Painting.paint_eq, Painting.record_eq]
  cases hfind : t.commands.find? (!·.isFinite) with
  | none =>
    have hfinite : ∀ c ∈ t.commands, c.isFinite := by simpa using hfind
    have hsink : (#[] : Drawing α) ++ t.commands = t.commands.toArray := by simp
    rw [List.takeWhile_eq_self_iff.2 hfinite, hsink]
    exact ⟨fun h => ⟨hfinite, (Except.ok.inj h).symm⟩, fun h => congrArg _ h.2.symm⟩
  | some c =>
    have hc : c.isFinite = false := by simpa using List.find?_some hfind
    refine iff_of_false nofun fun h => ?_
    rw [h.1 c (List.mem_of_find?_eq_some hfind)] at hc
    exact absurd hc nofun

end FormulaLayout
