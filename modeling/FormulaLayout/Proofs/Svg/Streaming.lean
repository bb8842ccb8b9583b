/-
Painting into a sink, and replaying a drawing into it.

A painter walks a formula and a replay walks a list, but a sink cannot tell them apart: up to the first command that is
not finite it is given the same commands in the same order, and both stop where it refuses one (`forEach_emit`, by
induction on the commands). They differ only where the formula has no drawing. There is nothing to replay then, and the
painter fails behind what it has given to the sink.

So a document can be written while its formula is painted (`Svg.streamed`) or from the finished drawing (`Svg.buffered`).
The two are compared as whole writers, since a writer also counts its elements.

- `streaming_agrees_with_buffering`: the same text, count and error, for every sink and every device.
-/
import FormulaLayout.Proofs.Drawing.Recording
import FormulaLayout.Svg.Writer

namespace FormulaLayout

variable {σ ε α : Type}

/-! ## Painting without a painter -/

namespace Painting

variable [Scalar α] (sink : Sink σ ε α)

/-- the commands up to the first that is not finite, replayed, and behind them the failure at that command -/
def replayed (cs : List (Command α)) (s : σ) : Outcome σ (PaintError ε α) :=
  ((Outcome.forEach sink s (cs.takeWhile Command.isFinite)).mapError .refused).andThen fun s =>
    ⟨s, (cs.find? (!·.isFinite)).map .notFinite⟩

theorem replayed_of_finite {c : Command α} (hc : c.isFinite) (cs : List (Command α)) (s : σ) :
    replayed sink (c :: cs) s = ((sink s c).mapError .refused).andThen (replayed sink cs) := by
  unfold replayed
  have hfind : (c :: cs).find? (!·.isFinite) = cs.find? (!·.isFinite) := by simp [hc]
  rw [List.takeWhile_cons_of_pos hc, hfind, Outcome.forEach_cons, Outcome.mapError_andThen, Outcome.andThen_assoc]

theorem replayed_of_not_finite {c : Command α} (hc : c.isFinite = false) (cs : List (Command α)) (s : σ) :
    replayed sink (c :: cs) s = .failed s (.notFinite c) := by
  simp [replayed, hc, Outcome.forEach, Outcome.done, Outcome.mapError, Outcome.andThen, Outcome.failed]

/-- where all commands are finite, replaying them is all there is -/
theorem replayed_of_all_finite {cs : List (Command α)} (h : ∀ c ∈ cs, c.isFinite) (s : σ) :
    replayed sink cs s = (Outcome.forEach sink s cs).mapError .refused := by
  have hfind : cs.find? (!·.isFinite) = none := by simpa using h
  rw [replayed, List.takeWhile_eq_self_iff.2 h, hfind]
  rcases Outcome.forEach sink s cs with ⟨s', _ | e⟩ <;> rfl

/-- a command that is finite goes to the sink, and the painter fails there only if the sink does -/
theorem emit_of_finite (p : Painting σ) {c : Command α} (hc : c.isFinite) :
    (emit sink p c).mapState Painting.sink = (sink p.sink c).mapError .refused := by
  rcases hs : sink p.sink c with ⟨s, _ | e⟩
  · rw [emit_done hc hs]
    rfl
  · rw [emit_failed hc hs]
    rfl

/-- the sink of a painter sees a replay -/
theorem forEach_emit (p : Painting σ) (cs : List (Command α)) :
    (Outcome.forEach (emit sink) p cs).mapState Painting.sink = replayed sink cs p.sink := by
  induction cs generalizing p with
  | nil => rfl
  | cons c cs ih =>
    rw [Outcome.forEach_cons]
    by_cases hc : c.isFinite
    · rw [replayed_of_finite sink hc, ← emit_of_finite sink p hc]
      exact Outcome.mapState_andThen (emit sink p c) ih
    · have hc : c.isFinite = false := Bool.not_eq_true _ ▸ hc
      rw [replayed_of_not_finite sink hc, emit_notFinite hc]
      rfl

/-- painting a formula that has a drawing is replaying the drawing -/
theorem paint_eq_replay {t : Formula (Placed α)} {drawing : Drawing α} (h : t.draw = .ok drawing) (p : Painting σ) :
    (paint sink p t).mapState Painting.sink = (drawing.replay sink p.sink).mapError .refused := by
  obtain ⟨hfinite, rfl⟩ := Formula.draw_eq_ok_iff.1 h
  calc (paint sink p t).mapState Painting.sink
      = replayed sink t.commands p.sink := by rw [paint_eq, forEach_emit]
    _ = (Outcome.forEach sink p.sink t.commands).mapError .refused := replayed_of_all_finite sink hfinite p.sink

end Painting

/-! ## Documents -/

namespace Svg

/-- a writer whose document is written while the formula is painted, by a painter that has emitted `n` commands before -/
def streamed (device : Device σ ε) (options : Options) (n : Nat) (t : Formula (Placed Float32)) (out : σ) :
    Outcome (Writer σ) (PaintError ε Float32) :=
  ((Writer.begin device options ⟨out, 0⟩).mapError .refused).andThen fun w =>
    ((Painting.paint (Writer.emit device) ⟨n, w⟩ t).mapState Painting.sink).andThen fun w =>
      (Writer.finish device w).mapError .refused

/-- a writer whose document is written from a drawing -/
def buffered (device : Device σ ε) (options : Options) (drawing : Drawing Float32) (out : σ) : Outcome (Writer σ) ε :=
  (Writer.begin device options ⟨out, 0⟩).andThen fun w =>
    (drawing.replay (Writer.emit device) w).andThen (Writer.finish device)

theorem streamed_eq_buffered {t : Formula (Placed Float32)} {drawing : Drawing Float32} (h : t.draw = .ok drawing)
    (device : Device σ ε) (options : Options) (n : Nat) (out : σ) :
    streamed device options n t out = (buffered device options drawing out).mapError .refused := by
  unfold streamed buffered
  simp only [Outcome.mapError_andThen, Painting.paint_eq_replay _ h]

/-- **Streaming and buffering agree.** A formula that has a drawing does the same to a sink whether it is painted into the
sink or its drawing is replayed there. A document that is written while the formula is painted has the text of the
document of the drawing and counts the same elements, and if the device fails, it fails there in the same way. -/
theorem streaming_agrees_with_buffering {t : Formula (Placed Float32)} {drawing : Drawing Float32}
    (h : t.draw = .ok drawing) :
    (∀ {σ ε : Type} (sink : Sink σ ε Float32) (p : Painting σ),
      (Painting.paint sink p t).mapState Painting.sink = (drawing.replay sink p.sink).mapError .refused) ∧
    ∀ {σ ε : Type} (device : Device σ ε) (options : Options) (n : Nat) (out : σ),
      streamed device options n t out = (buffered device options drawing out).mapError .refused ∧
        (buffered device options drawing out).mapState Writer.out = writeDocument device options drawing out := by
  refine ⟨?_, ?_⟩
  · intro σ ε sink p
    exact Painting.paint_eq_replay sink h p
  · intro σ ε device options n out
    exact ⟨streamed_eq_buffered h device options n out, rfl⟩

/-- a quotient, streamed to a device that takes five lines: two elements are counted behind the three lines of the
opening, and the denominator meets the error of the device -/
theorem quotient_streamed_to_full_device :
    let t := (Formula.divide (.character 'a') (.character 'b')).laidOut (1.0 : Float32) .zero
    let device : Device Nat String := ⟨fun n _ => if n < 5 then .done (n + 1) else .failed n "full", .done⟩
    ∃ drawing, t.draw = .ok drawing ∧
      streamed device .standard 0 t 0 = (buffered device .standard drawing 0).mapError .refused ∧
      streamed device .standard 0 t 0 = .failed ⟨5, 2⟩ (.refused "full") := by
  intro t device
  have hfinite : ∀ c ∈ t.commands, c.isFinite := by decide +kernel
  have hdraw : t.draw = .ok t.commands.toArray := Formula.draw_eq_ok_iff.2 ⟨hfinite, rfl⟩
  have hagree := ((streaming_agrees_with_buffering hdraw).2 device .standard 0 0).1
  have hstop : buffered device .standard t.commands.toArray 0 = .failed ⟨5, 2⟩ "full" := rfl
  refine ⟨t.commands.toArray, hdraw, hagree, ?_⟩
  rw [hagree, hstop]
  rfl

end Svg

end FormulaLayout
