/-
A document as one text.

A step of the writer writes a list of pieces if all it does to the output is writing their lines in order, up to the
first that is refused (`Writer.Writes`). Steps one after the other write their pieces one after the other, so the grid,
the elements and the end tags make up one list of pieces (`pieces`), of which the counter of the writer is no part.

- `writeDocument_eq`: a document is its lines in order and then a flush, on any device.
- `document_eq`: the text of a document, and `document_ends_line`: it ends with a line break.
- `writeDocument_seamless`: on a device that does not see how text is cut, it is one write of that text.
-/
import FormulaLayout.Proofs.Device.Lines
import FormulaLayout.Svg.Writer

namespace FormulaLayout.Svg

open Text (Piece)

variable {σ ε : Type}

/-- the grid from the axes outwards -/
def gridPieces (extent : Nat) : List Piece :=
  axes extent ++ (List.range' 1 extent).flatMap (unitLines extent)

/-- all pieces of a document in order -/
def pieces (options : Options) (drawing : Drawing Float32) : List Piece :=
  opening options ++ options.grid.elim [] gridPieces ++ drawing.toList.map (fun c => (Element.ofCommand c).piece)
    ++ closing

namespace Writer

/-- the step writes the lines of the pieces to the output and does nothing else to it -/
def Writes (device : Device σ ε) (step : Writer σ → Outcome (Writer σ) ε) (pieces : List Piece) : Prop :=
  ∀ w, (step w).mapState out = Outcome.forEach device.write w.out (pieces.map Piece.line)

variable {device : Device σ ε} {f g : Writer σ → Outcome (Writer σ) ε} {ps qs : List Piece}

theorem writes_nothing : Writes device .done [] := fun _ => rfl

theorem Writes.andThen (hf : Writes device f ps) (hg : Writes device g qs) :
    Writes device (fun w => (f w).andThen g) (ps ++ qs) := by
  intro w
  rw [List.map_append, Outcome.forEach_append, ← hf w]
  exact Outcome.mapState_andThen (f w) hg

theorem writes_write (piece : Piece) : Writes device (write device · piece) [piece] := by
  intro w
  rw [List.map_singleton, Outcome.forEach_singleton]
  rfl

/-- the element of a command is a piece like any other, since counting it leaves the output alone -/
theorem writes_emit (c : Command Float32) : Writes device (emit device · c) [(Element.ofCommand c).piece] := by
  have hcount : Writes device (fun w => .done { w with elements := w.elements + 1 }) [] := fun _ => rfl
  exact (writes_write _).andThen hcount

/-- steps for the items of a list write what they write one after the other -/
theorem writes_forEach {β : Type} {step : Writer σ → β → Outcome (Writer σ) ε} {piecesOf : β → List Piece}
    (h : ∀ item, Writes device (step · item) (piecesOf item)) (items : List β) :
    Writes device (Outcome.forEach step · items) (items.flatMap piecesOf) := by
  induction items with
  | nil => exact writes_nothing
  | cons item items ih =>
    have hcons := (h item).andThen ih
    intro w
    simp only [Outcome.forEach_cons]
    exact hcons w

theorem writes_pieces (ps : List Piece) : Writes device (Outcome.forEach (write device) · ps) ps := by
  have h : Writes device (Outcome.forEach (write device) · ps) (ps.flatMap ([·])) := writes_forEach writes_write ps
  rwa [List.flatMap_singleton'] at h

theorem writeUnits_succ (extent remaining : Nat) (w : Writer σ) :
    writeUnits device extent (remaining + 1) w =
      (Outcome.forEach (write device) w (unitLines extent (extent - remaining))).andThen
        (writeUnits device extent remaining) := by
  rw [writeUnits, Outcome.andThen]
  rcases Outcome.forEach (write device) w (unitLines extent (extent - remaining)) with ⟨w', _ | e⟩ <;> rfl

/-- the remaining lines of a grid are those from the first distance that is left -/
theorem writeUnits_eq {extent remaining : Nat} (h : remaining ≤ extent) (w : Writer σ) :
    writeUnits device extent remaining w =
      Outcome.forEach (write device) w
        ((List.range' (extent - remaining + 1) remaining).flatMap (unitLines extent)) := by
  induction remaining generalizing w with
  | zero => rfl
  | succ remaining ih =>
    have hfirst : extent - (remaining + 1) + 1 = extent - remaining := by omega
    rw [List.range'_succ, List.flatMap_cons, hfirst, Outcome.forEach_append, writeUnits_succ]
    exact congrArg _ (funext (ih (by omega)))

theorem writeGrid_eq (grid : Option Nat) (w : Writer σ) :
    writeGrid device grid w = Outcome.forEach (write device) w (grid.elim [] gridPieces) := by
  cases grid with
  | none => rfl
  | some extent =>
    have hunits : writeUnits device extent extent = _ := funext (writeUnits_eq le_rfl)
    rw [Nat.sub_self] at hunits
    rw [writeGrid, hunits]
    exact (Outcome.forEach_append _ _ _ _).symm

/-- everything in front of the first element is written piece by piece -/
theorem begin_eq (options : Options) (w : Writer σ) :
    begin device options w =
      Outcome.forEach (write device) w (opening options ++ options.grid.elim [] gridPieces) := by
  rw [Outcome.forEach_append, begin]
  exact congrArg _ (funext (writeGrid_eq options.grid))

/-- everything in front of the flush -/
theorem writes_lines (options : Options) (drawing : Drawing Float32) :
    Writes device
      (fun w => ((begin device options w).andThen (drawing.replay (emit device))).andThen
        (Outcome.forEach (write device) · closing))
      (pieces options drawing) := by
  have hbegin : Writes device (begin device options) (opening options ++ options.grid.elim [] gridPieces) := by
    rw [funext (begin_eq options)]
    exact writes_pieces _
  have hreplay : Writes device (drawing.replay (emit device))
      (drawing.toList.map fun c => (Element.ofCommand c).piece) := by
    rw [List.map_eq_flatMap]
    exact writes_forEach writes_emit drawing.toList
  exact (hbegin.andThen hreplay).andThen (writes_pieces closing)

end Writer

/-- **A document is its lines in order**, up to the first that is refused, and then a flush. -/
theorem writeDocument_eq (device : Device σ ε) (options : Options) (drawing : Drawing Float32) (out : σ) :
    writeDocument device options drawing out =
      (Outcome.forEach device.write out ((pieces options drawing).map Piece.line)).andThen device.flush := by
  let lines := ((Writer.begin device options ⟨out, 0⟩).andThen (drawing.replay (Writer.emit device))).andThen
    (Outcome.forEach (Writer.write device) · closing)
  calc writeDocument device options drawing out
      = (lines.andThen fun w => (device.flush w.out).mapState fun out => { w with out }).mapState Writer.out := by
        rw [writeDocument, ← Outcome.andThen_assoc]
        unfold Writer.finish
        rw [← Outcome.andThen_assoc]
    _ = (lines.mapState Writer.out).andThen device.flush := Outcome.mapState_andThen lines fun w => rfl
    _ = _ := congrArg (Outcome.andThen · device.flush) (Writer.writes_lines options drawing ⟨out, 0⟩)

/-- the text of a document -/
theorem document_eq (options : Options) (drawing : Drawing Float32) :
    document options drawing = String.join ((pieces options drawing).map Piece.line) := by
  rw [document, writeDocument_eq, Device.memory_seamless.forEach_write]
  simp [Device.memory, Outcome.done, Outcome.andThen]

/-- the last line of a document is complete -/
theorem document_ends_line (options : Options) (drawing : Drawing Float32) :
    ∃ body, document options drawing = body ++ "\n" := by
  have hclosing : String.join (closing.map Piece.line) = "</g>\n</svg>" ++ "\n" := by decide
  rw [document_eq, pieces, List.map_append, String.join_append, hclosing, ← String.append_assoc]
  exact ⟨_, rfl⟩

/-- a document is written like one text to a device that does not see how text is cut -/
theorem writeDocument_seamless {device : Device σ ε} (h : device.Seamless) (options : Options)
    (drawing : Drawing Float32) (out : σ) :
    writeDocument device options drawing out = (device.write out (document options drawing)).andThen device.flush := by
  rw [writeDocument_eq, h.forEach_write, document_eq]

end FormulaLayout.Svg
