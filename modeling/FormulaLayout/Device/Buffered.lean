/-
Outputs that may refuse a text, and outputs behind a buffer.

An output takes a text from its start on. It may refuse to take all of it, and then says how much it took and why it did
not take the rest; it may refuse to be flushed as well. Text waits in a buffer before an output is offered it. A block
buffer passes on what waits when a piece has no room in it, and a piece that would fill it goes straight on. A line
buffer passes on all complete lines, and only the start of a line waits, in a block buffer. What waited and was refused
goes on waiting; of a text that was to go straight on, the rest is lost.

Flushing passes on what waits and flushes the output. So does the end of the program with what still waits then, and
whether the output takes that is not looked at any more (`Buffered.close`).
-/
import FormulaLayout.Device

namespace FormulaLayout

/-- what is behind a buffer, with a state of its own -/
structure Output (σ ε : Type) where
  start : σ
  /-- takes a text: all of it, or so many characters up to an error -/
  take : σ → String → σ × Option (Nat × ε)
  flush : σ → Outcome σ ε

/-- an output that takes everything -/
def Output.unlimited {ε : Type} : Output Unit ε where
  start := ()
  take _ _ := ((), none)
  flush := .done

/-- text on its way to an output: what has arrived there, and what waits -/
structure Buffered (σ : Type) where
  output : σ
  arrived : String
  waiting : String

namespace Buffered

variable {σ ε : Type}

/-- nothing written -/
def start (output : Output σ ε) : Buffered σ :=
  ⟨output.start, "", ""⟩

/-- offers a text to the output; an error is that of the output together with the rest that it did not take -/
def offer (output : Output σ ε) (out : Buffered σ) (text : String) : Outcome (Buffered σ) (String × ε) :=
  if text.isEmpty then .done out
  else
    match output.take out.output text with
    | (after, none) => .done { out with output := after, arrived := out.arrived ++ text }
    | (after, some (count, error)) =>
      .failed { out with output := after, arrived := out.arrived ++ String.ofList (text.toList.take count) }
        (String.ofList (text.toList.drop count), error)

/-- passes on what waits -/
def passOn (output : Output σ ε) (out : Buffered σ) : Outcome (Buffered σ) ε :=
  match offer output { out with waiting := "" } out.waiting with
  | ⟨out, none⟩ => .done out
  | ⟨out, some (rest, error)⟩ => .failed { out with waiting := rest } error

/-- passes on a text that does not wait -/
def passStraight (output : Output σ ε) (out : Buffered σ) (text : String) : Outcome (Buffered σ) ε :=
  (offer output out text).mapError Prod.snd

/-- a piece on its way through a block buffer of so many bytes -/
def addBlock (output : Output σ ε) (capacity : Nat) (out : Buffered σ) (piece : String) : Outcome (Buffered σ) ε :=
  let emptied := if capacity - out.waiting.utf8ByteSize < piece.utf8ByteSize then out.passOn output else .done out
  emptied.andThen fun out =>
    if capacity ≤ piece.utf8ByteSize then out.passStraight output piece
    else .done { out with waiting := out.waiting ++ piece }

/-- a piece on its way through a line buffer of so many bytes -/
def addLines (output : Output σ ε) (capacity : Nat) (out : Buffered σ) (piece : String) : Outcome (Buffered σ) ε :=
  let backwards := piece.toList.reverse
  let lines := String.ofList (backwards.dropWhile (· != '\n')).reverse
  let start := String.ofList (backwards.takeWhile (· != '\n')).reverse
  if lines.isEmpty then
    let emptied := if out.waiting.toList.getLast? = some '\n' then out.passOn output else .done out
    emptied.andThen (addBlock output capacity · piece)
  else
    let passed :=
      if out.waiting.isEmpty then out.passStraight output lines
      else (out.addBlock output capacity lines).andThen (passOn output)
    passed.andThen (addBlock output capacity · start)

/-- passes on what waits and flushes the output -/
def flush (output : Output σ ε) (out : Buffered σ) : Outcome (Buffered σ) ε :=
  (out.passOn output).andThen fun out => (output.flush out.output).mapState fun after => { out with output := after }

/-- what has arrived when the program has ended -/
def close (output : Output σ ε) (out : Buffered σ) : String :=
  (out.passOn output).state.arrived

end Buffered

namespace Device

variable {σ ε : Type}

/-- an output behind a block buffer -/
def blockBuffered (output : Output σ ε) (capacity : Nat) : Device (Buffered σ) ε where
  write := Buffered.addBlock output capacity
  flush := Buffered.flush output

/-- an output behind a line buffer -/
def lineBuffered (output : Output σ ε) (capacity : Nat) : Device (Buffered σ) ε where
  write := Buffered.addLines output capacity
  flush := Buffered.flush output

end Device

end FormulaLayout
