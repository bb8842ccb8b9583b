/-
Outputs that text is written to.

A device takes pieces of text, one after the other, and can be flushed; either may fail. `Device.memory` keeps all text.
`Device.limited` accepts the characters up to and including the last line break it has room for and refuses every
character after it, so what it holds is always the whole text cut behind some line.
-/
import FormulaLayout.Outcome

namespace FormulaLayout

/-- a way to write text to a state, and to flush it -/
structure Device (σ ε : Type) where
  write : σ → String → Outcome σ ε
  flush : σ → Outcome σ ε

/-- the text up to and including its `n`-th line break -/
def takeLines : (n : Nat) → List Char → List Char
  | 0, _ => []
  | _ + 1, [] => []
  | n + 1, c :: rest => c :: takeLines (if c = '\n' then n else n + 1) rest

/-- the text a limited device holds, and how many line breaks it has room for; no number if there is no limit -/
structure LimitedOutput where
  text : String
  room : Option Nat
  deriving DecidableEq, Repr

namespace Device

variable {ε : Type}

/-- keeps all text -/
def memory : Device String ε where
  write text piece := .done (text ++ piece)
  flush text := .done text

/-- refuses text beyond its room with the error `full`, and a flush with `flushError?` if there is one -/
def limited (full : ε) (flushError? : Option ε) : Device LimitedOutput ε where
  write out piece :=
    match out.room with
    | none => .done { out with text := out.text ++ piece }
    | some room =>
      let kept := takeLines room piece.toList
      let after : LimitedOutput := ⟨out.text ++ String.ofList kept, some (room - kept.count '\n')⟩
      if kept.length = piece.length then .done after else .failed after full
  flush out := ⟨out, flushError?⟩

end Device

end FormulaLayout
