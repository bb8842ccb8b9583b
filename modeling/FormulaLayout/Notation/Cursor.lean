/-
Reading tokens one at a time.

A cursor holds the characters that have not been looked at, the index of the first of them, and the tokens that have
been looked at but not taken. `peek` scans ahead only when no token is waiting, `next` takes a waiting token first, and
`toList` is what is left to take.
-/
import FormulaLayout.Notation.Token

namespace FormulaLayout.Notation

/-- a position between the tokens of a text -/
structure Cursor where
  /-- tokens already scanned and not yet taken -/
  waiting : List Token
  offset : Nat
  unread : List Char

namespace Cursor

/-- the start of a text -/
def ofString (input : String) : Cursor :=
  ⟨[], 0, input.toList⟩

/-- the first token of the unread characters, with the index and the characters behind it -/
def scanOne (offset : Nat) : List Char → Option (Token × Nat × List Char)
  | [] => none
  | c :: rest =>
    if isSkipped c then scanOne (offset + 1) rest
    else some (⟨.ofChar c, offset⟩, offset + 1, rest)

/-- the next token, taken -/
def next (cursor : Cursor) : Option Token × Cursor :=
  match cursor.waiting with
  | token :: waiting => (some token, { cursor with waiting })
  | [] =>
    match scanOne cursor.offset cursor.unread with
    | none => (none, { cursor with offset := cursor.offset + cursor.unread.length, unread := [] })
    | some (token, offset, unread) => (some token, ⟨[], offset, unread⟩)

/-- the next token, left in place -/
def peek (cursor : Cursor) : Option Token × Cursor :=
  match cursor.waiting with
  | token :: _ => (some token, cursor)
  | [] =>
    match cursor.next with
    | (none, after) => (none, after)
    | (some token, after) => (some token, { after with waiting := [token] })

/-- the tokens that are left -/
def toList (cursor : Cursor) : List Token :=
  cursor.waiting ++ scan cursor.offset cursor.unread

/-- a scanned token leaves fewer characters -/
theorem scanOne_length {offset after : Nat} {cs rest : List Char} {token : Token}
    (h : scanOne offset cs = some (token, after, rest)) : rest.length < cs.length := by
  induction cs generalizing offset with
  | nil => simp [scanOne] at h
  | cons c cs ih =>
    simp only [scanOne] at h
    split at h
    · exact Nat.lt_succ_of_lt (ih h)
    · simp only [Option.some.injEq, Prod.mk.injEq] at h
      simp [h.2.2]

/-- a token that is taken leaves less to read -/
theorem next_shorter {cursor after : Cursor} {token : Token} (h : cursor.next = (some token, after)) :
    after.waiting.length + after.unread.length < cursor.waiting.length + cursor.unread.length := by
  rw [next] at h
  split at h
  · rename_i hw
    simp only [Prod.mk.injEq] at h
    simp [← h.2, hw]
  · split at h
    · simp at h
    · rename_i hs
      simp only [Prod.mk.injEq] at h
      have := scanOne_length hs
      simp [← h.2]
      omega

/-- all tokens that are left, taken one by one -/
def takeAll (cursor : Cursor) : List Token × Cursor :=
  match _h : cursor.next with
  | (none, after) => ([], after)
  | (some token, after) =>
    let (tokens, finished) := after.takeAll
    (token :: tokens, finished)
termination_by cursor.waiting.length + cursor.unread.length
decreasing_by exact next_shorter _h

end Cursor

end FormulaLayout.Notation
