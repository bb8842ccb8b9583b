/-
A cursor is a place in the list of tokens.

`Cursor` scans lazily and keeps a token that was looked at in a queue; `Place` is an index into the whole list. A cursor
stands for a place if what it has left is what the list has from there on and its queue holds one token at most
(`StandsFor`). Every call keeps this and gets the same reply from both (`call_standsFor`), so calls in any order do
(`run_standsFor`, by induction on the calls).

- `tokenize_eq_characters`: the tokens of a text are its characters without those that are skipped, with their indices.
- `cursor_is_place`: how a cursor over a text replies to any calls.
-/
import Mathlib.Tactic
import FormulaLayout.Notation.Cursor

namespace FormulaLayout.Notation

/-! ## Calls -/

/-- what can be asked of a cursor: the next token, left or taken, or all tokens that are left -/
inductive Call where
  | peek
  | next
  | rest
  deriving DecidableEq, Repr

/-- what a call is answered with -/
inductive Reply where
  | token (found : Option Token)
  | tokens (found : List Token)
  deriving DecidableEq, Repr

/-- nothing is left -/
def Reply.isEmpty : Reply → Bool
  | token found => found.isNone
  | tokens found => found.isEmpty

/-- a list of tokens and the index of the next one -/
structure Place where
  tokens : List Token
  index : Nat

/-- one call at a place in a list; nothing moves the place beyond the end -/
def Place.call (place : Place) : Call → Reply × Place
  | .peek => (.token place.tokens[place.index]?, place)
  | .next => (.token place.tokens[place.index]?, { place with index := min (place.index + 1) place.tokens.length })
  | .rest => (.tokens (place.tokens.drop place.index), { place with index := place.tokens.length })

/-- one call of a cursor -/
def Cursor.call (cursor : Cursor) : Call → Reply × Cursor
  | .peek => (.token cursor.peek.1, cursor.peek.2)
  | .next => (.token cursor.next.1, cursor.next.2)
  | .rest => (.tokens cursor.takeAll.1, cursor.takeAll.2)

/-- the replies to calls one after the other, and what is there behind them -/
def runCalls {α : Type} (call : α → Call → Reply × α) (a : α) : List Call → List Reply × α
  | [] => ([], a)
  | c :: calls =>
    let (reply, a) := call a c
    let (replies, a) := runCalls call a calls
    (reply :: replies, a)

/-! ## Scanning -/

/-- scanning for one token gives the first of all tokens and stops in front of the others -/
theorem scan_of_scanOne {offset after : Nat} {cs rest : List Char} {t : Token}
    (h : Cursor.scanOne offset cs = some (t, after, rest)) : scan offset cs = t :: scan after rest := by
  induction cs generalizing offset with
  | nil => exact absurd h nofun
  | cons c cs ih =>
    simp only [Cursor.scanOne] at h
    split_ifs at h with hskipped
    · rw [scan, if_pos hskipped, ih h]
    · cases h
      rw [scan, if_neg hskipped]

theorem scan_of_scanOne_none {offset : Nat} {cs : List Char} (h : Cursor.scanOne offset cs = none) :
    scan offset cs = [] := by
  induction cs generalizing offset with
  | nil => rfl
  | cons c cs ih =>
    simp only [Cursor.scanOne] at h
    split_ifs at h with hskipped
    rw [scan, if_pos hskipped, ih h]

theorem scan_eq_zipIdx (offset : Nat) (cs : List Char) :
    scan offset cs = ((cs.zipIdx offset).filter (!isSkipped ·.1)).map fun (c, i) => ⟨.ofChar c, i⟩ := by
  induction cs generalizing offset with
  | nil => rfl
  | cons c cs ih =>
    rw [scan, List.zipIdx_cons, ih]
    by_cases hskipped : isSkipped c <;> simp [hskipped]

/-- the tokens of a text are the characters that are not skipped, in order, each with its index -/
theorem tokenize_eq_characters (input : String) :
    tokenize input = (input.toList.zipIdx.filter (!isSkipped ·.1)).map fun (c, i) => ⟨.ofChar c, i⟩ :=
  scan_eq_zipIdx 0 input.toList

/-! ## One call -/

namespace Cursor

variable (c : Cursor)

/-- the next token is the first that is left, and taking it leaves the others -/
theorem next_eq : c.next.1 = c.toList.head? ∧ c.next.2.toList = c.toList.tail := by
  obtain ⟨_ | ⟨t, waiting⟩, offset, unread⟩ := c
  · cases hscan : scanOne offset unread with
    | none => simp [next, toList, hscan, scan_of_scanOne_none hscan, scan]
    | some found =>
      obtain ⟨t, after, rest⟩ := found
      simp [next, toList, hscan, scan_of_scanOne hscan]
  · simp [next, toList]

/-- looking at the next token leaves all of them -/
theorem peek_eq : c.peek.1 = c.toList.head? ∧ c.peek.2.toList = c.toList := by
  obtain ⟨_ | ⟨t, waiting⟩, offset, unread⟩ := c
  · cases hscan : scanOne offset unread with
    | none => simp [peek, next, toList, hscan, scan_of_scanOne_none hscan, scan]
    | some found =>
      obtain ⟨t, after, rest⟩ := found
      simp [peek, next, toList, hscan, scan_of_scanOne hscan]
  · simp [peek, toList]

variable {c}

theorem waiting_next (h : c.waiting.length ≤ 1) : c.next.2.waiting.length ≤ 1 := by
  obtain ⟨_ | ⟨t, waiting⟩, offset, unread⟩ := c
  · cases hscan : scanOne offset unread <;> simp [next, hscan]
  · simp only [List.length_cons] at h
    simp only [next]
    omega

theorem waiting_peek (h : c.waiting.length ≤ 1) : c.peek.2.waiting.length ≤ 1 := by
  obtain ⟨_ | ⟨t, waiting⟩, offset, unread⟩ := c
  · cases hscan : scanOne offset unread <;> simp [peek, next, hscan]
  · exact h

/-- taking tokens one by one to the end takes all that are left -/
theorem takeAll_eq (c : Cursor) : c.takeAll.1 = c.toList ∧ c.takeAll.2.toList = [] := by
  induction c using takeAll.induct with
  | case1 c after h =>
    obtain ⟨hhead, htail⟩ := c.next_eq
    rw [h] at hhead htail
    have hnil : c.toList = [] := List.head?_eq_none_iff.1 hhead.symm
    rw [takeAll, h]
    exact ⟨hnil.symm, by rw [htail, hnil, List.tail_nil]⟩
  | case2 c t after h _ _ _ ih =>
    obtain ⟨hhead, htail⟩ := c.next_eq
    rw [h] at hhead htail
    have hcons : c.toList = t :: after.toList := by
      rw [htail]
      exact List.eq_cons_of_mem_head? (Option.mem_def.2 hhead.symm)
    rw [takeAll, h, hcons]
    exact ⟨congrArg _ ih.1, ih.2⟩

theorem waiting_takeAll (h : c.waiting.length ≤ 1) : c.takeAll.2.waiting.length ≤ 1 := by
  induction c using takeAll.induct with
  | case1 c after hnext =>
    have hwaiting := waiting_next h
    rw [hnext] at hwaiting
    rwa [takeAll, hnext]
  | case2 c t after hnext _ _ _ ih =>
    have hwaiting := waiting_next h
    rw [hnext] at hwaiting
    rw [takeAll, hnext]
    exact ih hwaiting

end Cursor

/-! ## Any calls -/

/-- what the cursor has left is what the list has from the place on, and at most one token of it waits in the queue -/
structure Cursor.StandsFor (c : Cursor) (place : Place) : Prop where
  left : c.toList = place.tokens.drop place.index
  queue : c.waiting.length ≤ 1

/-- a call gets the same reply from both, and they go to cursor and place that stand for each other again -/
theorem Cursor.StandsFor.call {c : Cursor} {place : Place} (h : c.StandsFor place) (k : Call) :
    (c.call k).1 = (place.call k).1 ∧ (c.call k).2.StandsFor (place.call k).2 := by
  have hhead : c.toList.head? = place.tokens[place.index]? := by rw [h.left, List.head?_drop]
  cases k with
  | peek =>
    obtain ⟨hreply, hleft⟩ := c.peek_eq
    exact ⟨congrArg Reply.token (hreply.trans hhead), hleft.trans h.left, waiting_peek h.queue⟩
  | next =>
    obtain ⟨hreply, hleft⟩ := c.next_eq
    have htail : place.tokens.drop (min (place.index + 1) place.tokens.length) = c.toList.tail := by
      rw [h.left, List.tail_drop]
      rcases Nat.le_total (place.index + 1) place.tokens.length with hle | hle
      · rw [min_eq_left hle]
      · rw [min_eq_right hle, List.drop_length, List.drop_eq_nil_of_le hle]
    exact ⟨congrArg Reply.token (hreply.trans hhead), hleft.trans htail.symm, waiting_next h.queue⟩
  | rest =>
    obtain ⟨hreply, hleft⟩ := c.takeAll_eq
    exact ⟨congrArg Reply.tokens (hreply.trans h.left), hleft.trans List.drop_length.symm, waiting_takeAll h.queue⟩

/-- so do calls in any order -/
theorem Cursor.StandsFor.run {c : Cursor} {place : Place} (h : c.StandsFor place) (calls : List Call) :
    (runCalls Cursor.call c calls).1 = (runCalls Place.call place calls).1 ∧
      (runCalls Cursor.call c calls).2.StandsFor (runCalls Place.call place calls).2 := by
  induction calls generalizing c place with
  | nil => exact ⟨rfl, h⟩
  | cons k calls ih =>
    obtain ⟨hreply, hafter⟩ := h.call k
    obtain ⟨hreplies, hbehind⟩ := ih hafter
    exact ⟨congrArg₂ List.cons hreply hreplies, hbehind⟩

namespace Place

/-- no token is left -/
def AtEnd (place : Place) : Prop :=
  place.tokens.length ≤ place.index

/-- at the end, a call finds nothing and stays there -/
theorem AtEnd.call {place : Place} (h : place.AtEnd) (k : Call) : (place.call k).1.isEmpty ∧ (place.call k).2.AtEnd := by
  unfold AtEnd at h
  cases k with
  | peek => exact ⟨by simp [Place.call, Reply.isEmpty, h], h⟩
  | next => exact ⟨by simp [Place.call, Reply.isEmpty, h], by simp only [AtEnd, Place.call]; omega⟩
  | rest => exact ⟨by simp [Place.call, Reply.isEmpty, h], le_refl place.tokens.length⟩

theorem AtEnd.run {place : Place} (h : place.AtEnd) (calls : List Call) :
    (∀ reply ∈ (runCalls Place.call place calls).1, reply.isEmpty) ∧ (runCalls Place.call place calls).2.AtEnd := by
  induction calls generalizing place with
  | nil => exact ⟨by simp [runCalls], h⟩
  | cons k calls ih =>
    obtain ⟨hreply, hafter⟩ := h.call k
    obtain ⟨hreplies, hbehind⟩ := ih hafter
    exact ⟨List.forall_mem_cons.2 ⟨hreply, hreplies⟩, hbehind⟩

/-- a call that finds no token is made at the end, and taking the rest leads there -/
theorem atEnd_of_call {place : Place} {k : Call} (h : k = .rest ∨ (place.call k).1 = .token none) :
    (place.call k).2.AtEnd := by
  cases k with
  | rest => exact le_refl place.tokens.length
  | peek =>
    have hnone : place.tokens[place.index]? = none := Reply.token.inj (h.resolve_left nofun)
    exact List.getElem?_eq_none_iff.1 hnone
  | next =>
    have hnone : place.tokens[place.index]? = none := Reply.token.inj (h.resolve_left nofun)
    have hend := List.getElem?_eq_none_iff.1 hnone
    simp only [AtEnd, Place.call]
    omega

theorem atEnd_of_run {place : Place} {calls : List Call}
    (h : .rest ∈ calls ∨ .token none ∈ (runCalls Place.call place calls).1) :
    (runCalls Place.call place calls).2.AtEnd := by
  induction calls generalizing place with
  | nil => simp [runCalls] at h
  | cons k calls ih =>
    simp only [runCalls, List.mem_cons] at h
    by_cases hfirst : k = .rest ∨ (place.call k).1 = .token none
    · exact ((atEnd_of_call hfirst).run calls).2
    · refine ih ?_
      rcases h with (h | h) | h | h
      · exact absurd (Or.inl h.symm) hfirst
      · exact Or.inl h
      · exact absurd (Or.inr h.symm) hfirst
      · exact Or.inr h

end Place

/-- **A cursor is a place in the list of tokens.** The tokens of a text are its characters without tabs and line breaks,
in order, each with its kind and its index. To any calls in any order, a cursor over the text replies as a place in that
list does, and its queue holds one token at most behind them; an iteration goes only through cursors that single calls of
`next` lead to. Once a call found no token or the rest was taken, every later call finds nothing. -/
theorem cursor_is_place (input : String) :
    tokenize input = (input.toList.zipIdx.filter (!isSkipped ·.1)).map (fun (c, i) => ⟨.ofChar c, i⟩) ∧
      (Cursor.ofString input).takeAll.1 = tokenize input ∧
      ∀ calls : List Call,
        let (replies, behind) := runCalls Cursor.call (.ofString input) calls
        replies = (runCalls Place.call ⟨tokenize input, 0⟩ calls).1 ∧
          behind.waiting.length ≤ 1 ∧
          (.rest ∈ calls ∨ .token none ∈ replies →
            ∀ more : List Call, ∀ reply ∈ (runCalls Cursor.call behind more).1, reply.isEmpty) := by
  have hstart : (Cursor.ofString input).StandsFor ⟨tokenize input, 0⟩ := ⟨rfl, Nat.zero_le 1⟩
  refine ⟨tokenize_eq_characters input, (Cursor.ofString input).takeAll_eq.1, fun calls => ?_⟩
  obtain ⟨hreplies, hbehind⟩ := hstart.run calls
  refine ⟨hreplies, hbehind.queue, fun hexhausted more => ?_⟩
  rw [hreplies] at hexhausted
  rw [(hbehind.run more).1]
  exact ((Place.atEnd_of_run hexhausted).run more).1

/-- a tab between two tokens is skipped, and looking twice takes nothing -/
example : (runCalls Cursor.call (.ofString "a\t^") [.peek, .peek, .next, .peek, .rest, .next]).1 =
    [.token (some ⟨.char 'a', 0⟩), .token (some ⟨.char 'a', 0⟩), .token (some ⟨.char 'a', 0⟩),
      .token (some ⟨.marker .above, 2⟩), .tokens [⟨.marker .above, 2⟩], .token none] := by
  decide +kernel

end FormulaLayout.Notation
