/-
A writer whose device fills up, behind any steps.

A session begins documents, emits commands, paints formulas and finishes documents, in any order, and goes on after a
step that failed. What a step would write on its own is a list of entries (`Step.entries`), markup or the elements of
commands, and a step does nothing but write them in order and then fail if it has come to a command that is not finite
(`Step.perform_eq`).

So a writer is followed entry by entry. One entry takes the room for its line, or what is left of the room, and is
counted if it is an element and has been taken whole; entries one after the other, within a step or across steps, act on
the writer as one list (`Writer.behind_append`). A whole session is therefore known from the list of its entries
(`session_eq`, by induction on the steps).

- `session_prefix`: the text that a session leaves on a device with room for so many lines, its errors and its count.
-/
import Mathlib.Data.List.Infix
import Mathlib.Tactic
import FormulaLayout.Fault
import FormulaLayout.Proofs.Svg.Document
import FormulaLayout.Proofs.Svg.Streaming

namespace FormulaLayout.Svg

open Text (Piece)

variable {σ : Type}

/-! ## Sessions -/

/-- what can be done with a writer; a painter that paints into it may have emitted commands before -/
inductive Step where
  | begin
  | emit (command : Command Float32)
  | paint (emitted : Nat) (t : Formula (Placed Float32))
  | finish

/-- one step, with its error as a fault -/
def Step.perform (device : Device σ String) (options : Options) (step : Step) (w : Writer σ) :
    Outcome (Writer σ) Fault :=
  match step with
  | begin => (Writer.begin device options w).mapError .io
  | emit command => (Writer.emit device w command).mapError .io
  | paint emitted t =>
    ((Painting.paint (Writer.emit device) ⟨emitted, w⟩ t).mapState Painting.sink).mapError PaintError.toFault
  | finish => (Writer.finish device w).mapError .io

/-- steps one after the other, whether or not an earlier one failed -/
def performAll (device : Device σ String) (options : Options) (w : Writer σ) (steps : List Step) : Writer σ :=
  steps.foldl (fun w step => (step.perform device options w).state) w

/-- the device of a session: it refuses text beyond its room, and no flush -/
abbrev sessionDevice (full : String) : Device LimitedOutput String :=
  .limited full none

/-- a session with a new writer whose device has room for so many lines, or for all -/
def session (full : String) (options : Options) (room : Option Nat) (steps : List Step) : Writer LimitedOutput :=
  performAll (sessionDevice full) options ⟨⟨"", room⟩, 0⟩ steps

/-! ## Entries -/

/-- a line of a document: markup that is not counted, or the element of a command -/
inductive Entry where
  | markup (piece : Piece)
  | drawn (command : Command Float32)

namespace Entry

def piece : Entry → Piece
  | markup piece => piece
  | drawn command => (Element.ofCommand command).piece

/-- the element of a command, as opposed to a line of the grid or any other markup -/
def isDrawn : Entry → Bool
  | markup _ => false
  | drawn _ => true

/-- the text of entries one after the other -/
def text (entries : List Entry) : String :=
  String.join (entries.map (·.piece.line))

@[simp]
theorem text_nil : text [] = "" := rfl

theorem text_singleton (e : Entry) : text [e] = e.piece.line := by
  simp only [text, List.map_cons, List.map_nil, String.join_cons, String.join_nil, String.append_empty]

@[simp]
theorem text_append (es fs : List Entry) : text (es ++ fs) = text es ++ text fs := by
  simp only [text, List.map_append, String.join_append]

theorem text_ne_empty {es : List Entry} (h : es ≠ []) : text es ≠ "" := by
  obtain ⟨e, es, rfl⟩ := List.exists_cons_of_ne_nil h
  intro hempty
  have hlength := congrArg String.length hempty
  simp [text, Piece.line] at hlength

/-- how many elements of commands among the entries are whole in what has been accepted of their text -/
def elementsIn (accepted : String) (entries : List Entry) : Nat :=
  entries.inits.countP fun front => front.getLast?.any isDrawn ∧ (text front).toList <+: accepted.toList

/-- how many elements of commands among the entries a device with so much room takes whole -/
def elementsWithin (room : Option Nat) (entries : List Entry) : Nat :=
  entries.inits.countP fun front => front.getLast?.any isDrawn ∧ keepLines room (text front) = text front

theorem elementsWithin_singleton (room : Option Nat) (e : Entry) :
    elementsWithin room [e] = if e.isDrawn ∧ keepLines room e.piece.line = e.piece.line then 1 else 0 := by
  simp [elementsWithin, text_singleton]

theorem elementsIn_keepLines (room : Option Nat) (es : List Entry) :
    elementsIn (keepLines room (text es)) es = elementsWithin room es := by
  refine List.countP_congr fun front hfront => ?_
  obtain ⟨rest, rfl⟩ := (List.mem_inits front es).1 hfront
  have hbegins : (text front).toList <+: (text (front ++ rest)).toList := by
    rw [text_append, String.toList_append]
    exact List.prefix_append _ _
  simp only [keepLines_eq_self_iff_isPrefix hbegins]

/-- of two lists of entries, the second has the room that the text of the first leaves -/
theorem elementsWithin_append (room : Option Nat) (es fs : List Entry) :
    elementsWithin room (es ++ fs) =
      elementsWithin room es + elementsWithin (room.map (· - (text es).toList.count '\n')) fs := by
  cases fs with
  | nil => simp [elementsWithin]
  | cons f fs =>
    -- a front that reaches into the second list ends there, and it is taken if what it has of that list is
    have hreach : ∀ front : List Entry,
        ((es ++ f :: front).getLast?.any isDrawn ∧ keepLines room (text (es ++ f :: front)) = text (es ++ f :: front)) ↔
          (f :: front).getLast?.any isDrawn ∧
            keepLines (room.map (· - (text es).toList.count '\n')) (text (f :: front)) = text (f :: front) := by
      intro front
      rw [text_append, keepLines_append_eq_self_iff (text_ne_empty (List.cons_ne_nil f front)), List.getLast?_append,
        List.getLast?_cons, Option.some_or]
    simp only [elementsWithin, List.inits_append, List.inits_cons, List.tail_cons, List.countP_append, List.countP_cons,
      List.countP_map, Function.comp_def, hreach]
    simp

end Entry

/-! ## A step is its entries -/

namespace Writer

/-- one entry is written, and counted if it is an element -/
def enter {ε : Type} (device : Device σ ε) (w : Writer σ) : Entry → Outcome (Writer σ) ε
  | .markup piece => write device w piece
  | .drawn command => emit device w command

end Writer

namespace Step

/-- what the step writes where nothing is refused -/
def entries (options : Options) : Step → List Entry
  | begin => (opening options ++ options.grid.elim [] gridPieces).map .markup
  | emit command => [.drawn command]
  | paint _ t => (t.commands.takeWhile Command.isFinite).map .drawn
  | finish => closing.map .markup

/-- how the step fails where nothing is refused: in front of a command that is not finite -/
def fault? : Step → Option Fault
  | paint _ t => (t.commands.find? (!·.isFinite)).map Command.toFault
  | _ => none

/-- such a failure is not one of the device -/
theorem fault?_ne_io (step : Step) (message : String) : step.fault? ≠ some (.io message) := by
  cases step with
  | paint emitted t =>
    intro h
    obtain ⟨command, -, hcommand⟩ := Option.map_eq_some_iff.1 h
    cases hcommand
  | begin | emit command | finish => simp [fault?]

/-- a step writes its entries in order and then fails as it does where nothing is refused -/
theorem perform_eq {device : Device σ String} (hflush : ∀ out, device.flush out = .done out) (options : Options)
    (step : Step) (w : Writer σ) :
    step.perform device options w =
      ((Outcome.forEach (Writer.enter device) w (step.entries options)).mapError .io).andThen
        fun w => ⟨w, step.fault?⟩ := by
  have hmarkup : ∀ (w : Writer σ) (pieces : List Piece),
      Outcome.forEach (Writer.enter device) w (pieces.map .markup) = Outcome.forEach (Writer.write device) w pieces :=
    fun w pieces => Outcome.forEach_map _ _ _ _
  have hdrawn : ∀ (w : Writer σ) (commands : List (Command Float32)),
      Outcome.forEach (Writer.enter device) w (commands.map .drawn) =
        Outcome.forEach (Writer.emit device) w commands :=
    fun w commands => Outcome.forEach_map _ _ _ _
  cases step with
  | begin =>
    rw [perform, entries, hmarkup, Writer.begin_eq]
    exact (Outcome.andThen_done _).symm
  | emit command =>
    rw [perform, entries, Outcome.forEach_singleton]
    exact (Outcome.andThen_done _).symm
  | paint emitted t =>
    have hfault : ((t.commands.find? (!·.isFinite)).map (.notFinite (ε := String))).map PaintError.toFault =
        (paint emitted t).fault? := Option.map_map ..
    rw [perform, entries, hdrawn, Painting.paint_eq, Painting.forEach_emit, Painting.replayed, ← hfault]
    rcases Outcome.forEach (Writer.emit device) w (t.commands.takeWhile Command.isFinite) with ⟨w', _ | message⟩ <;> rfl
  | finish =>
    have hdone : Writer.finish device w = Outcome.forEach (Writer.write device) w closing := by
      simp only [Writer.finish, hflush]
      exact Outcome.andThen_done _
    rw [perform, entries, hmarkup, hdone]
    exact (Outcome.andThen_done _).symm

end Step

/-! ## A device that fills up -/

namespace Writer

/-- the writer behind entries: the lines there was room for, the room they leave, and the elements that were taken -/
def behind (w : Writer LimitedOutput) (es : List Entry) : Writer LimitedOutput where
  out := ⟨w.out.text ++ keepLines w.out.room (Entry.text es),
    w.out.room.map (· - (Entry.text es).toList.count '\n')⟩
  elements := w.elements + Entry.elementsWithin w.out.room es

@[simp]
theorem behind_nil (w : Writer LimitedOutput) : w.behind [] = w := by
  obtain ⟨⟨text, _ | n⟩, elements⟩ := w <;> simp [behind, keepLines, Entry.elementsWithin]

theorem behind_append (w : Writer LimitedOutput) (es fs : List Entry) :
    w.behind (es ++ fs) = (w.behind es).behind fs := by
  simp only [behind, Entry.text_append, keepLines_append, room_append, Entry.elementsWithin_append,
    String.append_assoc, Nat.add_assoc]

/-- a writer without room stays as it is -/
theorem behind_of_full {w : Writer LimitedOutput} (h : w.out.room = some 0) (es : List Entry) : w.behind es = w := by
  obtain ⟨⟨text, room⟩, elements⟩ := w
  obtain rfl : room = some 0 := h
  have hnone : Entry.elementsWithin (some 0) es = 0 := by
    refine List.countP_eq_zero.2 fun front _ hboth => ?_
    obtain ⟨hdrawn, hwhole⟩ := of_decide_eq_true hboth
    have hne : front ≠ [] := by
      rintro rfl
      simp at hdrawn
    exact Entry.text_ne_empty hne (by simpa [keepLines] using hwhole.symm)
  simp [behind, keepLines, hnone]

theorem enter_eq (full : String) (w : Writer LimitedOutput) (e : Entry) :
    enter (sessionDevice full) w e =
      ⟨w.behind [e], if keepLines w.out.room (Entry.text [e]) = Entry.text [e] then none else some full⟩ := by
  rw [behind, Entry.elementsWithin_singleton, Entry.text_singleton]
  cases e with
  | markup piece =>
    rw [enter, write, Device.limited_write]
    rfl
  | drawn command =>
    simp only [enter, emit, write, Device.limited_write, Entry.piece, Entry.isDrawn, true_and]
    by_cases hwhole :
      keepLines w.out.room (Element.ofCommand command).piece.line = (Element.ofCommand command).piece.line
    · simp only [hwhole, if_true]
      rfl
    · simp only [hwhole, if_false]
      rfl

/-- entries one after the other, up to the first that is refused -/
theorem forEach_enter (full : String) (w : Writer LimitedOutput) (es : List Entry) :
    Outcome.forEach (enter (sessionDevice full)) w es =
      ⟨w.behind es, if keepLines w.out.room (Entry.text es) = Entry.text es then none else some full⟩ := by
  induction es generalizing w with
  | nil =>
    have hwhole : keepLines w.out.room "" = "" := by cases w.out.room <;> simp [keepLines]
    simp [Outcome.forEach, Outcome.done, hwhole]
  | cons e es ih =>
    have hcons : e :: es = [e] ++ es := rfl
    rw [Outcome.forEach_cons, enter_eq, hcons, behind_append, Entry.text_append]
    by_cases hwhole : keepLines w.out.room (Entry.text [e]) = Entry.text [e]
    · simp only [keepLines_append, hwhole, if_true, String.append_right_inj]
      exact ih (w.behind [e])
    · have hfull : (w.behind [e]).out.room = some 0 := room_of_keepLines_ne hwhole
      rw [if_neg hwhole, if_neg (keepLines_append_ne hwhole _), behind_of_full hfull]
      rfl

end Writer

/-- a step on a device that fills up -/
theorem Step.perform_session (full : String) (options : Options) (step : Step) (w : Writer LimitedOutput) :
    step.perform (sessionDevice full) options w =
      ⟨w.behind (step.entries options),
        if keepLines w.out.room (Entry.text (step.entries options)) = Entry.text (step.entries options) then
          step.fault?
        else
          some (.io full)⟩ := by
  rw [perform_eq fun out => rfl, Writer.forEach_enter]
  split_ifs <;> rfl

/-- steps on a device that fills up are their entries one after the other -/
theorem performAll_eq (full : String) (options : Options) (w : Writer LimitedOutput) (steps : List Step) :
    performAll (sessionDevice full) options w steps = w.behind (steps.flatMap (Step.entries options)) := by
  induction steps generalizing w with
  | nil => exact w.behind_nil.symm
  | cons step steps ih =>
    rw [List.flatMap_cons, Writer.behind_append, ← ih, performAll, List.foldl_cons, Step.perform_session]
    rfl

/-! ## Whole sessions -/

theorem session_eq (full : String) (options : Options) (room : Option Nat) (steps : List Step) :
    session full options room steps = Writer.behind ⟨⟨"", room⟩, 0⟩ (steps.flatMap (Step.entries options)) :=
  performAll_eq full options _ steps

/-- without a limit, the device holds the text of all entries and has no limit still -/
theorem session_unlimited (full : String) (options : Options) (steps : List Step) :
    (session full options none steps).out = ⟨Entry.text (steps.flatMap (Step.entries options)), none⟩ := by
  rw [session_eq]
  simp [Writer.behind, keepLines]

/-- **A writer whose device fills up leaves an exact prefix and counts what it drew.** Behind any steps, the device holds
the text that one without a limit would hold, cut behind its last line, and the writer has counted the elements of
commands that are whole in there. A further step fails with the error of the device exactly if the device does not take
all of its text, and otherwise as it would without a limit, where the device has no error. -/
theorem session_prefix (full : String) (options : Options) (n : Nat) (steps : List Step) :
    let limited := session full options (some n) steps
    let unlimited := session full options none steps
    let entries := steps.flatMap (Step.entries options)
    unlimited.out.text = Entry.text entries ∧
      limited.out.text = keepLines (some n) unlimited.out.text ∧
      limited.elements = Entry.elementsIn limited.out.text entries ∧
      ∀ step : Step,
        let own := Entry.text (step.entries options)
        let ideal := step.perform (sessionDevice full) options unlimited
        let actual := step.perform (sessionDevice full) options limited
        ideal.state.out.text = unlimited.out.text ++ own ∧
          (∀ message, ideal.error? ≠ some (.io message)) ∧
          ((∃ message, actual.error? = some (.io message)) ↔ actual.state.out.text ≠ limited.out.text ++ own) ∧
          actual.error? = if actual.state.out.text = limited.out.text ++ own then ideal.error? else some (.io full) := by
  intro limited unlimited entries
  have hunlimited : unlimited.out = ⟨Entry.text entries, none⟩ := session_unlimited full options steps
  have hlimited : limited = Writer.behind ⟨⟨"", some n⟩, 0⟩ entries := session_eq full options (some n) steps
  have htext : limited.out.text = keepLines (some n) (Entry.text entries) := by
    rw [hlimited, Writer.behind, String.empty_append]
  have helements : limited.elements = Entry.elementsIn limited.out.text entries := by
    rw [htext, Entry.elementsIn_keepLines, hlimited, Writer.behind, Nat.zero_add]
  refine ⟨by rw [hunlimited], by rw [htext, hunlimited], helements, ?_⟩
  intro step own ideal actual
  have hideal : ideal = ⟨unlimited.behind (step.entries options), step.fault?⟩ := by
    have hwhole : keepLines unlimited.out.room own = own := by
      rw [hunlimited]
      rfl
    exact (step.perform_session full options unlimited).trans (by rw [if_pos hwhole])
  have hactual : actual = _ := step.perform_session full options limited
  have htaken : actual.state.out.text = limited.out.text ++ own ↔ keepLines limited.out.room own = own := by
    rw [hactual, Writer.behind, String.append_right_inj]
  have herror : actual.error? = if keepLines limited.out.room own = own then ideal.error? else some (.io full) := by
    rw [hactual, hideal]
  have hnone : ∀ message, ideal.error? ≠ some (.io message) := by
    rw [hideal]
    exact step.fault?_ne_io
  refine ⟨?_, hnone, ?_, ?_⟩
  · rw [hideal, Writer.behind, hunlimited]
    rfl
  · constructor
    · intro ⟨message, hmessage⟩ hwhole
      rw [herror, if_pos (htaken.1 hwhole)] at hmessage
      exact hnone message hmessage
    · intro hcut
      exact ⟨full, by rw [herror, if_neg (mt htaken.2 hcut)]⟩
  · rw [herror]
    simp only [htaken]

/-- of a document with an "a" and a "b", a device with room for four lines takes the "a", and nothing that comes later -/
example :
    let letter (content : String) : Step := .emit (.text ⟨⟨0.0, 0.0⟩, 1.0, content, 1.0⟩)
    (session "full" .standard (some 4) [.begin, letter "a", letter "b", .finish, letter "c"]).elements = 1 := by
  decide +kernel

end FormulaLayout.Svg
