/-
Text that is cut behind a line.

`takeLines n` keeps the first `n` lines of a text. What it keeps of two texts one after the other is decided one text
after the other (`takeLines_append`), so a device that has room for so many lines holds the same text whichever way the
text was cut into pieces.

- `Device.Seamless`: pieces written to the device are the text that they make up, also when a write fails within them.
- `memory_seamless`, `limited_seamless`: both devices are like that.
- `limited_write`: what a limited device holds behind one text, and when it refuses it.
-/
import Mathlib.Tactic
import FormulaLayout.Device

namespace FormulaLayout

/-! ## The first lines of a text -/

@[simp]
theorem takeLines_zero (cs : List Char) : takeLines 0 cs = [] := by
  rw [takeLines]

@[simp]
theorem takeLines_nil (n : Nat) : takeLines n [] = [] := by
  cases n <;> rfl

/-- of two texts, the second has the lines that the first leaves -/
theorem takeLines_append (n : Nat) (xs ys : List Char) :
    takeLines n (xs ++ ys) = takeLines n xs ++ takeLines (n - xs.count '\n') ys := by
  induction xs generalizing n with
  | nil => simp
  | cons c xs ih =>
    cases n with
    | zero => simp
    | succ n =>
      rw [List.cons_append, takeLines, takeLines, ih, List.cons_append]
      by_cases hc : c = '\n'
      · simp [hc]
      · simp [hc, List.count_cons_of_ne hc]

theorem takeLines_isPrefix (n : Nat) (cs : List Char) : takeLines n cs <+: cs := by
  induction cs generalizing n with
  | nil => simp
  | cons c cs ih =>
    cases n with
    | zero => simp
    | succ n => exact (List.prefix_cons_inj c).2 (ih _)

theorem count_takeLines (n : Nat) (cs : List Char) : (takeLines n cs).count '\n' = min n (cs.count '\n') := by
  induction cs generalizing n with
  | nil => simp
  | cons c cs ih =>
    cases n with
    | zero => simp
    | succ n =>
      rw [takeLines]
      by_cases hc : c = '\n'
      · simp [hc, ih, Nat.succ_min_succ]
      · simp [hc, ih, List.count_cons_of_ne hc]

/-- a text that is cut has a line break for every line there was room for -/
theorem le_count_of_takeLines_ne {n : Nat} {cs : List Char} (h : takeLines n cs ≠ cs) : n ≤ cs.count '\n' := by
  induction cs generalizing n with
  | nil => simp at h
  | cons c cs ih =>
    cases n with
    | zero => exact Nat.zero_le _
    | succ n =>
      rw [takeLines, ne_eq, List.cons.injEq, not_and] at h
      have hrest := ih (h rfl)
      by_cases hc : c = '\n'
      · simpa [hc] using hrest
      · simpa [hc, List.count_cons_of_ne hc] using hrest

/-- a text of whole lines is kept exactly if there is room for all of them -/
theorem takeLines_eq_self_iff {n : Nat} {cs : List Char} :
    takeLines n (cs ++ ['\n']) = cs ++ ['\n'] ↔ (cs ++ ['\n']).count '\n' ≤ n := by
  constructor
  · intro h
    have hcount := count_takeLines n (cs ++ ['\n'])
    rw [h] at hcount
    omega
  · intro h
    have hlt : cs.count '\n' < n := by simpa using h
    have hbody : takeLines n cs = cs := by
      by_contra hne
      exact absurd (le_count_of_takeLines_ne hne) (by omega)
    obtain ⟨k, hk⟩ : ∃ k, n - cs.count '\n' = k + 1 := ⟨n - cs.count '\n' - 1, by omega⟩
    rw [takeLines_append, hbody, hk, takeLines, takeLines_nil]

/-- the first lines of a text, as many as there is room for -/
def keepLines (room : Option Nat) (text : String) : String :=
  match room with
  | none => text
  | some n => String.ofList (takeLines n text.toList)

/-- there is room for all lines of a text -/
def LinesFit (room : Option Nat) (text : String) : Prop :=
  ∀ n ∈ room, text.toList.count '\n' ≤ n

instance (room : Option Nat) (text : String) : Decidable (LinesFit room text) :=
  inferInstanceAs (Decidable (∀ n ∈ room, text.toList.count '\n' ≤ n))

theorem keepLines_isPrefix (room : Option Nat) (text : String) : (keepLines room text).toList <+: text.toList := by
  cases room with
  | none => exact List.prefix_refl _
  | some n => simpa [keepLines] using takeLines_isPrefix n text.toList

theorem keepLines_append (room : Option Nat) (a b : String) :
    keepLines room (a ++ b) = keepLines room a ++ keepLines (room.map (· - a.toList.count '\n')) b := by
  cases room with
  | none => rfl
  | some n => simp only [keepLines, Option.map_some, String.toList_append, takeLines_append, String.ofList_append]

/-- the room behind two texts is what the second leaves of the room behind the first -/
theorem room_append (room : Option Nat) (a b : String) :
    room.map (· - (a ++ b).toList.count '\n') =
      (room.map (· - a.toList.count '\n')).map (· - b.toList.count '\n') := by
  rw [Option.map_map, String.toList_append, List.count_append]
  exact congrArg (Option.map · room) (funext fun n => (Nat.sub_sub _ _ _).symm)

/-- there is no room left behind a text that was cut -/
theorem room_of_keepLines_ne {room : Option Nat} {text : String} (h : keepLines room text ≠ text) :
    room.map (· - text.toList.count '\n') = some 0 := by
  cases room with
  | none => exact absurd rfl h
  | some n =>
    have hcut : takeLines n text.toList ≠ text.toList := fun heq => h (by rw [keepLines, heq, String.ofList_toList])
    exact congrArg some (Nat.sub_eq_zero_of_le (le_count_of_takeLines_ne hcut))

/-- nothing is kept of what follows a text that was cut -/
theorem keepLines_append_of_ne {room : Option Nat} {a : String} (h : keepLines room a ≠ a) (b : String) :
    keepLines room (a ++ b) = keepLines room a := by
  rw [keepLines_append, room_of_keepLines_ne h, keepLines, takeLines_zero]
  simp

theorem keepLines_append_ne {room : Option Nat} {a : String} (h : keepLines room a ≠ a) (b : String) :
    keepLines room (a ++ b) ≠ a ++ b := by
  rw [keepLines_append_of_ne h]
  intro heq
  have hprefix := keepLines_isPrefix room a
  have hlength := hprefix.length_le
  rw [heq, String.toList_append, List.length_append] at hlength
  have hwhole := hprefix.eq_of_length (by rw [heq, String.toList_append, List.length_append]; omega)
  exact h (String.toList_inj.1 hwhole)

/-- a text is kept in front of some more exactly if the latter is kept behind it -/
theorem keepLines_append_eq_self_iff {room : Option Nat} {a b : String} (hb : b ≠ "") :
    keepLines room (a ++ b) = a ++ b ↔ keepLines (room.map (· - a.toList.count '\n')) b = b := by
  by_cases ha : keepLines room a = a
  · rw [keepLines_append, ha, String.append_right_inj]
  · have hnothing : keepLines (some 0) b ≠ b := by simpa [keepLines] using hb.symm
    rw [room_of_keepLines_ne ha]
    exact iff_of_false (keepLines_append_ne ha b) hnothing

/-- a text that another begins with is kept exactly if what is kept of the other begins with it -/
theorem keepLines_eq_self_iff_isPrefix {room : Option Nat} {a text : String} (h : a.toList <+: text.toList) :
    keepLines room a = a ↔ a.toList <+: (keepLines room text).toList := by
  obtain ⟨rest, hrest⟩ := h
  have htext : text = a ++ String.ofList rest := by
    rw [← String.toList_inj, String.toList_append, String.toList_ofList, hrest]
  by_cases ha : keepLines room a = a
  · have hbegins : a.toList <+: (keepLines room text).toList := by
      rw [htext, keepLines_append, ha, String.toList_append]
      exact List.prefix_append _ _
    exact iff_of_true ha hbegins
  · refine iff_of_false ha fun hbegins => ha ?_
    rw [htext, keepLines_append_of_ne ha] at hbegins
    have hwhole := (keepLines_isPrefix room a).eq_of_length_le hbegins.length_le
    exact String.toList_inj.1 hwhole

/-- a text of whole lines is kept exactly if they fit -/
theorem keepLines_eq_self_iff {room : Option Nat} {body : String} :
    keepLines room (body ++ "\n") = body ++ "\n" ↔ LinesFit room (body ++ "\n") := by
  cases room with
  | none => simp [keepLines, LinesFit]
  | some n =>
    have hlist : (body ++ "\n").toList = body.toList ++ ['\n'] := by simp
    rw [keepLines, ← String.toList_inj, String.toList_ofList, hlist, takeLines_eq_self_iff, LinesFit, hlist]
    simp

/-! ## Devices -/

namespace Device

variable {σ ε : Type}

/-- a device to which pieces of text are the text that they make up -/
structure Seamless (device : Device σ ε) : Prop where
  write_empty : ∀ out, device.write out "" = .done out
  write_append : ∀ out a b, device.write out (a ++ b) = (device.write out a).andThen (device.write · b)

/-- all pieces at once -/
theorem Seamless.forEach_write {device : Device σ ε} (h : device.Seamless) (out : σ) (pieces : List String) :
    Outcome.forEach device.write out pieces = device.write out (String.join pieces) := by
  induction pieces generalizing out with
  | nil => exact (h.write_empty out).symm
  | cons piece pieces ih =>
    rw [Outcome.forEach_cons, String.join_cons, h.write_append]
    exact congrArg _ (funext ih)

theorem memory_seamless : (memory : Device String ε).Seamless where
  write_empty out := by simp [memory]
  write_append out a b := by simp [memory, Outcome.done, Outcome.andThen, String.append_assoc]

/-- behind one text, a limited device holds the lines of it that there was room for -/
theorem limited_write (full : ε) (flushError? : Option ε) (out : LimitedOutput) (piece : String) :
    (limited full flushError?).write out piece =
      ⟨⟨out.text ++ keepLines out.room piece, out.room.map (· - piece.toList.count '\n')⟩,
        if keepLines out.room piece = piece then none else some full⟩ := by
  obtain ⟨text, _ | n⟩ := out
  · simp [limited, keepLines, Outcome.done]
  · have hroom : n - (takeLines n piece.toList).count '\n' = n - piece.toList.count '\n' := by
      rw [count_takeLines]
      omega
    have hwhole : (takeLines n piece.toList).length = piece.length ↔ keepLines (some n) piece = piece := by
      rw [keepLines, ← String.toList_inj, String.toList_ofList, ← String.length_toList]
      exact ⟨(takeLines_isPrefix n _).eq_of_length, congrArg _⟩
    simp only [limited, hroom, hwhole]
    split_ifs <;> rfl

theorem limited_seamless (full : ε) (flushError? : Option ε) : (limited full flushError?).Seamless where
  write_empty out := by
    obtain ⟨text, _ | n⟩ := out <;> simp [limited_write, keepLines, Outcome.done]
  write_append out a b := by
    rw [limited_write, limited_write, room_append]
    by_cases ha : keepLines out.room a = a
    · simp only [ha, if_true, Outcome.andThen, limited_write, keepLines_append, String.append_assoc,
        String.append_right_inj]
    · rw [if_neg ha, if_neg (keepLines_append_ne ha b), keepLines_append_of_ne ha, room_of_keepLines_ne ha]
      simp [Outcome.andThen]

end Device

end FormulaLayout
