/-
Painting that is cut short.

Two things stop a painter: a command that is not finite, in front of which it fails by itself, and a sink that refuses a
command. A sink that holds what it takes and refuses once it is full (`Sink.Fills`) gets the commands in order up to the
first that is not finite, as far as there is room for them (`forEach_fills`, by induction on the commands). If it is full
in front of a command that is not finite, it is the painter that fails.

No sink sees a command that is not finite. Whatever a sink does with those that are finite, an invariant of its states
that it keeps for them is kept by one command, by one formula and by any number of formulas painted one after the other
(`emit_keeps`, `paint_keeps`, `paintAll_keeps`). Applied to the list of all commands that a sink has been given, this says
that they are finite.

- `paint_stops_cleanly`: what a sink holds, what the painter has counted, and why it stopped.
-/
import Mathlib.Tactic
import FormulaLayout.Fault

namespace FormulaLayout

variable {σ ε α : Type}

/-! ## Sinks -/

namespace Sink

/-- the sink takes commands until it holds `limit` of them and then fails with `full`; `held` is what a state holds -/
structure Fills (sink : Sink σ ε α) (held : σ → List (Command α)) (limit : Nat) (full : ε) : Prop where
  takes : ∀ s c, (held s).length < limit → ∃ s', sink s c = .done s' ∧ held s' = held s ++ [c]
  refuses : ∀ s c, (held s).length = limit → ∃ s', sink s c = .failed s' full ∧ held s' = held s

theorem limited_fills (limit : Nat) (full : ε) :
    Fills (limited limit full : Sink (Drawing α) ε α) Array.toList limit full where
  takes drawing c h := by
    have hroom : ¬ limit ≤ drawing.size := Nat.not_le.2 h
    exact ⟨drawing.push c, by simp only [limited, hroom, if_false], Array.toList_push⟩
  refuses drawing c h := by
    have hfull : limit ≤ drawing.size := Nat.le_of_eq h.symm
    exact ⟨drawing, by simp only [limited, hfull, if_true], rfl⟩

/-- the sink together with all commands that it has been given, also those it has refused -/
def logged (sink : Sink σ ε α) : Sink (σ × List (Command α)) ε α :=
  fun (s, log) c => (sink s c).mapState (·, log ++ [c])

end Sink

namespace Painting

variable [Scalar α] {sink : Sink σ ε α}

/-! ## Sinks that fill up -/

/-- commands go into a sink up to the first that is not finite, as far as there is room -/
theorem forEach_fills {held : σ → List (Command α)} {limit : Nat} {full : ε} (h : sink.Fills held limit full)
    (p : Painting σ) (hp : (held p.sink).length ≤ limit) (cs : List (Command α)) :
    let first := cs.findIdx (!·.isFinite)
    let taken := min first (limit - (held p.sink).length)
    let outcome := Outcome.forEach (emit sink) p cs
    held outcome.state.sink = held p.sink ++ cs.take taken ∧ outcome.state.emitted = p.emitted + taken ∧
      outcome.error? = cs[taken]?.map fun c => if taken = first then .notFinite c else .refused full := by
  induction cs generalizing p with
  | nil => simp [Outcome.forEach, Outcome.done]
  | cons c cs ih =>
    dsimp only
    rw [Outcome.forEach_cons]
    by_cases hc : c.isFinite
    · have hfirst : (c :: cs).findIdx (!·.isFinite) = cs.findIdx (!·.isFinite) + 1 := by
        simp [List.findIdx_cons, hc]
      rw [hfirst]
      rcases Nat.lt_or_eq_of_le hp with hroom | hfull
      · -- the sink holds one command more, and there is room for one less
        obtain ⟨s, hs, hheld⟩ := h.takes p.sink c hroom
        have hlength : (held s).length = (held p.sink).length + 1 := by simp [hheld]
        obtain ⟨hsink, hemitted, herror⟩ := ih ⟨p.emitted + 1, s⟩ (by simp only [hlength]; omega)
        have htaken : min (cs.findIdx (!·.isFinite) + 1) (limit - (held p.sink).length) =
            min (cs.findIdx (!·.isFinite)) (limit - (held s).length) + 1 := by omega
        rw [emit_done hc hs, htaken]
        refine ⟨?_, ?_, ?_⟩
        · simpa [Outcome.andThen, Outcome.done, hheld] using hsink
        · simp only [Outcome.andThen, Outcome.done, hemitted]
          omega
        · simpa [Outcome.andThen, Outcome.done] using herror
      · -- no room, and the command is not the first that is not finite
        obtain ⟨s, hs, hheld⟩ := h.refuses p.sink c hfull
        rw [emit_failed hc hs, hfull, Nat.sub_self]
        simp [Outcome.andThen, Outcome.failed, hheld]
    · -- the painter fails by itself, whether or not there is room
      have hfirst : (c :: cs).findIdx (!·.isFinite) = 0 := by simp [List.findIdx_cons, hc]
      rw [hfirst, emit_notFinite (Bool.not_eq_true _ ▸ hc)]
      simp [Outcome.andThen, Outcome.failed]

/-! ## Repeated painting -/

/-- formulas painted one after the other by one painter into one sink, whether or not an earlier one failed -/
def paintAll (sink : Sink σ ε α) (p : Painting σ) (trees : List (Formula (Placed α))) : Painting σ :=
  trees.foldl (fun p t => (paint sink p t).state) p

section

variable {I : σ → Prop} (h : ∀ s c, c.isFinite → I s → I (sink s c).state)

include h

theorem emit_keeps (p : Painting σ) (c : Command α) (hp : I p.sink) : I (emit sink p c).state.sink := by
  by_cases hc : c.isFinite
  · have hsink := h p.sink c hc hp
    unfold emit
    rw [if_pos hc]
    rcases hs : sink p.sink c with ⟨s, _ | e⟩ <;> rw [hs] at hsink <;> exact hsink
  · rw [emit_notFinite (Bool.not_eq_true _ ▸ hc)]
    exact hp

theorem forEach_keeps (p : Painting σ) (cs : List (Command α)) (hp : I p.sink) :
    I (Outcome.forEach (emit sink) p cs).state.sink := by
  induction cs generalizing p with
  | nil => exact hp
  | cons c cs ih =>
    have hc := emit_keeps h p c hp
    rw [Outcome.forEach_cons]
    rcases hemit : emit sink p c with ⟨p', _ | e⟩ <;> rw [hemit] at hc
    · exact ih p' hc
    · exact hc

theorem paint_keeps (p : Painting σ) (t : Formula (Placed α)) (hp : I p.sink) : I (paint sink p t).state.sink := by
  rw [paint_eq]
  exact forEach_keeps h p t.commands hp

theorem paintAll_keeps (p : Painting σ) (trees : List (Formula (Placed α))) (hp : I p.sink) :
    I (paintAll sink p trees).sink := by
  induction trees generalizing p with
  | nil => exact hp
  | cons t trees ih => exact ih _ (paint_keeps h p t hp)

end

/-- no sink is given a command that is not finite, in any number of paintings -/
theorem logged_finite (sink : Sink σ ε α) (n : Nat) (s : σ) (trees : List (Formula (Placed α))) :
    ∀ c ∈ (paintAll sink.logged ⟨n, (s, [])⟩ trees).sink.2, c.isFinite := by
  have hkeeps : ∀ (state : σ × List (Command α)) (c : Command α), c.isFinite → (∀ d ∈ state.2, d.isFinite) →
      ∀ d ∈ (sink.logged state c).state.2, d.isFinite := by
    intro state c hc hlog d hd
    rcases List.mem_append.1 hd with hd | hd
    · exact hlog d hd
    · rw [List.mem_singleton.1 hd]
      exact hc
  exact paintAll_keeps hkeeps ⟨n, (s, [])⟩ trees nofun

/-- **Painting fails cleanly and in order.** Of the commands of a formula a sink that fills up holds those in front of the
first that is not finite, as far as there was room for them, and as many are counted; painting failed at the next one,
because it is not finite or else because the sink was full. No sink is ever given a command that is not finite. -/
theorem paint_stops_cleanly :
    (∀ {σ : Type} {sink : Sink σ String Float32} {held : σ → List (Command Float32)} {limit : Nat} {full : String},
      sink.Fills held limit full → ∀ (p : Painting σ), (held p.sink).length ≤ limit →
        ∀ t : Formula (Placed Float32),
          let first := t.commands.findIdx (!·.isFinite)
          let taken := min first (limit - (held p.sink).length)
          let outcome := paint sink p t
          held outcome.state.sink = held p.sink ++ t.commands.take taken ∧
            outcome.state.emitted = p.emitted + taken ∧
              outcome.error?.map PaintError.toFault =
                t.commands[taken]?.map fun c => if taken = first then .degenerateGeometry c.describe else .io full) ∧
    ∀ {σ ε : Type} (sink : Sink σ ε Float32) (n : Nat) (s : σ) (trees : List (Formula (Placed Float32))),
      ∀ c ∈ (paintAll sink.logged ⟨n, (s, [])⟩ trees).sink.2, c.isFinite := by
  refine ⟨?_, logged_finite⟩
  intro σ sink held limit full h p hp t first taken outcome
  obtain ⟨hsink, hemitted, herror⟩ := forEach_fills h p hp t.commands
  rw [← paint_eq] at hsink hemitted herror
  refine ⟨hsink, hemitted, ?_⟩
  rw [herror, Option.map_map]
  congr 1
  funext c
  dsimp only [Function.comp_apply]
  split_ifs <;> rfl

/-- three glyphs at a scale at which the third is not at a finite place, and a sink that is full in front of it: the
painter fails, and the sink is not asked -/
theorem overflow_in_front_of_full_sink :
    let t := (Formula.adjoin (.adjoin (.character 'a') (.character 'b')) (.character 'c')).laidOut (3e38 : Float32) .zero
    let outcome := paint (Sink.limited 2 "closed") ⟨0, #[]⟩ t
    (Sink.limited 2 "closed" : Sink (Drawing Float32) String Float32).Fills Array.toList 2 "closed" ∧
      outcome.state.sink.toList = t.commands.take 2 ∧ outcome.state.emitted = 2 ∧
        ∃ message, outcome.error?.map PaintError.toFault = some (.degenerateGeometry message) := by
  intro t outcome
  have hfills := Sink.limited_fills (α := Float32) 2 "closed"
  have hstops := paint_stops_cleanly.1 hfills ⟨0, #[]⟩ (Nat.zero_le 2) t
  have hfirst : t.commands.findIdx (!·.isFinite) = 2 := by decide +kernel
  have hlength : t.commands.length = 3 := by decide +kernel
  clear_value t
  simp only [hfirst, List.length_nil, Nat.sub_zero, Nat.min_self, Nat.zero_add, if_true, List.nil_append,
    List.getElem?_eq_getElem (show 2 < t.commands.length by omega), Option.map_some] at hstops
  exact ⟨hfills, hstops.1, hstops.2.1, _, hstops.2.2⟩

end Painting

end FormulaLayout
