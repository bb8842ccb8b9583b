/-
Every word of the grammar is read.

For each kind of phrase there is a run over any tokens of its word, from every state that is ready for it: a factor
fills the slot of the state, a term becomes the current term of its run, terms and runs and expressions fill a level.
The limit has to allow the bound of the phrase and its delimiters inside those already open.

`parseTokens_complete`: the reader accepts every expression within the limit, whatever the offsets of its tokens are.
-/
import Mathlib.Tactic
import FormulaLayout.Proofs.Notation.Steps

namespace FormulaLayout.Notation

/-! ## Bounds of parts -/

theorem Part.bounds_of_scripted {limit : Nat} {base : Part} {sup sub : Option Part}
    (h : (base.scripted sup sub).levels ≤ limit) :
    base.levels ≤ limit ∧ (∀ q ∈ sup, q.levels ≤ limit) ∧ ∀ q ∈ sub, q.levels ≤ limit := by
  cases sup <;> cases sub <;> simp [Part.scripted] at h ⊢ <;> omega

theorem Part.bounds_of_dividedBy {limit : Nat} {p q : Part} (h : (p.dividedBy q).levels ≤ limit) :
    p.levels ≤ limit ∧ q.levels ≤ limit := by
  simp only [Part.dividedBy] at h
  omega

/-! ## The terms of a level -/

/-- the terms of the current run, the current one included -/
def FocusTerms : Focus → List Part → Prop
  | .opening, ps => ps = []
  | .factor run term, ps => run.terms.reverse ++ [term.part] = ps
  | .marker _ _ _, _ => False

/-- behind whole terms the next factor begins a term -/
theorem FocusTerms.slot {limit : Nat} {focus : Focus} {ps : List Part} (h : FocusTerms focus ps)
    (hps : ∀ p ∈ ps, p.levels ≤ limit) (ts : List Token) :
    ∃ run : Run, run.terms.reverse = ps ∧ ∀ t ∈ ts.head?, focus.slot limit t.offset = .ok (.base run) := by
  cases focus with
  | opening =>
    obtain rfl : ps = [] := h
    cases ts with
    | nil => exact ⟨⟨0, []⟩, rfl, nofun⟩
    | cons t ts => exact ⟨⟨t.offset, []⟩, rfl, fun t' ht => by cases ht; rfl⟩
  | factor run term =>
    obtain rfl : run.terms.reverse ++ [term.part] = ps := h
    have hclose := (term.close_yields limit).ok_of_le (hps _ (by simp))
    refine ⟨run.push term.part, by simp [Run.push], fun t _ => ?_⟩
    simp only [Focus.slot, hclose]
    rfl
  | marker run term side => exact h.elim

/-! ## Phrases -/

/-- a word fills a slot: behind it the level goes on with the part in the slot that the first token was given -/
def FillsSlot (limit : Nat) (w : List TokenKind) (p : Part) : Prop :=
  ∀ (s : State) (slot : Slot) (ts : List Token), ts.map Token.kind = w → NestedWithin limit s.frames.length w →
    (∀ t ∈ ts.head?, s.focus.slot limit t.offset = .ok slot) → Reads limit s ts { s with focus := slot.fill p }

/-- a word fills an empty level: behind it the level stands for the part -/
def FillsLevel (limit : Nat) (w : List TokenKind) (p : Part) : Prop :=
  ∀ (frames : List Frame) (ts : List Token), ts.map Token.kind = w → NestedWithin limit frames.length w →
    ∃ division run term, Reads limit ⟨frames, none, .opening⟩ ts ⟨frames, division, .factor run term⟩ ∧
      levelPart division run term = p

/-- a group fills a slot if its inside fills a level -/
theorem group_fills {limit : Nat} {d : Delimiter} {w : List TokenKind} {p q : Part} (h : FillsLevel limit w p)
    (hp : p.levels ≤ limit) (hq : q.levels ≤ limit) (hd : ∀ frame : Frame, frame.delimiter = d → frame.part p = q) :
    FillsSlot limit (.opener d :: (w ++ [.closer d])) q := by
  intro s slot ts hts hn hslot
  obtain ⟨⟨_, offset⟩, rest, rfl, rfl, hrest⟩ := List.map_eq_cons_iff.1 hts
  obtain ⟨us, vs, rfl, hus, hvs⟩ := List.map_eq_append_iff.1 hrest
  obtain ⟨⟨_, last⟩, rfl, rfl⟩ := List.map_eq_singleton_iff.1 hvs
  obtain ⟨hroom, hinside⟩ := hn.inside
  have hopen := (Moves.opener (d := d) (hslot _ rfl) hroom).step_eq
  set frame : Frame := ⟨d, offset, s.division, slot⟩
  obtain ⟨division, run, term, hread, rfl⟩ := h (frame :: s.frames) us hus hinside
  have hclose := (closeLevel_yields limit division run term).ok_of_le hp
  have hgroup : frame.wrap limit (levelPart division run term) = .ok q := by
    have hwrap := Frame.wrap_yields limit frame (levelPart division run term)
    rw [hd frame rfl] at hwrap
    exact hwrap.ok_of_le hq
  have hend : step limit ⟨frame :: s.frames, division, .factor run term⟩ ⟨.closer d, last⟩ =
      .ok ⟨s.frames, s.division, slot.fill q⟩ := (Moves.closer hclose hgroup).step_eq
  exact Reads.append (.one hopen) (hread.append (.one hend))

/-- a marker and a factor behind a term that is free on the side give it a script -/
theorem script_reads {limit : Nat} {s : State} {run : Run} {term : Term} {side : Side} {q : Part} {v : List TokenKind}
    {us vs : List Token} (hread : Reads limit s us { s with focus := .factor run term })
    (hside : term.script? side = none) (hq : FillsSlot limit v q) (hts : vs.map Token.kind = .marker side :: v)
    (hn : NestedWithin limit s.frames.length (.marker side :: v)) :
    ∃ offset, Reads limit s (us ++ vs)
      { s with focus := .factor run ({ term with marker := offset }.attach q side) } := by
  obtain ⟨⟨_, offset⟩, vs, rfl, rfl, hvs⟩ := List.map_eq_cons_iff.1 hts
  have hmark : step limit { s with focus := .factor run term } ⟨.marker side, offset⟩ =
      .ok { s with focus := .marker run { term with marker := offset } side } := (Moves.marker hside).step_eq
  have hscript := hq ⟨s.frames, s.division, .marker run { term with marker := offset } side⟩ _ vs hvs (hn.tail rfl)
    fun t _ => rfl
  exact ⟨offset, hread.append (Reads.append (.one hmark) hscript)⟩

namespace Grammar

variable {limit : Nat}

mutual

/-- a factor fills a slot -/
theorem Factor.fills {w : List TokenKind} {p : Part} (h : Factor w p) (hp : p.levels ≤ limit) :
    FillsSlot limit w p := by
  match h with
  | .char c =>
    intro s slot ts hts hn hslot
    obtain ⟨⟨_, offset⟩, rfl, rfl⟩ := List.map_eq_singleton_iff.1 hts
    exact .one (Moves.char (hslot _ rfl)).step_eq
  | .paren (p := inside) h =>
    have hle : inside.levels ≤ limit := by simp only [Part.inParens] at hp; omega
    exact group_fills (h.fills hle) hle hp fun frame hd => by simp [Frame.part, hd]
  | .brace h => exact group_fills (h.fills hp) hp hp fun frame hd => by simp [Frame.part, hd]

/-- a term becomes the current term of its run -/
theorem Term.reads {w : List TokenKind} {base : Part} {sup sub : Option Part} (h : Term w base sup sub)
    (hbase : base.levels ≤ limit) (hsup : ∀ q ∈ sup, q.levels ≤ limit) (hsub : ∀ q ∈ sub, q.levels ≤ limit)
    {s : State} {run : Notation.Run} {ts : List Token} (hts : ts.map Token.kind = w)
    (hn : NestedWithin limit s.frames.length w)
    (hslot : ∀ t ∈ ts.head?, s.focus.slot limit t.offset = .ok (.base run)) :
    ∃ marker, Reads limit s ts { s with focus := .factor run ⟨base, sup, sub, marker⟩ } := by
  match h with
  | .base h => exact ⟨0, h.fills hbase s _ ts hts hn hslot⟩
  | .superscript (q := q) h hq =>
    obtain ⟨us, vs, rfl, hus, hvs⟩ := List.map_eq_append_iff.1 hts
    obtain ⟨marker, hread⟩ := h.reads hbase nofun hsub hus hn.left
      fun t ht => hslot t (List.mem_head?_append_of_mem_head? ht)
    exact script_reads hread rfl (hq.fills (hsup q rfl)) hvs (hn.right h.balance_eq)
  | .subscript (q := q) h hq =>
    obtain ⟨us, vs, rfl, hus, hvs⟩ := List.map_eq_append_iff.1 hts
    obtain ⟨marker, hread⟩ := h.reads hbase hsup nofun hus hn.left
      fun t ht => hslot t (List.mem_head?_append_of_mem_head? ht)
    exact script_reads hread rfl (hq.fills (hsub q rfl)) hvs (hn.right h.balance_eq)

/-- terms become the terms of the current run -/
theorem Terms.reads {w : List TokenKind} {ps : List Part} (h : Terms w ps) (hps : ∀ p ∈ ps, p.levels ≤ limit)
    {frames : List Frame} {division : Option Division} {ts : List Token} (hts : ts.map Token.kind = w)
    (hn : NestedWithin limit frames.length w) :
    ∃ focus, Reads limit ⟨frames, division, .opening⟩ ts ⟨frames, division, focus⟩ ∧ FocusTerms focus ps := by
  match h with
  | .nil =>
    obtain rfl := List.map_eq_nil_iff.1 hts
    exact ⟨.opening, .nil, rfl⟩
  | @Terms.snoc _ _ ps p sup sub h ht =>
    obtain ⟨us, vs, rfl, hus, hvs⟩ := List.map_eq_append_iff.1 hts
    have hfirst : ∀ q ∈ ps, q.levels ≤ limit := fun q hq => hps q (by simp [hq])
    obtain ⟨focus, hread, hfocus⟩ := h.reads hfirst hus hn.left
    obtain ⟨hp, hsup, hsub⟩ := Part.bounds_of_scripted (hps (p.scripted sup sub) (by simp))
    obtain ⟨run, rfl, hslot⟩ := hfocus.slot hfirst vs
    obtain ⟨marker, hterm⟩ := ht.reads hp hsup hsub (s := ⟨frames, division, focus⟩) hvs (hn.right h.balance_eq) hslot
    exact ⟨_, hread.append hterm, rfl⟩

/-- a run fills the rest of a level -/
theorem Run.reads {w : List TokenKind} {p : Part} (h : Run w p) (hp : p.levels ≤ limit)
    {frames : List Frame} {division : Option Division} {ts : List Token} (hts : ts.map Token.kind = w)
    (hn : NestedWithin limit frames.length w) :
    ∃ run term, Reads limit ⟨frames, division, .opening⟩ ts ⟨frames, division, .factor run term⟩ ∧
      run.part term.part = p := by
  match h with
  | @Grammar.Run.join _ ps _ h he =>
    have hps : ∀ q ∈ ps, q.levels ≤ limit := fun q hq => by have := Part.le_maxLevels hq; simp only at hp; omega
    obtain ⟨focus, hread, hfocus⟩ : ∃ focus,
        Reads limit ⟨frames, division, .opening⟩ ts ⟨frames, division, focus⟩ ∧ FocusTerms focus ps :=
      h.reads hps hts hn
    cases focus with
    | opening => obtain rfl : ps = [] := hfocus; exact absurd he nofun
    | marker run term side => exact hfocus.elim
    | factor run term =>
      obtain rfl : run.terms.reverse ++ [term.part] = ps := hfocus
      refine ⟨run, term, hread, ?_⟩
      simp only [Notation.Run.part, List.reverse_cons, he, Option.getD_some]

/-- an expression fills a level -/
theorem Expression.fills {w : List TokenKind} {p : Part} (h : Expression w p) (hp : p.levels ≤ limit) :
    FillsLevel limit w p := by
  intro frames ts hts hn
  match h with
  | .run h =>
    obtain ⟨run, term, hread, hpart⟩ := h.reads hp hts hn
    exact ⟨none, run, term, hread, hpart⟩
  | .division h hq =>
    obtain ⟨us, vs, rfl, hus, hvs⟩ := List.map_eq_append_iff.1 hts
    obtain ⟨⟨_, slash⟩, vs, rfl, rfl, hden⟩ := List.map_eq_cons_iff.1 hvs
    obtain ⟨hnum, hle⟩ := Part.bounds_of_dividedBy hp
    obtain ⟨division, run, term, hread, rfl⟩ := h.fills hnum frames us hus hn.left
    have hclose := (closeLevel_yields limit division run term).ok_of_le hnum
    have hslash : step limit ⟨frames, division, .factor run term⟩ ⟨.slash, slash⟩ =
        .ok ⟨frames, some ⟨levelPart division run term, slash⟩, .opening⟩ := (Moves.slash hclose).step_eq
    obtain ⟨run', term', hread', rfl⟩ := hq.reads hle hden ((hn.right h.balance_eq).tail rfl)
    exact ⟨_, run', term', hread.append (Reads.append (.one hslash) hread'), rfl⟩

end

end Grammar

/-- **Every expression within the limit is accepted**, wherever its tokens stand in the text. -/
theorem parseTokens_complete {limit ending bound : Nat} {w : List TokenKind} {e : Expr} {ts : List Token}
    (h : Derives w e bound) (hb : bound ≤ limit) (hn : NestedWithin limit 0 w) (hts : ts.map Token.kind = w) :
    parseTokens limit ending ts = .ok e := by
  obtain ⟨division, run, term, hread, hpart⟩ := h.fills hb [] ts hts hn
  have hclose := (closeLevel_yields limit division run term).ok_of_le (hpart ▸ hb)
  rw [hpart] at hclose
  cases ts with
  | nil => exact absurd hread nofun
  | cons t ts =>
    refine bind_eq_ok.2 ⟨_, hread, ?_⟩
    simp only [State.finish, hclose]
    rfl

end FormulaLayout.Notation
