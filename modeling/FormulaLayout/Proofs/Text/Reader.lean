/-
Reading a markup document back.

A reader sees only the characters of a document. Every raw `<` begins markup (`segments`): behind it stand the name of
a tag, its attributes with quoted values (`attributes`), a `>` that is not in quotes, and then content up to the next
`<`. So the reader finds the elements of a name and what they contain (`contents`) and the attributes of the first of
them (`attribute?`).

What is written as pieces is read as those pieces. Escaped text has none of the characters that would end it, so if the
names are plain, every `<` of a document is one that a piece has put there (`segments_lines`, `count_lines`), and the
reader of a tag stops where the tag ends (`attributes_render`, `behindTag_render`).
-/
import FormulaLayout.Proofs.Text.Entities

namespace FormulaLayout.Text

/-! ## Tags -/

/-- what stands behind each raw `<` of a document, up to the next one -/
def segments (document : List Char) : List (List Char) :=
  (document.splitOn '<').tail

/-- the name of the tag that a segment begins with; a tag that ends an element has none -/
def tagName (segment : List Char) : List Char :=
  segment.takeWhile fun c => !(c.isWhitespace || c == '/' || c == '>')

/-- the attributes from behind the name of a tag, each with its raw value, up to the end of the tag -/
def attributes (cs : List Char) : List (List Char × List Char) :=
  match _h : (cs.dropWhile Char.isWhitespace).dropWhile (fun c => c != '=' && c != '>') with
  | '=' :: quote :: rest =>
    ((cs.dropWhile Char.isWhitespace).takeWhile (fun c => c != '=' && c != '>'), rest.takeWhile (· != quote)) ::
      attributes (rest.dropWhile (· != quote)).tail
  | _ => []
termination_by cs.length
decreasing_by
  have hshort := ((List.dropWhile_suffix _).trans (List.dropWhile_suffix _) :
    (cs.dropWhile Char.isWhitespace).dropWhile (fun c => c != '=' && c != '>') <:+ cs).length_le
  have hrest := (List.dropWhile_suffix (· != quote) : rest.dropWhile (· != quote) <:+ rest).length_le
  rw [_h] at hshort
  simp only [List.length_cons, List.length_tail] at hshort ⊢
  omega

/-- what follows a tag; `quote?` is the quote that is open -/
def behindTag (quote? : Option Char) : List Char → List Char
  | [] => []
  | c :: rest =>
    match quote? with
    | some quote => behindTag (if c = quote then none else some quote) rest
    | none =>
      if c = '>' then rest else behindTag (if c = '\x22' ∨ c = '\x27' then some c else none) rest

/-- the raw contents of the elements of a name: what stands between each start tag and the next `<` -/
def contents (name : String) (document : List Char) : List (List Char) :=
  ((segments document).filter (tagName · = name.toList)).map (behindTag none)

/-- the raw value of an attribute of the first element of a name -/
def attribute? (name key : String) (document : List Char) : Option (List Char) :=
  ((segments document).find? (tagName · = name.toList)).bind fun segment =>
    (attributes (segment.drop (tagName segment).length)).lookup key.toList

/-! ## Pieces -/

/-- a name of letters, digits and hyphens that begins with a letter -/
def isPlainName (name : String) : Bool :=
  (name.toList.head?.any Char.isAlpha) && name.toList.all fun c => c.isAlphanum || c == '-'

/-- all names in the piece are plain -/
def Piece.isPlain : Piece → Bool
  | declaration => true
  | finish name => isPlainName name
  | start name attributes | empty name attributes | element name attributes _ =>
    isPlainName name && attributes.all (isPlainName ·.1)

theorem ne_of_mem_plainName {name : String} (h : isPlainName name) {c : Char} (hc : c ∈ name.toList) :
    c ∉ ['<', '>', '/', '=', '\x22', '\x27', '&'] ∧ c.isWhitespace = false := by
  have hc := List.all_eq_true.1 (Bool.and_eq_true_iff.1 h).2 c hc
  rw [Bool.or_eq_true, beq_iff_eq] at hc
  rcases hc with hc | rfl
  · constructor
    · intro hmem
      simp only [List.mem_cons, List.not_mem_nil, or_false] at hmem
      rcases hmem with rfl | rfl | rfl | rfl | rfl | rfl | rfl <;> exact absurd hc (by decide)
    · by_contra hblank
      rw [Bool.not_eq_false, Char.isWhitespace] at hblank
      simp only [Bool.or_eq_true, decide_eq_true_eq] at hblank
      rcases hblank with ((rfl | rfl) | rfl) | rfl <;> exact absurd hc (by decide)
  · decide

@[simp]
theorem toList_render_nil : (Attributes.render []).toList = [] := rfl

/-- the first attribute in front of the others -/
theorem toList_render_cons (name value : String) (as : Attributes) :
    (Attributes.render ((name, value) :: as)).toList =
      ' ' :: name.toList ++ '=' :: '\x22' :: (escapeAttribute value).toList ++ '\x22' :: as.render.toList := by
  simp [Attributes.render]

/-- the segments that a piece is read as -/
def Piece.segments : Piece → List (List Char)
  | declaration => ["?xml version=\"1.0\"?>\n".toList]
  | start name as => [name.toList ++ as.render.toList ++ ">\n".toList]
  | finish name => ['/' :: name.toList ++ ">\n".toList]
  | empty name as => [name.toList ++ as.render.toList ++ "/>\n".toList]
  | element name as content =>
    [name.toList ++ as.render.toList ++ '>' :: (escapeContent content).toList, '/' :: name.toList ++ ">\n".toList]

theorem Piece.toList_line (p : Piece) : p.line.toList = p.segments.flatMap ('<' :: ·) := by
  cases p <;> simp [line, render, segments]

theorem ne_of_mem_render {as : Attributes} (h : as.all (isPlainName ·.1)) {c : Char} (hc : c ∈ as.render.toList) :
    c ≠ '<' ∧ c ≠ '>' := by
  induction as with
  | nil => exact absurd hc List.not_mem_nil
  | cons a as ih =>
    obtain ⟨name, value⟩ := a
    rw [List.all_cons, Bool.and_eq_true] at h
    simp only [toList_render_cons, List.cons_append, List.mem_cons, List.mem_append] at hc
    rcases hc with rfl | (hc | rfl | rfl | hc) | rfl | hc
    · decide
    · have hplain := (ne_of_mem_plainName h.1 hc).1
      simp only [List.mem_cons, not_or] at hplain
      exact ⟨hplain.1, hplain.2.1⟩
    · decide
    · decide
    · exact ⟨(ne_of_mem_attribute hc).1, (ne_of_mem_attribute hc).2.1⟩
    · decide
    · exact ih h.2 hc

/-- a plain piece has no `<` but those in front of its segments -/
theorem Piece.lt_notMem_segments {p : Piece} (h : p.isPlain) : ∀ s ∈ p.segments, '<' ∉ s := by
  have hname : ∀ {name : String}, isPlainName name → '<' ∉ name.toList := fun h hc =>
    (ne_of_mem_plainName h hc).1 (by decide)
  have hrender : ∀ {as : Attributes}, as.all (isPlainName ·.1) → '<' ∉ as.render.toList := fun h hc =>
    (ne_of_mem_render h hc).1 rfl
  have hcontent : ∀ s : String, '<' ∉ (escapeContent s).toList := fun s hc => (ne_of_mem_content hc).1 rfl
  cases p with
  | declaration => decide
  | finish name => simp [segments, hname h]
  | start name as | empty name as | element name as content =>
    obtain ⟨hn, ha⟩ := Bool.and_eq_true_iff.1 h
    simp [segments, hname hn, hrender ha, hcontent]

/-- a document is split where its segments begin -/
theorem segments_flatMap {ts : List (List Char)} (h : ∀ t ∈ ts, '<' ∉ t) : segments (ts.flatMap ('<' :: ·)) = ts := by
  have hsplit : ∀ ts : List (List Char), (∀ t ∈ ts, '<' ∉ t) → ∀ t, '<' ∉ t →
      (t ++ ts.flatMap ('<' :: ·)).splitOn '<' = t :: ts := by
    intro ts
    induction ts with
    | nil =>
      intro _ t ht
      have hone : ∀ u ∈ [t], '<' ∉ u := by simpa using ht
      rw [List.flatMap_nil, List.append_nil]
      simpa using List.splitOn_intercalate '<' hone (by simp)
    | cons u ts ih =>
      intro hts t ht
      rw [List.forall_mem_cons] at hts
      have hbefore : ∀ c ∈ t, (c == '<') = false := fun c hc => beq_false_of_ne fun hlt => ht (hlt ▸ hc)
      rw [List.flatMap_cons, List.cons_append, List.splitOn_eq_splitOnP,
        List.splitOnP_append_cons_of_forall_mem hbefore '<' rfl, ← List.splitOn_eq_splitOnP, ih hts.2 u hts.1]
  rw [segments, ← List.nil_append (ts.flatMap _), hsplit ts h [] (by simp), List.tail_cons]

/-- a document of plain pieces is read as their segments -/
theorem segments_lines {ps : List Piece} (h : ∀ p ∈ ps, p.isPlain) :
    segments (ps.flatMap (·.line.toList)) = ps.flatMap Piece.segments := by
  have hlines : ps.flatMap (·.line.toList) = (ps.flatMap Piece.segments).flatMap ('<' :: ·) := by
    rw [List.flatMap_assoc]
    exact List.flatMap_congr fun p _ => p.toList_line
  rw [hlines, segments_flatMap]
  intro t ht
  obtain ⟨p, hp, ht⟩ := List.mem_flatMap.1 ht
  exact Piece.lt_notMem_segments (h p hp) t ht

/-- a document of plain pieces has one `<` for each segment -/
theorem count_lines {ps : List Piece} (h : ∀ p ∈ ps, p.isPlain) :
    (ps.flatMap (·.line.toList)).count '<' = (ps.map (·.segments.length)).sum := by
  rw [List.count_flatMap]
  congr 1
  apply List.map_congr_left
  intro p hp
  have hnone : ∀ t ∈ p.segments, (List.count '<' ∘ ('<' :: ·)) t = 1 := by
    intro t ht
    simpa using List.count_eq_zero.2 (Piece.lt_notMem_segments (h p hp) t ht)
  rw [Function.comp_apply, p.toList_line, List.count_flatMap, List.map_congr_left hnone]
  simp

/-! ## Reading a tag -/

theorem tagName_append {name : String} (h : isPlainName name) {c : Char}
    (hc : c.isWhitespace = true ∨ c = '/' ∨ c = '>') (rest : List Char) :
    tagName (name.toList ++ c :: rest) = name.toList := by
  have hname : ∀ d ∈ name.toList, (!(d.isWhitespace || d == '/' || d == '>')) = true := by
    intro d hd
    obtain ⟨hplain, hblank⟩ := ne_of_mem_plainName h hd
    simp only [List.mem_cons, not_or] at hplain
    simp [hblank, hplain]
  rw [tagName, List.takeWhile_append_of_pos hname, List.takeWhile_cons_of_neg, List.append_nil]
  rcases hc with hc | rfl | rfl <;> simp [*]

/-- outside quotes, characters that neither end the tag nor open a quote are passed over -/
theorem behindTag_none_append {cs : List Char} (h : ∀ c ∈ cs, c ≠ '>' ∧ c ≠ '\x22' ∧ c ≠ '\x27') (rest : List Char) :
    behindTag none (cs ++ rest) = behindTag none rest := by
  induction cs with
  | nil => rfl
  | cons c cs ih =>
    rw [List.forall_mem_cons] at h
    simp [behindTag, h.1, ih h.2]

/-- inside quotes, all characters up to the quote are passed over -/
theorem behindTag_some_append {quote : Char} {cs : List Char} (h : quote ∉ cs) (rest : List Char) :
    behindTag (some quote) (cs ++ quote :: rest) = behindTag none rest := by
  induction cs with
  | nil => simp [behindTag]
  | cons c cs ih =>
    rw [List.mem_cons, not_or] at h
    simp [behindTag, Ne.symm h.1, ih h.2]

/-- the reader of a tag stops where its attributes end -/
theorem behindTag_render {as : Attributes} (h : as.all (isPlainName ·.1)) (rest : List Char) :
    behindTag none ((Attributes.render as).toList ++ '>' :: rest) = rest := by
  induction as with
  | nil => simp [behindTag]
  | cons a as ih =>
    obtain ⟨name, value⟩ := a
    rw [List.all_cons, Bool.and_eq_true] at h
    have hname : ∀ c ∈ ' ' :: name.toList ++ ['='], c ≠ '>' ∧ c ≠ '\x22' ∧ c ≠ '\x27' := by
      intro c hc
      simp only [List.cons_append, List.mem_cons, List.mem_append, List.not_mem_nil, or_false] at hc
      rcases hc with rfl | hc | rfl
      · decide
      · have hplain := (ne_of_mem_plainName h.1 hc).1
        simp only [List.mem_cons, not_or] at hplain
        tauto
      · decide
    have hvalue : '\x22' ∉ (escapeAttribute value).toList := fun hc => (ne_of_mem_attribute hc).2.2.1 rfl
    calc behindTag none ((Attributes.render ((name, value) :: as)).toList ++ '>' :: rest)
        = behindTag none ((' ' :: name.toList ++ ['=']) ++ '\x22' ::
            ((escapeAttribute value).toList ++ '\x22' :: ((Attributes.render as).toList ++ '>' :: rest))) := by
          simp [toList_render_cons]
      _ = behindTag none ((Attributes.render as).toList ++ '>' :: rest) := by
          rw [behindTag_none_append hname, behindTag]
          simpa using behindTag_some_append hvalue _
      _ = rest := ih h.2

/-- an attribute is read up to the quote that closes its value -/
theorem attributes_cons {name value : List Char}
    (hname : ∀ c ∈ name, c ≠ '=' ∧ c ≠ '>' ∧ c.isWhitespace = false) (hvalue : '\x22' ∉ value) (rest : List Char) :
    attributes (' ' :: name ++ '=' :: '\x22' :: value ++ '\x22' :: rest) = (name, value) :: attributes rest := by
  have hblank : (' ' :: name ++ '=' :: '\x22' :: value ++ '\x22' :: rest).dropWhile Char.isWhitespace =
      name ++ '=' :: '\x22' :: (value ++ '\x22' :: rest) := by
    cases name with
    | nil => simp [List.dropWhile, Char.isWhitespace]
    | cons c name => simp [List.dropWhile, hname c, show ' '.isWhitespace = true from rfl]
  have hstop : ∀ c ∈ name, (c != '=' && c != '>') = true := fun c hc => by simp [hname c hc]
  have hvalueEnd : ((' ' :: name ++ '=' :: '\x22' :: value ++ '\x22' :: rest).dropWhile Char.isWhitespace).dropWhile
      (fun c => c != '=' && c != '>') = '=' :: '\x22' :: (value ++ '\x22' :: rest) := by
    rw [hblank, List.dropWhile_append_of_pos hstop, List.dropWhile_cons_of_neg (by simp)]
  have hquote : ∀ c ∈ value, (c != '\x22') = true := fun c hc => bne_iff_ne.2 fun h => hvalue (h ▸ hc)
  rw [attributes]
  split
  · rename_i quote rest' h
    rw [hvalueEnd] at h
    obtain ⟨rfl, rfl⟩ : '\x22' = quote ∧ value ++ '\x22' :: rest = rest' := by
      simpa only [List.cons.injEq, true_and] using h
    rw [hblank, List.takeWhile_append_of_pos hstop, List.takeWhile_append_of_pos hquote,
      List.dropWhile_append_of_pos hquote]
    simp
  · rename_i h
    exact absurd hvalueEnd (h _ _)

/-- behind the last attribute stands the end of the tag -/
theorem attributes_end {close : List Char} (h : close = ['>'] ∨ close = ['/', '>']) (rest : List Char) :
    attributes (close ++ rest) = [] := by
  rcases h with rfl | rfl <;> simp [attributes]

/-- the attributes of a tag are read in order, each with its escaped value -/
theorem attributes_render {as : Attributes} (h : as.all (isPlainName ·.1)) {rest : List Char}
    (hend : attributes rest = []) :
    attributes ((Attributes.render as).toList ++ rest) =
      as.map fun (name, value) => (name.toList, (escapeAttribute value).toList) := by
  induction as with
  | nil => exact hend
  | cons a as ih =>
    obtain ⟨name, value⟩ := a
    rw [List.all_cons, Bool.and_eq_true] at h
    have hname : ∀ c ∈ name.toList, c ≠ '=' ∧ c ≠ '>' ∧ c.isWhitespace = false := by
      intro c hc
      obtain ⟨hplain, hblank⟩ := ne_of_mem_plainName h.1 hc
      simp only [List.mem_cons, not_or] at hplain
      tauto
    have hvalue : '\x22' ∉ (escapeAttribute value).toList := fun hc => (ne_of_mem_attribute hc).2.2.1 rfl
    rw [List.map_cons, ← ih h.2, ← attributes_cons hname hvalue, toList_render_cons, List.append_assoc]
    rfl

/-! ## Reading a piece -/

/-- the name of the element that a piece begins -/
def Piece.opens? : Piece → Option String
  | start name _ | empty name _ | element name _ _ => some name
  | declaration | finish _ => none

theorem tagName_render {name : String} (h : isPlainName name) (as : Attributes) {c : Char} (hc : c = '/' ∨ c = '>')
    (rest : List Char) : tagName (name.toList ++ as.render.toList ++ c :: rest) = name.toList := by
  cases as with
  | nil =>
    rw [toList_render_nil, List.append_nil]
    exact tagName_append h (Or.inr hc) rest
  | cons a as =>
    rw [toList_render_cons, List.append_assoc]
    exact tagName_append h (Or.inl rfl) _

/-- the tag that ends an element begins none -/
theorem tagName_slash_ne {name : String} (h : isPlainName name) (rest : List Char) :
    tagName ('/' :: rest) ≠ name.toList := by
  intro hrest
  have hhead := (Bool.and_eq_true_iff.1 h).1
  rw [← hrest] at hhead
  exact absurd hhead (by simp [tagName])

/-- none of the segments of a piece begins an element that the piece does not begin -/
theorem Piece.tagName_ne {p : Piece} (h : p.isPlain) {name : String} (hname : isPlainName name)
    (hp : p.opens? ≠ some name) : ∀ s ∈ p.segments, tagName s ≠ name.toList := by
  have hother : ∀ {n : String}, isPlainName n → n ≠ name → ∀ (as : Attributes) {c : Char}, c = '/' ∨ c = '>' →
      ∀ rest, tagName (n.toList ++ as.render.toList ++ c :: rest) ≠ name.toList := by
    intro n hn hne as c hc rest hrest
    rw [tagName_render hn as hc rest] at hrest
    exact hne (String.toList_inj.1 hrest)
  cases p with
  | declaration =>
    intro s hs hrest
    rw [List.mem_singleton.1 hs] at hrest
    have hhead := (Bool.and_eq_true_iff.1 hname).1
    rw [← hrest] at hhead
    exact absurd hhead (by decide)
  | finish n => simpa [segments] using tagName_slash_ne hname _
  | start n as =>
    simpa [segments] using hother (Bool.and_eq_true_iff.1 h).1 (by simpa [opens?] using hp) as (Or.inr rfl) ['\n']
  | empty n as =>
    simpa [segments] using hother (Bool.and_eq_true_iff.1 h).1 (by simpa [opens?] using hp) as (Or.inl rfl) ['>', '\n']
  | element n as content =>
    have hn := hother (Bool.and_eq_true_iff.1 h).1 (by simpa [opens?] using hp) as (Or.inr rfl)
      (escapeContent content).toList
    simp only [segments, List.forall_mem_cons, List.not_mem_nil, false_implies, implies_true, and_true]
    exact ⟨hn, tagName_slash_ne hname _⟩

/-- outside quotes, a plain name is passed over -/
theorem behindTag_name {name : String} (h : isPlainName name) (rest : List Char) :
    behindTag none (name.toList ++ rest) = behindTag none rest := by
  apply behindTag_none_append
  intro c hc
  have hplain := (ne_of_mem_plainName h hc).1
  simp only [List.mem_cons, not_or] at hplain
  tauto

/-- an element is read as its escaped content -/
theorem contents_element {name : String} {as : Attributes} (hname : isPlainName name)
    (has : as.all (isPlainName ·.1)) (content : String) :
    ((Piece.element name as content).segments.filter (tagName · = name.toList)).map (behindTag none) =
      [(escapeContent content).toList] := by
  have hbegin := tagName_render hname as (Or.inr rfl) (escapeContent content).toList
  have hend := tagName_slash_ne hname (name.toList ++ ">\n".toList)
  rw [Piece.segments, List.filter_cons_of_pos (by simpa using hbegin), List.filter_cons_of_neg (by simpa using hend),
    List.filter_nil, List.map_singleton, List.append_assoc, behindTag_name hname, behindTag_render has]

/-- the contents of a document are those of its pieces -/
theorem contents_lines {ps : List Piece} (h : ∀ p ∈ ps, p.isPlain) (name : String) :
    contents name (ps.flatMap (·.line.toList)) =
      ps.flatMap fun p => (p.segments.filter (tagName · = name.toList)).map (behindTag none) := by
  rw [contents, segments_lines h, List.filter_flatMap, List.map_flatMap]

/-- the attributes of a start tag are read from behind its name -/
theorem attributes_start {name : String} {as : Attributes} (hname : isPlainName name) (has : as.all (isPlainName ·.1))
    {s : List Char} (hs : s ∈ (Piece.start name as).segments) :
    tagName s = name.toList ∧ attributes (s.drop (tagName s).length) =
      as.map fun (name, value) => (name.toList, (escapeAttribute value).toList) := by
  rw [Piece.segments, List.mem_singleton] at hs
  have htag : tagName s = name.toList := hs ▸ tagName_render hname as (Or.inr rfl) ['\n']
  refine ⟨htag, ?_⟩
  rw [htag, hs, List.append_assoc, List.drop_left]
  exact attributes_render has (attributes_end (.inl rfl) ['\n'])

end FormulaLayout.Text
