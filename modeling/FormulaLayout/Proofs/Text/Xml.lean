/-
Well-formed XML 1.0.

A document has an optional declaration of its version and one root element. An element is an empty tag, or a start tag,
its content, and an end tag of the same name; content mixes characters, references and elements. Attribute names do not
repeat within a tag, their values are in quotes and without `<`, and an ampersand begins a reference. On top of this
grammar, all characters of a document have to be such that XML allows them. Comments, processing instructions, CDATA
sections, document types, hexadecimal references, and all of the declaration but the version are left out.

A piece of a markup document follows the grammar whatever its values and its content are, if its names are plain and its
keys differ (`content_lines`, `element_enclosed`). Escaping replaces five characters, so whether all characters of a
piece are allowed depends on its texts alone (`isText_line`).
-/
import FormulaLayout.Proofs.Text.Reader
import FormulaLayout.Text.Unprintable

namespace FormulaLayout.Text

namespace Xml

/-! ## Characters and names -/

/-- the characters that a document may have -/
def isChar (c : Char) : Bool :=
  inRanges c.toNat [(0x9, 0xa), (0xd, 0xd), (0x20, 0xd7ff), (0xe000, 0xfffd), (0x10000, 0x10ffff)]

def isBlank (c : Char) : Bool :=
  c == ' ' || c == '\t' || c == '\n' || c == '\r'

/-- the characters that a name may begin with -/
def isNameStart (c : Char) : Bool :=
  inRanges c.toNat [(0x3a, 0x3a), (0x41, 0x5a), (0x5f, 0x5f), (0x61, 0x7a), (0xc0, 0xd6), (0xd8, 0xf6), (0xf8, 0x2ff),
    (0x370, 0x37d), (0x37f, 0x1fff), (0x200c, 0x200d), (0x2070, 0x218f), (0x2c00, 0x2fef), (0x3001, 0xd7ff),
    (0xf900, 0xfdcf), (0xfdf0, 0xfffd), (0x10000, 0xeffff)]

/-- the characters that a name may go on with -/
def isNamePart (c : Char) : Bool :=
  isNameStart c || inRanges c.toNat [(0x2d, 0x2e), (0x30, 0x39), (0xb7, 0xb7), (0x300, 0x36f), (0x203f, 0x2040)]

def isName : List Char → Bool
  | [] => false
  | c :: rest => isNameStart c && rest.all isNamePart

/-! ## The grammar -/

/-- a reference to one of the five entities that need no declaration, or to an allowed character by its number -/
inductive Reference : List Char → Prop
  | entity {name : String} : name ∈ ["amp", "lt", "gt", "quot", "apos"] → Reference ('&' :: name.toList ++ [';'])
  | character {digits : List Char} {c : Char} : digits ≠ [] → digits.all Char.isDigit →
      Nat.ofDigitChars 10 digits 0 = c.toNat → isChar c → Reference ('&' :: '#' :: digits ++ [';'])

/-- what may stand between two quotes of a kind -/
inductive Value (quote : Char) : List Char → Prop
  | nil : Value quote []
  | char {c : Char} {rest : List Char} : c ≠ '<' → c ≠ '&' → c ≠ quote → Value quote rest → Value quote (c :: rest)
  | reference {r rest : List Char} : Reference r → Value quote rest → Value quote (r ++ rest)

/-- attributes in order, each behind blanks, with their names -/
inductive Attributes : List (List Char) → List Char → Prop
  | nil : Attributes [] []
  | cons {names : List (List Char)} {blank name before after value rest : List Char} {quote : Char} :
      blank ≠ [] → blank.all isBlank → isName name → name ∉ names → before.all isBlank → after.all isBlank →
      quote = '\x22' ∨ quote = '\x27' → Value quote value → Attributes names rest →
      Attributes (name :: names) (blank ++ name ++ before ++ '=' :: after ++ quote :: value ++ quote :: rest)

mutual

/-- an element with everything in it -/
inductive Element : List Char → Prop
  | empty {names : List (List Char)} {name attributes blank : List Char} :
      isName name → Attributes names attributes → blank.all isBlank →
      Element ('<' :: name ++ attributes ++ blank ++ ['/', '>'])
  | enclosed {names : List (List Char)} {name attributes blank content blank' : List Char} :
      isName name → Attributes names attributes → blank.all isBlank → Content content → blank'.all isBlank →
      Element ('<' :: name ++ attributes ++ blank ++ '>' :: content ++ '<' :: '/' :: name ++ blank' ++ ['>'])

/-- what may stand between a start tag and its end tag -/
inductive Content : List Char → Prop
  | nil : Content []
  | char {c : Char} {rest : List Char} : c ≠ '<' → c ≠ '&' → ¬ [']', ']', '>'] <+: c :: rest → Content rest →
      Content (c :: rest)
  | reference {r rest : List Char} : Reference r → Content rest → Content (r ++ rest)
  | element {e rest : List Char} : Element e → Content rest → Content (e ++ rest)

end

/-- the declaration of a version -/
inductive Declaration : List Char → Prop
  | version {blank before after minor blank' : List Char} {quote : Char} :
      blank ≠ [] → blank.all isBlank → before.all isBlank → after.all isBlank → quote = '\x22' ∨ quote = '\x27' →
      minor ≠ [] → minor.all Char.isDigit → blank'.all isBlank →
      Declaration ("<?xml".toList ++ blank ++ "version".toList ++ before ++ '=' :: after ++ quote :: '1' :: '.' :: minor
        ++ quote :: blank' ++ "?>".toList)

/-- one root element, behind a declaration if there is one -/
def IsDocument (text : List Char) : Prop :=
  ∃ declaration before root after, text = declaration ++ before ++ root ++ after ∧
    (declaration = [] ∨ Declaration declaration) ∧ before.all isBlank ∧ Element root ∧ after.all isBlank

/-- a document of allowed characters -/
structure WellFormed (text : List Char) : Prop where
  document : IsDocument text
  chars : ∀ c ∈ text, isChar c

/-! ## Escaped texts -/

theorem reference_of_entityName {name : String} (h : name ∈ entityNames) : Reference ('&' :: name.toList ++ [';']) := by
  simp only [entityNames, List.mem_cons, List.not_mem_nil, or_false] at h
  rcases h with rfl | rfl | rfl | rfl | rfl
  · exact .entity (by decide)
  · exact .entity (by decide)
  · exact .entity (by decide)
  · exact .entity (by decide)
  · exact @Reference.character ['3', '9'] '\x27' (by decide) (by decide) (by decide) (by decide)

/-- an escaped value may stand in double quotes -/
theorem value_escape (s : String) : Value '\x22' (escapeAttribute s).toList := by
  rw [toList_escapeAttribute]
  induction s.toList with
  | nil => exact .nil
  | cons c cs ih =>
    rw [List.flatMap_cons]
    rcases attributeEntity_cases c with ⟨hself, hamp, hlt, -, hquote, -⟩ | ⟨name, hname, hentity⟩
    · rw [hself]
      exact .char hlt hamp hquote ih
    · rw [hentity]
      exact .reference (reference_of_entityName hname) ih

/-- escaped content may stand between tags; it has no `]]>`, since it has no `>` -/
theorem content_escape (s : String) : Content (escapeContent s).toList := by
  have hraw : ∀ d ∈ (escapeContent s).toList, d ≠ '>' := by
    intro d hd
    exact (ne_of_mem_content hd).2
  rw [toList_escapeContent] at hraw ⊢
  revert hraw
  induction s.toList with
  | nil => exact fun _ => .nil
  | cons c cs ih =>
    intro hraw
    rw [List.flatMap_cons] at hraw ⊢
    have ih := ih fun d hd => hraw d (List.mem_append_right _ hd)
    rcases contentEntity_cases c with ⟨hself, hamp, hlt, -⟩ | ⟨name, hname, hentity⟩
    · rw [hself] at hraw ⊢
      refine .char hlt hamp ?_ ih
      intro hend
      exact hraw '>' (hend.subset (by decide)) rfl
    · rw [hentity]
      exact .reference (reference_of_entityName hname) ih

theorem Content.newline {rest : List Char} (h : Content rest) : Content ('\n' :: rest) := by
  refine .char (by decide) (by decide) ?_ h
  intro hend
  exact absurd (List.cons_prefix_cons.1 hend).1 (by decide)

/-! ## Tags -/

theorem toNat_of_isUpper {c : Char} (h : c.isUpper) : 0x41 ≤ c.toNat ∧ c.toNat ≤ 0x5a := by
  obtain ⟨hlow, hhigh⟩ := of_decide_eq_true h
  exact ⟨UInt32.le_iff_toNat_le.1 hlow, UInt32.le_iff_toNat_le.1 hhigh⟩

theorem toNat_of_isLower {c : Char} (h : c.isLower) : 0x61 ≤ c.toNat ∧ c.toNat ≤ 0x7a := by
  obtain ⟨hlow, hhigh⟩ := Bool.and_eq_true_iff.1 h
  exact ⟨UInt32.le_iff_toNat_le.1 (of_decide_eq_true hlow), UInt32.le_iff_toNat_le.1 (of_decide_eq_true hhigh)⟩

theorem toNat_of_isDigit {c : Char} (h : c.isDigit) : 0x30 ≤ c.toNat ∧ c.toNat ≤ 0x39 := by
  obtain ⟨hlow, hhigh⟩ := Bool.and_eq_true_iff.1 h
  exact ⟨UInt32.le_iff_toNat_le.1 (of_decide_eq_true hlow), UInt32.le_iff_toNat_le.1 (of_decide_eq_true hhigh)⟩

theorem isNameStart_of_isAlpha {c : Char} (h : c.isAlpha) : isNameStart c := by
  rw [isNameStart, @inRanges_iff _ 0 _ (by decide)]
  rcases Bool.or_eq_true_iff.1 h with h | h
  · exact ⟨(0x41, 0x5a), by decide, toNat_of_isUpper h⟩
  · exact ⟨(0x61, 0x7a), by decide, toNat_of_isLower h⟩

theorem isNamePart_of_isDigit {c : Char} (h : c.isDigit) : isNamePart c := by
  rw [isNamePart, Bool.or_eq_true, @inRanges_iff _ 0 _ (by decide)]
  exact Or.inr ⟨(0x30, 0x39), by decide, toNat_of_isDigit h⟩

/-- a plain name is a name -/
theorem isName_of_isPlainName {name : String} (h : isPlainName name) : isName name.toList := by
  rw [isPlainName, Bool.and_eq_true] at h
  have hpart : ∀ c : Char, (c.isAlphanum || c == '-') = true → isNamePart c = true := by
    intro c hc
    rw [Bool.or_eq_true, Char.isAlphanum, Bool.or_eq_true, beq_iff_eq] at hc
    rcases hc with (hc | hc) | rfl
    · rw [isNamePart, isNameStart_of_isAlpha hc, Bool.true_or]
    · exact isNamePart_of_isDigit hc
    · decide
  cases hname : name.toList with
  | nil => simp [hname] at h
  | cons c rest =>
    rw [hname, List.all_cons, Bool.and_eq_true, List.all_eq_true] at h
    rw [isName, Bool.and_eq_true, List.all_eq_true]
    exact ⟨isNameStart_of_isAlpha h.1, fun d hd => hpart d (h.2.2 d hd)⟩

/-- plain names that differ make attributes, whatever the values are -/
theorem attributes_rendered {as : Text.Attributes} (h : as.all (isPlainName ·.1)) (hkeys : (as.map Prod.fst).Nodup) :
    Attributes (as.map (·.1.toList)) as.render.toList := by
  induction as with
  | nil => exact .nil
  | cons a as ih =>
    obtain ⟨name, value⟩ := a
    rw [List.all_cons, Bool.and_eq_true] at h
    rw [List.map_cons, List.nodup_cons] at hkeys
    have hnew : name.toList ∉ as.map (·.1.toList) := by
      intro hmem
      obtain ⟨b, hb, heq⟩ := List.mem_map.1 hmem
      exact hkeys.1 (List.mem_map.2 ⟨b, hb, String.toList_inj.1 heq⟩)
    have hcons : Attributes (name.toList :: as.map (·.1.toList)) ([' '] ++ name.toList ++ [] ++ '=' :: [] ++
        '\x22' :: (escapeAttribute value).toList ++ '\x22' :: (Text.Attributes.render as).toList) :=
      .cons (by decide) (by decide) (isName_of_isPlainName h.1) hnew rfl rfl (.inl rfl) (value_escape value)
        (ih h.2 hkeys.2)
    rw [toList_render_cons]
    simpa using hcons

end Xml

/-! ## Pieces -/

/-- the attributes of a piece -/
def Piece.attributes : Piece → Attributes
  | declaration | finish _ => []
  | start _ as | empty _ as | element _ as _ => as

/-- names are plain, and no attribute is given twice -/
structure Piece.IsSound (p : Piece) : Prop where
  plain : p.isPlain
  keys : (p.attributes.map Prod.fst).Nodup

/-- the piece is an element -/
def Piece.isWhole : Piece → Bool
  | empty _ _ | element _ _ _ => true
  | declaration | start _ _ | finish _ => false

namespace Xml

/-- start tag, content and end tag of one name make an element -/
theorem element_enclosed {name : String} {as : Text.Attributes} (h : (Piece.start name as).IsSound)
    {content : List Char} (hcontent : Content content) :
    Element ((Piece.start name as).render.toList ++ content ++ (Piece.finish name).render.toList) := by
  obtain ⟨hplain, hkeys⟩ := h
  rw [Piece.isPlain, Bool.and_eq_true] at hplain
  have helement : Element ('<' :: name.toList ++ as.render.toList ++ [] ++ '>' :: content ++ '<' :: '/' :: name.toList
      ++ [] ++ ['>']) :=
    .enclosed (isName_of_isPlainName hplain.1) (attributes_rendered hplain.2 hkeys) rfl hcontent rfl
  simpa [Piece.render] using helement

/-- a piece that is an element is one in the grammar -/
theorem element_whole {p : Piece} (h : p.IsSound) (hwhole : p.isWhole) : Element p.render.toList := by
  cases p with
  | empty name as =>
    obtain ⟨hplain, hkeys⟩ := h
    rw [Piece.isPlain, Bool.and_eq_true] at hplain
    have helement : Element ('<' :: name.toList ++ as.render.toList ++ [] ++ ['/', '>']) :=
      .empty (isName_of_isPlainName hplain.1) (attributes_rendered hplain.2 hkeys) rfl
    simpa [Piece.render] using helement
  | element name as content =>
    have helement := element_enclosed ⟨h.plain, h.keys⟩ (content_escape content)
    simpa [Piece.render] using helement
  | declaration | start _ _ | finish _ => exact absurd hwhole Bool.false_ne_true

/-- elements on lines of their own may stand in front of any content -/
theorem content_lines {ps : List Piece} (h : ∀ p ∈ ps, p.IsSound ∧ p.isWhole) {rest : List Char}
    (hrest : Content rest) : Content (ps.flatMap (·.line.toList) ++ rest) := by
  induction ps with
  | nil => exact hrest
  | cons p ps ih =>
    rw [List.forall_mem_cons] at h
    have helement := element_whole h.1.1 h.1.2
    have hcontent := Content.element helement (ih h.2).newline
    simpa [Piece.line] using hcontent

end Xml

/-! ## Characters of pieces -/

/-- all characters of the text are allowed in a document -/
def isText (s : String) : Bool :=
  s.toList.all Xml.isChar

/-- the texts that are escaped in a piece -/
def Piece.texts : Piece → List String
  | declaration | finish _ => []
  | start _ as | empty _ as => as.map Prod.snd
  | element _ as content => as.map Prod.snd ++ [content]

theorem isText_append (s t : String) : isText (s ++ t) = (isText s && isText t) := by
  simp [isText]

/-- the printable characters of ASCII are allowed -/
theorem isChar_of_le {c : Char} (hlow : 0x20 ≤ c.toNat) (hhigh : c.toNat ≤ 0x7e) : Xml.isChar c := by
  rw [Xml.isChar, @inRanges_iff _ 0 _ (by decide)]
  exact ⟨(0x20, 0xd7ff), by decide, hlow, hhigh.trans (by decide)⟩

theorem isChar_of_isAlphanum {c : Char} (h : c.isAlphanum) : Xml.isChar c := by
  have hbounds : 0x30 ≤ c.toNat ∧ c.toNat ≤ 0x7a := by
    rcases Bool.or_eq_true_iff.1 h with h | h
    · rcases Bool.or_eq_true_iff.1 h with h | h
      · exact (Xml.toNat_of_isUpper h).imp (by omega) (by omega)
      · exact (Xml.toNat_of_isLower h).imp (by omega) (by omega)
    · exact (Xml.toNat_of_isDigit h).imp (by omega) (by omega)
  exact isChar_of_le (by omega) (by omega)

theorem isText_plainName {name : String} (h : isPlainName name) : isText name := by
  rw [isText, List.all_eq_true]
  intro c hc
  have hpart := List.all_eq_true.1 (Bool.and_eq_true_iff.1 h).2 c hc
  rw [Bool.or_eq_true, beq_iff_eq] at hpart
  rcases hpart with hpart | rfl
  · exact isChar_of_isAlphanum hpart
  · decide

/-- escaping brings no character in that is not allowed, and takes none away -/
theorem all_contentEntity (c : Char) : (contentEntity c).all Xml.isChar = Xml.isChar c := by
  unfold contentEntity
  split_ifs with hamp hlt hgt
  · subst hamp; decide
  · subst hlt; decide
  · subst hgt; decide
  · simp

theorem all_attributeEntity (c : Char) : (attributeEntity c).all Xml.isChar = Xml.isChar c := by
  unfold attributeEntity
  split_ifs with hdouble hsingle
  · subst hdouble; decide
  · subst hsingle; decide
  · exact all_contentEntity c

theorem isText_escapeContent (s : String) : isText (escapeContent s) = isText s := by
  simp only [isText, toList_escapeContent, List.all_flatMap, all_contentEntity]

theorem isText_escapeAttribute (s : String) : isText (escapeAttribute s) = isText s := by
  simp only [isText, toList_escapeAttribute, List.all_flatMap, all_attributeEntity]

theorem isText_render {as : Attributes} (h : as.all (isPlainName ·.1)) :
    isText as.render = (as.map Prod.snd).all isText := by
  induction as with
  | nil => rfl
  | cons a as ih =>
    obtain ⟨name, value⟩ := a
    rw [List.all_cons, Bool.and_eq_true] at h
    have hname := isText_plainName h.1
    have hvalue := isText_escapeAttribute value
    have hmarks : Xml.isChar ' ' ∧ Xml.isChar '=' ∧ Xml.isChar '\x22' := by decide
    rw [List.map_cons, List.all_cons, ← ih h.2, ← hvalue]
    simp only [isText] at hname ⊢
    simp [toList_render_cons, hname, hmarks]

/-- **Whether a piece has only allowed characters depends on its texts.** -/
theorem Piece.isText_line {p : Piece} (h : p.isPlain) : isText p.line = p.texts.all isText := by
  have hnewline : isText "\n" = true := by decide
  have hopen : isText "<" = true := by decide
  have hclose : isText ">" = true := by decide
  have hfinish : isText "</" = true := by decide
  have hempty : isText "/>" = true := by decide
  cases p with
  | declaration => decide
  | finish name => simp [line, render, texts, isText_append, isText_plainName h, *]
  | start name as | empty name as | element name as content =>
    rw [isPlain, Bool.and_eq_true] at h
    simp [line, render, texts, isText_append, isText_plainName h.1, isText_render h.2, isText_escapeContent, *]

theorem all_lines {ps : List Piece} (h : ∀ p ∈ ps, p.isPlain) :
    (ps.flatMap (·.line.toList)).all Xml.isChar = ps.all (·.texts.all isText) := by
  induction ps with
  | nil => rfl
  | cons p ps ih =>
    rw [List.forall_mem_cons] at h
    rw [List.flatMap_cons, List.all_append, List.all_cons, ih h.2, ← Piece.isText_line h.1, isText]

end FormulaLayout.Text
