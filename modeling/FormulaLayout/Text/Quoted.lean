/-
Quoted text for messages and outlines.

A character or a string is set between quotes. The quote itself, the backslash and the four named controls are written
with a backslash; characters without a glyph of their own become `\u` and their hexadecimal number in braces; all others
stand for themselves. So quoted text has no line break and no blank but the ordinary one.
-/
import FormulaLayout.Text.Unprintable

namespace FormulaLayout.Text

/-- the code point in lower-case hexadecimal, behind a backslash and in braces -/
def numberEscape (c : Char) : List Char :=
  ['\\', 'u', '\x7b'] ++ Nat.toDigits 16 c.toNat ++ ['\x7d']

/-- one character inside quotes of the given kind -/
def escapeWithin (quote c : Char) : List Char :=
  if c = '\x00' then ['\\', '0']
  else if c = '\t' then ['\\', 't']
  else if c = '\n' then ['\\', 'n']
  else if c = '\r' then ['\\', 'r']
  else if c = '\\' || c = quote then ['\\', c]
  else if isUnprintable c then numberEscape c
  else [c]

/-- a character in single quotes -/
def quoteChar (c : Char) : String :=
  String.ofList ('\x27' :: escapeWithin '\x27' c ++ ['\x27'])

/-- a list of characters in double quotes -/
def quoteChars (cs : List Char) : String :=
  String.ofList ('\x22' :: cs.flatMap (escapeWithin '\x22') ++ ['\x22'])

/-- a string in double quotes -/
def quote (s : String) : String :=
  quoteChars s.toList

example : quoteChar '\x27' = "'\\''" ∧ quote "a'\n" = "\"a'\\n\"" ∧ quote "\x7f" = "\"\\u\x7b7f\x7d\"" := by
  decide +kernel

end FormulaLayout.Text
