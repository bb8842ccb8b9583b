/-
Decimal text of single-precision values.

Digits come from `Decimal.shortest`; a `Style` holds what a format decides beyond them: which leading powers are written
out in full, whether a whole number keeps one decimal, the sign of a positive exponent, and the texts of the values that
are not finite. `Style.plain` is the format of messages, outlines and vector output: always written out, no decimal on
whole numbers.
-/
import FormulaLayout.Decimal.Numeral

namespace FormulaLayout.Decimal

/-- the decisions of a number format -/
structure Style where
  tie : TieRule
  /-- the least leading power of ten that is written out; none if all are -/
  lowest : Option Int
  /-- the greatest leading power of ten that is written out; none if all are -/
  highest : Option Int
  /-- a whole number is followed by `.0` -/
  keepsDecimal : Bool
  /-- a positive exponent has a sign -/
  signsExponent : Bool
  notANumber : String
  infinity : String
  negativeInfinity : String

/-- every value in full, whole numbers bare -/
def Style.plain : Style where
  tie := .up
  lowest := none
  highest := none
  keepsDecimal := false
  signsExponent := false
  notANumber := "NaN"
  infinity := "inf"
  negativeInfinity := "-inf"

namespace Style

variable (style : Style)

/-- whether a number with this leading power is written out in full -/
def isPositional (leading : Int) : Bool :=
  style.lowest.all (· ≤ leading) && style.highest.all (leading ≤ ·)

/-- a number without its sign, written out in full -/
def positional (d : Digits) : List Char :=
  let digits := Nat.toDigits 10 d.digits
  let leading := d.leadingPower
  if 0 ≤ d.exponent then
    digits ++ List.replicate d.exponent.toNat '0' ++ (if style.keepsDecimal then ['.', '0'] else [])
  else if 0 ≤ leading then
    digits.take (leading.toNat + 1) ++ '.' :: digits.drop (leading.toNat + 1)
  else
    '0' :: '.' :: List.replicate (-leading - 1).toNat '0' ++ digits

/-- a number without its sign: its digits, a point behind the first, and the leading power -/
def scientific (d : Digits) : List Char :=
  let leading := d.leadingPower
  let point := match Nat.toDigits 10 d.digits with
    | first :: second :: rest => first :: '.' :: second :: rest
    | digits => digits
  let sign := if leading < 0 then ['-'] else if style.signsExponent then ['+'] else []
  point ++ 'e' :: sign ++ Nat.toDigits 10 leading.natAbs

/-- a magnitude; none is zero -/
def magnitude : Option Binary → List Char
  | none => style.positional ⟨0, 0⟩
  | some b =>
    let d := shortest style.tie b
    if style.isPositional d.leadingPower then style.positional d else style.scientific d

/-- the text of a value; only a finite value shows the sign of zero -/
def write (n : Numeral) : String :=
  match n with
  | .notANumber => style.notANumber
  | .infinite negative => if negative then style.negativeInfinity else style.infinity
  | .finite negative m => String.ofList ((if negative then ['-'] else []) ++ style.magnitude m)

/-- the text of a single-precision value -/
def text (x : Float32) : String :=
  style.write (.ofFloat32 x)

end Style

/-- the plain text of a value -/
def text (x : Float32) : String :=
  Style.plain.text x

example : text 0.6 = "0.6" ∧ text 1.0 = "1" ∧ text (-0.0) = "-0" ∧ text 2097152.25 = "2097152.3" := by
  decide +kernel

example : text 1e20 = "100000000000000000000" ∧ text 1e-6 = "0.000001" ∧ text (1.0 / 0.0) = "inf" := by
  decide +kernel

end FormulaLayout.Decimal
