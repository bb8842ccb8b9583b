/-
Reading single-precision values from decimal text.

A number is an optional sign, then a name of a value that is not finite in any letter case, or digits with at most one
point and at least one digit, with an optional exponent. Nothing else may stand before or behind. The result is the
nearest single-precision value; numbers beyond the range become infinite and numbers below it zero.
-/
import FormulaLayout.Decimal.Numeral

namespace FormulaLayout.Decimal

/-- the nearest value to `± digits · 10 ^ exponent`; exponents far outside the range are decided by the digit count -/
def nearest (negative : Bool) (digits : Nat) (exponent : Int) : Float32 :=
  let size := exponent + (Nat.toDigits 10 digits).length
  let magnitude : Float32 :=
    if digits = 0 || size < -60 then 0.0
    else if 60 < size then 1.0 / 0.0
    else Float32.ofScientific digits (exponent < 0) exponent.natAbs
  if negative then -magnitude else magnitude

/-- the value of a list of digits; none for any other character -/
def digitsValue? (digits : List Char) : Option Nat :=
  digits.foldl
    (fun value c => value.bind fun n => if c.isDigit then some (10 * n + (c.toNat - '0'.toNat)) else none) (some 0)

/-- an optional sign and the rest; true for a minus -/
def takeSign : List Char → Bool × List Char
  | '-' :: rest => (true, rest)
  | '+' :: rest => (false, rest)
  | rest => (false, rest)

/-- the exponent behind its mark: an optional sign and at least one digit -/
def exponentValue? (text : List Char) : Option Int :=
  match takeSign text with
  | (_, []) => none
  | (negative, digits) => (digitsValue? digits).map fun n => if negative then -(n : Int) else n

/-- an unsigned number: digits around at most one point, then an optional exponent -/
def unsigned? (negative : Bool) (text : List Char) : Option Float32 :=
  let isMark (c : Char) : Bool := c == 'e' || c == 'E'
  let mantissa := text.takeWhile (!isMark ·)
  let whole := mantissa.takeWhile (· != '.')
  let fraction := (mantissa.drop whole.length).drop 1
  let exponent? := match text.drop mantissa.length with
    | [] => some 0
    | _ :: rest => exponentValue? rest
  if whole.isEmpty && fraction.isEmpty then none
  else
    match digitsValue? (whole ++ fraction), exponent? with
    | some digits, some exponent => some (nearest negative digits (exponent - fraction.length))
    | _, _ => none

/-- the value a text stands for -/
def parse? (text : String) : Option Float32 :=
  let (negative, rest) := takeSign text.toList
  let name := String.ofList (rest.map Char.toLower)
  if name = "inf" || name = "infinity" then
    some (if negative then -1.0 / 0.0 else 1.0 / 0.0)
  else if name = "nan" then
    some (0.0 / 0.0)
  else
    unsigned? negative rest

example : (parse? "1.5e1").map Float32.toBits = some (15.0 : Float32).toBits ∧ (parse? ".5").isSome ∧ parse? "." = none
    ∧ parse? "1_0" = none ∧ parse? " 1" = none := by
  decide +kernel

end FormulaLayout.Decimal
