/-
The fewest decimal digits that read back as a given binary number.

A number of a binary format stands for all reals that round to it: the interval that reaches half way to its two
neighbours, ends included exactly when its mantissa is even (`Binary.interval`). On the grid of decimals with `n` digits
only the two neighbours of the number itself can lie nearest to it, so `Interval.onGrid` looks at those two, and
`shortest` takes the first grid that has a hit. All comparisons are between natural numbers.

Two hits can be equally near; `TieRule` says which is taken.
-/
namespace FormulaLayout.Decimal

/-- a positive number `mantissa · 2 ^ exponent`; `narrowBelow` marks a lower neighbour at half the usual distance -/
structure Binary where
  mantissa : Nat
  exponent : Int
  narrowBelow : Bool
  deriving DecidableEq, Repr

/-- a positive number `digits · 10 ^ exponent` -/
structure Digits where
  digits : Nat
  exponent : Int
  deriving DecidableEq, Repr

/-- which of two equally near decimals is taken -/
inductive TieRule where
  | up
  | toEven
  deriving DecidableEq, Repr

/-- the reals that round to one number, as three numerators over one denominator; `closed` if the ends belong to it -/
structure Interval where
  low : Nat
  value : Nat
  high : Nat
  denominator : Nat
  closed : Bool

/-- all reals nearest to the number, in quarters of its last binary place -/
def Binary.interval (b : Binary) : Interval :=
  let quarter := Nat.pow 2 (b.exponent - 2).toNat
  { low := (4 * b.mantissa - if b.narrowBelow then 1 else 2) * quarter
    value := 4 * b.mantissa * quarter
    high := (4 * b.mantissa + 2) * quarter
    denominator := Nat.pow 2 (2 - b.exponent).toNat
    closed := b.mantissa % 2 == 0 }

namespace Interval

/-- the power of ten at the leading digit of the value -/
def leadingPower (i : Interval) : Int :=
  if i.denominator ≤ i.value then
    (Nat.toDigits 10 (i.value / i.denominator)).length - 1
  else
    -(Nat.toDigits 10 ((i.denominator - 1) / i.value)).length

/-- the nearer of the value's two neighbours on the grid of multiples of `10 ^ exponent` that lies in the interval -/
def onGrid (i : Interval) (tie : TieRule) (exponent : Int) : Option Digits :=
  let step := Nat.pow 10 exponent.toNat * i.denominator
  let unit := Nat.pow 10 (-exponent).toNat
  let holds (d : Nat) : Bool :=
    if i.closed then i.low * unit ≤ d * step && d * step ≤ i.high * unit
    else i.low * unit < d * step && d * step < i.high * unit
  let below := i.value * unit / step
  let above := below + 1
  match holds below, holds above with
  | false, false => none
  | true, false => some ⟨below, exponent⟩
  | false, true => some ⟨above, exponent⟩
  | true, true =>
    let short := i.value * unit - below * step
    let long := above * step - i.value * unit
    let takeAbove := long < short || (long == short && (tie == .up || above % 2 == 0))
    some ⟨if takeAbove then above else below, exponent⟩

end Interval

/-- the same number without a last digit zero -/
def Digits.dropZero (d : Digits) : Digits :=
  if d.digits % 10 = 0 then ⟨d.digits / 10, d.exponent + 1⟩ else d

/-- the power of ten at the leading digit -/
def Digits.leadingPower (d : Digits) : Int :=
  d.exponent + (Nat.toDigits 10 d.digits).length - 1

/-- the fewest digits, at most seventeen, that read back as the number -/
def shortest (tie : TieRule) (b : Binary) : Digits :=
  let i := b.interval
  let k := i.leadingPower
  let found := (List.range 17).findSome? fun (n : Nat) => i.onGrid tie (k - n)
  (found.getD ⟨i.value, 0⟩).dropZero

end FormulaLayout.Decimal
