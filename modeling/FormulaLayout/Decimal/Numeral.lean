/-
What a single-precision value is: not a number, an infinity, a signed zero or a signed binary number.

The 32 bits are a sign, eight exponent bits and 23 fraction bits. An exponent field of all ones holds the infinities
and the values that are no number; a field of zero holds zero and the numbers below the normal range.
-/
import FormulaLayout.Decimal.Shortest

namespace FormulaLayout.Decimal

/-- a single-precision value taken apart; a finite value without magnitude is zero -/
inductive Numeral where
  | notANumber
  | infinite (negative : Bool)
  | finite (negative : Bool) (magnitude : Option Binary)
  deriving DecidableEq, Repr

/-- the value that a pattern of 32 bits stands for -/
def Numeral.ofBits (bits : Nat) : Numeral :=
  let negative := bits / 0x80000000 % 2 == 1
  let field := bits / 0x800000 % 0x100
  let fraction := bits % 0x800000
  if field = 255 then
    if fraction = 0 then .infinite negative else .notANumber
  else if field = 0 then
    .finite negative (if fraction = 0 then none else some ⟨fraction, -149, false⟩)
  else
    .finite negative (some ⟨fraction + 0x800000, (field : Int) - 150, fraction = 0 && 1 < field⟩)

/-- a single-precision value, taken apart -/
def Numeral.ofFloat32 (x : Float32) : Numeral :=
  .ofBits x.toBits.toNat

end FormulaLayout.Decimal
