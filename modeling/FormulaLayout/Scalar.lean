/-
The numbers a layout is computed in.

Every pass is written once over `Scalar`: the four operations, decimal literals, a decidable order and a test for
values that left the representable range. The program runs over `Float32`, where each step rounds to nearest; the same
text read over the rationals gives the geometry without rounding.

`larger` is the maximum of two numbers as the passes use it: an operand that is not a number gives way to the other.
-/
namespace FormulaLayout

/-- numbers a layout can be computed in -/
class Scalar (α : Type) extends Add α, Sub α, Mul α, Div α, Neg α, LE α, LT α, BEq α, OfScientific α, NatCast α where
  decLe : DecidableLE α
  decLt : DecidableLT α
  isFinite : α → Bool

namespace Scalar

variable {α : Type} [Scalar α]

instance instDecidableLE : DecidableLE α := decLe

instance instDecidableLT : DecidableLT α := decLt

/-- the maximum; an operand that differs from itself gives way, and of two equal ones the second is taken -/
def larger (a b : α) : α :=
  if a ≤ b || a != a then b else a

/-- the gap between one and the next single-precision number above it -/
def epsilon : α := 1.1920928955078125e-7

/-- a distance below `epsilon` in either direction -/
def isNegligible (d : α) : Bool :=
  d < epsilon && -epsilon < d

end Scalar

/-- single precision: each operation rounds to nearest, a natural number becomes the nearest value -/
instance : Scalar Float32 where
  natCast := Float32.ofNat
  decLe := inferInstance
  decLt := inferInstance
  isFinite := Float32.isFinite

end FormulaLayout
