/-
Points, sizes, rectangles and plane transforms, with `y` growing downwards.

Lengths are in scale units: a glyph laid out at scale one is one unit tall. Equality of two values is equality of their
numbers, so a point with a coordinate that is not a number differs from itself.

A transform has the six entries of `matrix(a, b, c, d, e, f)`. `Transform.andThen` composes in reading order: applying
`t.andThen u` to a point is applying `t` and then `u`.
-/
import FormulaLayout.Scalar

namespace FormulaLayout

/-- a point of the plane -/
structure Point (α : Type) where
  x : α
  y : α
  deriving BEq

/-- the extent of a box -/
structure Size (α : Type) where
  width : α
  height : α
  deriving BEq

/-- a box given by its top-left corner and its extent -/
structure Rect (α : Type) where
  x : α
  y : α
  width : α
  height : α
  deriving BEq

/-- an affine map of the plane -/
structure Transform (α : Type) where
  a : α
  b : α
  c : α
  d : α
  e : α
  f : α
  deriving BEq

variable {α : Type} [Scalar α]

namespace Point

/-- the origin -/
def zero : Point α := ⟨0.0, 0.0⟩

/-- both coordinates are finite -/
def isFinite (p : Point α) : Bool :=
  Scalar.isFinite p.x && Scalar.isFinite p.y

end Point

namespace Rect

/-- the box of the given extent anchored at a corner -/
def ofOriginSize (origin : Point α) (size : Size α) : Rect α :=
  ⟨origin.x, origin.y, size.width, size.height⟩

/-- the right edge -/
def right (r : Rect α) : α := r.x + r.width

/-- the lower edge -/
def bottom (r : Rect α) : α := r.y + r.height

/-- the middle of the box -/
def center (r : Rect α) : Point α :=
  ⟨r.x + r.width / 2.0, r.y + r.height / 2.0⟩

/-- the boxes share an inner point; touching edges do not count -/
def intersects (r s : Rect α) : Bool :=
  r.x < s.right && r.right > s.x && r.y < s.bottom && r.bottom > s.y

end Rect

namespace Transform

/-- the map that moves nothing -/
def identity : Transform α := ⟨1.0, 0.0, 0.0, 1.0, 0.0, 0.0⟩

/-- the map that adds to both coordinates -/
def translation (x y : α) : Transform α :=
  { identity with e := x, f := y }

/-- the map that multiplies both coordinates -/
def scaling (sx sy : α) : Transform α :=
  { identity with a := sx, d := sy }

/-- the map that applies `t` first and `u` to its result -/
def andThen (t u : Transform α) : Transform α where
  a := t.a * u.a + t.b * u.c
  b := t.a * u.b + t.b * u.d
  c := t.c * u.a + t.d * u.c
  d := t.c * u.b + t.d * u.d
  e := t.e * u.a + t.f * u.c + u.e
  f := t.e * u.b + t.f * u.d + u.f

/-- the image of a point -/
def apply (t : Transform α) (p : Point α) : Point α :=
  ⟨t.a * p.x + t.c * p.y + t.e, t.b * p.x + t.d * p.y + t.f⟩

end Transform

end FormulaLayout
