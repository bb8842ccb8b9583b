/-
What an SVG document is told besides its drawing.

The document scales layout units to user units and then shifts by an offset in layout units. A grid, if there is one,
has the two axes and lines at every unit out to its extent.
-/
import FormulaLayout.Geometry

namespace FormulaLayout.Svg

/-- the settings of a document -/
structure Options where
  fontFamily : String
  scale : Float32
  offset : Point Float32
  /-- how far the grid extends, if there is one -/
  grid : Option Nat

/-- Courier, forty user units to one, shifted by ten, without a grid -/
def Options.standard : Options where
  fontFamily := "Courier"
  scale := 40.0
  offset := ⟨10.0, 10.0⟩
  grid := none

end FormulaLayout.Svg
