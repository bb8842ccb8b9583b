/-
The settings of a run: the scale and the place of the formula, the document around it, and the output format.
-/
import FormulaLayout.Layout.Engine
import FormulaLayout.Svg.Options

namespace FormulaLayout

/-- the kind of document that is written -/
inductive OutputFormat where
  | svg
  | json
  deriving DecidableEq, Repr

/-- the settings of a run -/
structure Config where
  scale : Float32
  origin : Point Float32
  documentScale : Float32
  documentOffset : Point Float32
  fontFamily : String
  showGrid : Bool
  gridExtent : Nat
  format : OutputFormat

namespace Config

/-- a formula of scale one at the origin, in an SVG document without a grid -/
def standard : Config where
  scale := 1.0
  origin := .zero
  documentScale := 40.0
  documentOffset := ⟨10.0, 10.0⟩
  fontFamily := "Courier"
  showGrid := false
  gridExtent := 100
  format := .svg

/-- the same with the grid shown, to inspect a layout -/
def inspection : Config :=
  { standard with showGrid := true }

/-- the settings of the SVG document -/
def svgOptions (c : Config) : Svg.Options where
  fontFamily := c.fontFamily
  scale := c.documentScale
  offset := c.documentOffset
  grid := if c.showGrid then some c.gridExtent else none

/-- the engine that lays the formula out -/
def engine (c : Config) : Engine Float32 :=
  ⟨c.scale, c.origin⟩

end Config

end FormulaLayout
