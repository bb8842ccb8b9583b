import FormulaLayout.Geometry
import FormulaLayout.Decimal.Style
import FormulaLayout.Decimal.Reader
import FormulaLayout.Text.Quoted
import FormulaLayout.Text.Markup
import FormulaLayout.Formula.Measures
import FormulaLayout.Formula.Source
import FormulaLayout.Formula.Join
import FormulaLayout.Formula.Outline
import FormulaLayout.Notation.Cursor
import FormulaLayout.Notation.Parser
import FormulaLayout.Notation.Descent
import FormulaLayout.Layout.Engine
import FormulaLayout.Layout.Listing
import FormulaLayout.Device
import FormulaLayout.Drawing.Painter
import FormulaLayout.Drawing.Describe
import FormulaLayout.Drawing.Json
import FormulaLayout.Pipeline
import FormulaLayout.Main
import FormulaLayout.Proofs.Notation.Acceptance
import FormulaLayout.Proofs.Drawing.Collision
import FormulaLayout.Proofs.Drawing.Look
import FormulaLayout.Proofs.Drawing.Alignment
import FormulaLayout.Proofs.Drawing.Recording
import FormulaLayout.Proofs.Drawing.Similarity
import FormulaLayout.Proofs.Drawing.Spacing
import FormulaLayout.Proofs.Drawing.Span
import FormulaLayout.Proofs.Drawing.Ink
import FormulaLayout.Proofs.Notation.Conservation
import FormulaLayout.Proofs.Pipeline.Depiction
import FormulaLayout.Proofs.Device.Lines
import FormulaLayout.Proofs.Svg.Document
import FormulaLayout.Proofs.Pipeline.Runs
import FormulaLayout.Proofs.Formula.Levels
import FormulaLayout.Proofs.Formula.Run
import FormulaLayout.Proofs.Formula.Walks
import FormulaLayout.Proofs.Formula.Paths
import FormulaLayout.Proofs.Formula.Shape
import FormulaLayout.Proofs.Notation.Image
import FormulaLayout.Proofs.Notation.ScriptOrder
import FormulaLayout.Proofs.Notation.RoundTrip
import FormulaLayout.Proofs.Notation.Offsets
import FormulaLayout.Proofs.Notation.Estimate
import FormulaLayout.Proofs.Pipeline.Faults
import FormulaLayout.Proofs.Pipeline.SameFormula
import FormulaLayout.Proofs.Pipeline.DepthLimits
import FormulaLayout.Proofs.Drawing.Interruption
import FormulaLayout.Proofs.Svg.Streaming
import FormulaLayout.Proofs.Svg.Sessions
import FormulaLayout.Proofs.Svg.Recovery
import FormulaLayout.Proofs.Svg.WellFormed
import FormulaLayout.Proofs.Pipeline.Readable
import FormulaLayout.Proofs.Single.Rounding
import FormulaLayout.Proofs.Single.Unpacked
import FormulaLayout.Proofs.Single.Packed
import FormulaLayout.Proofs.Single.Order
import FormulaLayout.Proofs.Single.Amount
import FormulaLayout.Proofs.Single.Within
import FormulaLayout.Proofs.Layout.Passes
import FormulaLayout.Proofs.Layout.Arrangement
import FormulaLayout.Proofs.Layout.Overflow
import FormulaLayout.Proofs.Svg.Glyphs
import FormulaLayout.Proofs.Svg.Numbers
import FormulaLayout.Proofs.Pipeline.Coordinates
import FormulaLayout.Proofs.Notation.Lookahead
import FormulaLayout.Proofs.Notation.Recursion
import FormulaLayout.Proofs.Notation.Descent
import FormulaLayout.Proofs.Decimal.Characters
import FormulaLayout.Proofs.Formula.Branching
import FormulaLayout.Proofs.Text.Lines
import FormulaLayout.Proofs.Layout.Listing
import FormulaLayout.Proofs.Device.Buffers
import FormulaLayout.Proofs.CommandLine.Shell
import FormulaLayout.Proofs.Svg.Attributes
