import PenPlotter.Document.Session
import PenPlotter.Main
import PenPlotter.Proofs.Document.Freshness
import PenPlotter.Proofs.Estimate.Agreement
import PenPlotter.Proofs.Reflection.Toolpath
import PenPlotter.Proofs.Toolpath.Blocks
import PenPlotter.Proofs.Document.Cursor
import PenPlotter.Proofs.Document.Loading
import PenPlotter.Proofs.Toolpath.Colors
import PenPlotter.Proofs.Binary64.Values
import PenPlotter.Proofs.Binary64.Nonnegative
import PenPlotter.Proofs.Estimate.Seconds
import PenPlotter.Proofs.Estimate.Totals
import PenPlotter.Proofs.Toolpath.Memo
import PenPlotter.Proofs.Toolpath.Phases
import PenPlotter.Proofs.Document.Resume
import PenPlotter.Proofs.Binary64.Bounds
import PenPlotter.Proofs.Motion.ArcRange
import PenPlotter.Proofs.Toolpath.Overflow
import PenPlotter.Proofs.Toolpath.Finiteness
import PenPlotter.Proofs.Reflection.ToolChange
import PenPlotter.Proofs.Toolpath.Hiding
import PenPlotter.Proofs.Document.Lines
import PenPlotter.Proofs.Binary64.Approximation
import PenPlotter.Proofs.Estimate.Accuracy
import PenPlotter.Proofs.Estimate.CruiseBound
import PenPlotter.Proofs.Estimate.Reflected
import PenPlotter.Proofs.Reflection.Involution
import PenPlotter.Proofs.Text.Rendering
import PenPlotter.Proofs.Reflection.Wordwise
import PenPlotter.Proofs.Numeral.Shortest
import PenPlotter.Proofs.Text.Integers
import PenPlotter.Proofs.Toolpath.Dropped
import PenPlotter.Proofs.Text.Cuts
import PenPlotter.Proofs.Estimate.Diagnostics
import PenPlotter.Proofs.Estimate.Truncated
import PenPlotter.Proofs.Document.Playback
import PenPlotter.Proofs.Document.Search
import PenPlotter.Proofs.Motion.Monotone
import PenPlotter.Proofs.Color
import PenPlotter.Proofs.Toolpath.ToolNumbers
import PenPlotter.Proofs.Settings
import PenPlotter.Proofs.Line.Wordless
import PenPlotter.Proofs.Line.WordOrder
import PenPlotter.Proofs.Motion.Sweep
import PenPlotter.Proofs.Estimate.Rates
