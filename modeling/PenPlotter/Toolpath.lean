import PenPlotter.Color
import PenPlotter.Motion.Point

/-!
# Toolpaths

A toolpath is a list of nodes in the order of the program: strokes of the pen
and changes of the tool.  Each node knows the line that it comes from.

## Main definitions

* `Stroke`, `Node` — the elements of a toolpath.
* `Node.line`, `Node.color`, `Node.length` — what all nodes have.
-/

namespace PenPlotter

/-- A straight stroke. -/
structure Stroke where
  start : Point
  stop : Point
  color : Color
  /-- The index of the line that draws it. -/
  line : Nat
  deriving DecidableEq, Repr

/-- An element of a toolpath. -/
inductive Node
  | stroke (stroke : Stroke)
  /-- The pen is changed for one of another colour. -/
  | toolChange (color : Color) (line : Nat)
  deriving DecidableEq, Repr

namespace Node

/-- The index of the line that the node comes from. -/
def line : Node → Nat
  | stroke s => s.line
  | toolChange _ line => line

/-- The colour of the stroke or of the new tool. -/
def color : Node → Color
  | stroke s => s.color
  | toolChange color _ => color

/-- The length of the stroke; a tool change has none. -/
def length : Node → Float
  | stroke s => s.start.distance s.stop
  | toolChange .. => 0

/-- The stroke, if the node is one. -/
def stroke? : Node → Option Stroke
  | stroke s => some s
  | toolChange .. => none

@[simp] theorem line_stroke (s : Stroke) : (stroke s).line = s.line := rfl

@[simp] theorem line_toolChange (c : Color) (i : Nat) : (toolChange c i).line = i := rfl

@[simp] theorem stroke?_stroke (s : Stroke) : (stroke s).stroke? = some s := rfl

@[simp] theorem stroke?_toolChange (c : Color) (i : Nat) : (toolChange c i).stroke? = none := rfl

end Node
end PenPlotter
