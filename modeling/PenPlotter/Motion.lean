/-!
# Motions

What the first word of a line asks the plotter to do: travel straight, or along
a circular arc in one of two windings.

## Main definitions

* `Winding`, `Winding.reverse` — the two ways around a circle.
* `Motion` — a straight move or an arc.
-/

namespace PenPlotter

/-- The two ways around a circle. -/
inductive Winding
  | clockwise
  | counterClockwise
  deriving DecidableEq, Repr, Inhabited

/-- The other way around, as seen through the back of the paper. -/
def Winding.reverse : Winding → Winding
  | clockwise => counterClockwise
  | counterClockwise => clockwise

@[simp] theorem Winding.reverse_reverse (w : Winding) : w.reverse.reverse = w := by
  cases w <;> rfl

/-- The motion of a line. -/
inductive Motion
  /-- A straight move, `G0` or `G1`. -/
  | linear
  /-- An arc, `G2` clockwise and `G3` counter-clockwise. -/
  | arc (winding : Winding)
  deriving DecidableEq, Repr, Inhabited

/-- The motion follows a circle. -/
def Motion.isArc : Motion → Bool
  | linear => false
  | arc _ => true

end PenPlotter
