import PenPlotter.Motion
import PenPlotter.Motion.Point

/-!
# Circular arcs

An arc goes from a start point around a centre, in a given winding, until it
points at a stop point.  Its angles come from trigonometric functions that the
geometry takes as given.

## Main definitions

* `Trigonometry` — the functions between angles and coordinates.
* `heading` — the angle of a vector, from zero up to a full turn.
* `Arc`, `Arc.between` — an arc as a start angle and a signed sweep.
* `Arc.length`, `Arc.point` — its length and the points along it.
* `ArcRequest`, `ArcRequest.arc` — what an arc is made from, and the arc.
-/

namespace PenPlotter

/-- Sine, cosine and the angle of a vector with given rise and run. -/
class Trigonometry where
  sin : Float → Float
  cos : Float → Float
  atan2 : Float → Float → Float

instance : Trigonometry where
  sin := Float.sin
  cos := Float.cos
  atan2 := Float.atan2

/-- A full turn, `2π`. -/
def fullTurn : Float := 6.283185307179586

section

variable [Trigonometry]

/-- The angle of a vector, a full turn added if it is below zero. -/
def heading (dy dx : Float) : Float :=
  let angle := Trigonometry.atan2 dy dx
  if angle < 0 then fullTurn + angle else angle

/-- An arc by its circle, the angle at which it starts and the angle it sweeps. -/
structure Arc where
  center : Point
  radius : Float
  /-- The angle of the start point, a full turn added where the sweep needs it. -/
  startAngle : Float
  /-- The signed angle of the arc, below zero if it is clockwise. -/
  sweep : Float
  deriving DecidableEq, Repr

namespace Arc

/-- The start and end angles of an arc, of which one is moved on by a full turn
where the way between them would go against the winding. -/
def angles (start stop : Float) : Winding → Float × Float
  | .counterClockwise => (start, if stop - start < 0 then stop + fullTurn else stop)
  | .clockwise => (if 0 < stop - start then start + fullTurn else start, stop)

/-- The arc from one point to the direction of another around a centre. -/
def between (start stop center : Point) (winding : Winding) : Arc :=
  let dx := start.x - center.x
  let dy := start.y - center.y
  let (startAngle, stopAngle) :=
    angles (heading dy dx) (heading (stop.y - center.y) (stop.x - center.x)) winding
  { center
    radius := Float.sqrt (dx * dx + dy * dy)
    startAngle
    sweep := stopAngle - startAngle }

/-- The length along the arc. -/
def length (arc : Arc) : Float := arc.sweep.abs * arc.radius

/-- The point at a fraction of the sweep. -/
def point (arc : Arc) (fraction : Float) : Point :=
  let angle := arc.startAngle + arc.sweep * fraction
  ⟨arc.center.x + Trigonometry.cos angle * arc.radius,
    arc.center.y + Trigonometry.sin angle * arc.radius⟩

end Arc

/-- What an arc is made from. -/
structure ArcRequest where
  start : Point
  stop : Point
  center : Point
  winding : Winding
  deriving DecidableEq, Repr

/-- The arc that is asked for. -/
def ArcRequest.arc (r : ArcRequest) : Arc := Arc.between r.start r.stop r.center r.winding

end

end PenPlotter
