import PenPlotter.Settings
import PenPlotter.Word

/-!
# The state of the machine between lines

A pass over a program carries a position, the modes that stay in force from line
to line, the current rates, and the pen.

## Main definitions

* `Pen`, `Pen.at` — whether the pen is lifted, and the colours it draws in.
* `Machine` — the state carried from line to line.
* `Machine.zeroed`, `Machine.parked` — the two states in which a pass starts.
-/

namespace PenPlotter

/-- The pen counts as lifted when it is this close to its upper angle. -/
def Pen.margin : Float := 0.1

/-- The pen, and the colours of strokes made with it. -/
structure Pen where
  lifted : Bool
  /-- The colour of the next stroke. -/
  strokeColor : Color
  upColor : Color
  downColor : Color
  deriving DecidableEq, Repr

/-- The pen after a move of its height: it is lifted near its upper angle, and
the colour of its strokes follows. -/
def Pen.at (p : Pen) (penUpAngle z : Float) : Pen :=
  let lifted : Bool := (penUpAngle - z).abs < Pen.margin
  { p with lifted, strokeColor := if lifted then p.upColor else p.downColor }

/-- The state that a pass carries from line to line. -/
structure Machine where
  position : Point
  /-- The height of the pen. -/
  z : Float
  /-- The centre of the arc of the line that is being read. -/
  arcCenter : Point
  units : Units
  /-- Coordinates count from the origin, and else from the current position. -/
  absolute : Bool
  feedRate : Float
  acceleration : Float
  pen : Pen
  deriving DecidableEq, Repr

namespace Machine

/-- At the origin of the program with the pen lifted, where a preview starts. -/
def zeroed (s : Settings) : Machine where
  position := Point.origin
  z := s.penUpAngle
  arcCenter := Point.origin
  units := .millimetres
  absolute := true
  feedRate := s.feedRate
  acceleration := s.acceleration
  pen :=
    { lifted := true
      strokeColor := s.penUpColor
      upColor := s.penUpColor
      downColor := s.penDownColor }

/-- At home with the pen lifted, where an estimate starts. -/
def parked (s : Settings) : Machine := { zeroed s with position := s.home }

/-- The millimetres in one unit of a coordinate. -/
def scale (m : Machine) : Float := m.units.scale

end Machine
end PenPlotter
