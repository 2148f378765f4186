import PenPlotter.Color
import PenPlotter.Motion.Point
import PenPlotter.Numeral

/-!
# Machine settings

What the estimate, the toolpath and the document take from the machine and from
the preview: the home position, the two pen angles, the speed limits, colours,
and what to show.

## Main definitions

* `Settings` — the settings; each one has a default.
* `Settings.liftLine`, `Settings.lowerLine` — the program lines that
  lift and lower the pen.
-/

namespace PenPlotter

/-- Machine and preview settings. -/
structure Settings where
  /-- Where the pen holder rests, in millimetres. -/
  home : Point := Point.origin
  /-- The height at which the pen is lifted, in degrees. -/
  penUpAngle : Float := 90.0
  /-- The height at which the pen touches the paper, in degrees. -/
  penDownAngle : Float := 50.0
  /-- Cruise speed while drawing, in millimetres per second. -/
  feedRate : Float := 90.0
  /-- In millimetres per second squared. -/
  acceleration : Float := 250.0
  /-- Cruise speed of the pen lift. -/
  zRate : Float := 50.0
  penUpColor : Color := Color.lime
  penDownColor : Color := Color.black
  /-- Show moves made with the pen lifted. -/
  showPenUp : Bool := false
  /-- Mirror programs on load, for drawing on the back of glass. -/
  reverseForGlass : Bool := false
  /-- How many lines past the cursor count as upcoming. -/
  lookAhead : Nat := 3
  /-- Keep showing what the cursor has not come near yet. -/
  drawAll : Bool := true
  deriving DecidableEq, Repr

namespace Settings

instance : Inhabited Settings := ⟨{}⟩

/-- The line that lifts the pen, at which a run can be resumed. -/
def liftLine (s : Settings) : Text := ['G', '0', '0', ' ', 'Z'] ++ Numeral.write s.penUpAngle

/-- The line that lowers the pen. -/
def lowerLine (s : Settings) : Text :=
  ['G', '0', '1', ' ', 'Z'] ++ Numeral.write s.penDownAngle

end Settings
end PenPlotter
