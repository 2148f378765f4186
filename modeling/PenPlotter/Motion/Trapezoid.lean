/-!
# Trapezoidal velocity profiles

A move speeds up to its cruise speed, cruises, and slows down again; where the
way is too short for that, the two ramps meet before cruise speed is reached.
The formulas hold in any number type with a square root, so that they can be run
on machine numbers and studied in an ordered field.

## Main definitions

* `Rooted` — number types with a square root.
* `Trapezoid.distances` — the way of speeding up, of cruising and of slowing down.
* `Trapezoid.rampSeconds` — the time that is counted for one ramp.
* `Trapezoid.seconds` — the time of a whole move.
-/

namespace PenPlotter

/-- A number type with a square root, and a test for its finite numbers. -/
class Rooted (α : Type _) where
  sqrt : α → α
  isFinite : α → Bool

instance : Rooted Float where
  sqrt := Float.sqrt
  isFinite := Float.isFinite

namespace Trapezoid

section

variable {α : Type _} [Add α] [Sub α] [Mul α] [Div α] [Neg α] [OfNat α 0] [OfNat α 2] [OfNat α 4]
  [LE α] [LT α] [DecidableLE α] [DecidableLT α] [Rooted α]

/-- The larger of two numbers; the second one where the first cannot be compared. -/
def larger (a b : α) : α := if b ≤ a then a else b

/-- The larger root `t` of `½ · accel · t² + speed · t = distance`, and zero where
there is no root above zero. -/
def rampSeconds (distance speed accel : α) : α :=
  let discriminant := speed * speed + 2 * accel * distance
  if discriminant < 0 then 0
  else
    let root := Rooted.sqrt discriminant
    larger (larger ((-speed + root) / accel) ((-speed - root) / accel)) 0

/-- The distances of speeding up, cruising and slowing down.  Where the two ramps
do not fit into the length of the move, they meet at the point where their
speeds agree, and there is no cruise. -/
def distances (length startRate endRate cruise accel : α) : α × α × α :=
  let speedUp := (cruise * cruise - startRate * startRate) / (2 * accel)
  let slowDown := (endRate * endRate - cruise * cruise) / (-2 * accel)
  if length < speedUp + slowDown then
    let meeting :=
      (2 * accel * length - startRate * startRate + endRate * endRate) / (4 * accel)
    (meeting, 0, length - meeting)
  else (speedUp, length - speedUp - slowDown, slowDown)

/-- The seconds of a move of a given length between two speeds, under a cruise
speed and an acceleration.  Without a length or a cruise speed above zero there
is no time; without a usable acceleration the whole move is a cruise. -/
def seconds (length startRate endRate cruise accel : α) : α :=
  if length ≤ 0 ∨ cruise ≤ 0 then 0
  else if accel ≤ 0 ∨ !Rooted.isFinite accel then length / cruise
  else
    let (speedUp, level, slowDown) := distances length startRate endRate cruise accel
    level / cruise + rampSeconds speedUp cruise accel + rampSeconds slowDown cruise accel

end

end Trapezoid
end PenPlotter
