/-!
# Points of the sheet

## Main definitions

* `Point` — a place on the sheet, in millimetres.
* `hypotenuse` — the length of a vector, free of overflow on the way.
* `Point.distance` — the length of the straight way between two points.
-/

namespace PenPlotter

/-- A place on the sheet, in millimetres. -/
structure Point where
  x : Float
  y : Float
  deriving DecidableEq, Repr

/-- The origin of the sheet. -/
def Point.origin : Point := ⟨0, 0⟩

/-! ### Lengths -/

/-- The root of the sum of the squares of a longer and a shorter leg, both in a
range where the squares neither overflow nor vanish.  The root of the rounded
sum is corrected by its residue over twice itself, which leaves it right to the
last place but for rare halves. -/
def correctedRoot (long short : Float) : Float :=
  let root := Float.sqrt (long * long + short * short)
  let residue :=
    if root ≤ 2 * short then
      let delta := root - short
      long * (2 * delta - long) + (delta - 2 * (long - short)) * delta
    else
      let delta := root - long
      2 * delta * (long - 2 * short) + ((4 * delta - short) * short + delta * delta)
  root - residue / (2 * root)

/-- The number `2 ^ (n - 1023)`, for `n` from 1 to 2046: only the biased exponent
is set. -/
def powerOfTwo (n : UInt64) : Float := Float.ofBits (n <<< 52)

/-- The length of a vector with legs `x` and `y`.  An infinite leg makes it
infinite, whatever the other one is.  A leg too short to change the sum of the
squares is added as it is, and legs that are very long or very short are scaled
by a power of two before they are squared. -/
def hypotenuse (x y : Float) : Float :=
  let x := x.abs
  let y := y.abs
  if x.isInf || y.isInf then 1.0 / 0.0
  else if x.isNaN || y.isNaN then 0.0 / 0.0
  else
    let long := if x < y then y else x
    let short := if x < y then x else y
    -- `2 ^ -54`, below which the shorter leg is lost in the longer one
    if short ≤ long * powerOfTwo 969 then long + short
    -- `2 ^ 511` and `2 ^ -459` bound the range without scaling; the scale is `2 ^ 600`
    else if powerOfTwo 1534 < long then
      correctedRoot (long * powerOfTwo 423) (short * powerOfTwo 423) / powerOfTwo 423
    else if short < powerOfTwo 564 then
      correctedRoot (long / powerOfTwo 423) (short / powerOfTwo 423) * powerOfTwo 423
    else correctedRoot long short

/-- The length of the straight way from one point to another. -/
def Point.distance (start stop : Point) : Float :=
  hypotenuse (stop.x - start.x) (stop.y - start.y)

end PenPlotter
