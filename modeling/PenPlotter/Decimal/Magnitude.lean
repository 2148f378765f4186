import PenPlotter.Decimal

/-!
# The exact value of a machine number

A finite machine number is a sign and a magnitude `mantissa · 2 ^ exponent`.
Its decimals are found by exact arithmetic on that magnitude: the shortest
decimal that reads back, and decimals rounded to a number of places or digits.
Powers are written with `Nat.pow`, which means the same whatever instances of a
power are in scope.

## Main definitions

* `Magnitude.ofFloat` — the magnitude of a finite number, from its bits.
* `Ties` — which way a value halfway between two neighbours goes.
* `Magnitude.shortest` — the decimal with the fewest digits that reads back.
* `roundDiv` — a quotient rounded to the nearest integer, a tie to the even one.
* `Magnitude.toPlaces`, `Magnitude.toDigits` — the magnitude rounded to a
  number of decimal places, and to a number of significant digits.
-/

namespace PenPlotter

/-! ### Ties -/

/-- Which way a value halfway between two neighbours goes. -/
inductive Ties
  /-- To the larger one. -/
  | up
  /-- To the even one. -/
  | toEven
  deriving DecidableEq, Repr

/-- Whether a quotient with a remainder goes to its upper neighbour. -/
def Ties.roundsUp (ties : Ties) (quotient remainder denominator : Nat) : Bool :=
  match compare (2 * remainder) denominator with
  | .lt => false
  | .gt => true
  | .eq =>
    match ties with
    | up => true
    | toEven => quotient % 2 == 1

/-! ### Magnitudes -/

/-- The number `mantissa · 2 ^ exponent`. -/
structure Magnitude where
  /-- The significand as an integer. -/
  mantissa : Nat
  /-- The power of two that the significand counts. -/
  exponent : Int
  deriving DecidableEq, Repr

namespace Magnitude

/-- The magnitude of a finite number: the bits below the sign are a biased
exponent and a fraction, and the fraction has a leading one unless the biased
exponent is zero. -/
def ofFloat (x : Float) : Magnitude :=
  let bits := x.toBits.toNat
  let biased : Nat := bits / Nat.pow 2 52 % Nat.pow 2 11
  let fraction : Nat := bits % Nat.pow 2 52
  if biased = 0 then ⟨fraction, -1074⟩
  else ⟨Nat.pow 2 52 + fraction, (biased : Int) - 1075⟩

/-- The magnitude over `10 ^ e`, as a numerator and a denominator. -/
def ratio (x : Magnitude) (e : Int) : Nat × Nat :=
  (x.mantissa * Nat.pow 2 x.exponent.toNat * Nat.pow 10 (-e).toNat,
    Nat.pow 2 (-x.exponent).toNat * Nat.pow 10 e.toNat)

/-- All the digits of the magnitude. -/
def exact (x : Magnitude) : Decimal :=
  if x.exponent < 0 then ⟨x.mantissa * Nat.pow 5 x.exponent.natAbs, x.exponent⟩
  else ⟨x.mantissa * Nat.pow 2 x.exponent.natAbs, 0⟩

/-- An exponent `e` with the magnitude below `10 ^ e`, and not far below it. -/
def decimalBound (x : Magnitude) : Int :=
  ((x.mantissa.log2 : Int) + 1 + x.exponent) * 30103 / 100000 + 2

/-! ### The shortest decimal that reads back -/

/-- The multiple of `10 ^ e` next to the magnitude that passes the test.  Of two
that pass it is the nearer one. -/
def onGrid? (ties : Ties) (x : Magnitude) (reads : Decimal → Bool) (e : Int) : Option Decimal :=
  let (numerator, denominator) := x.ratio e
  let quotient := numerator / denominator
  let below : Decimal := ⟨quotient, e⟩
  let above : Decimal := ⟨quotient + 1, e⟩
  match reads below, reads above with
  | true, true =>
    some (if ties.roundsUp quotient (numerator % denominator) denominator then above else below)
  | true, false => some below
  | false, true => some above
  | false, false => none

/-- The first of `count` grids, from `10 ^ e` downwards, with a multiple that
passes the test. -/
def onGrids? (ties : Ties) (x : Magnitude) (reads : Decimal → Bool) : Nat → Int → Option Decimal
  | 0, _ => none
  | count + 1, e =>
    match x.onGrid? ties reads e with
    | some d => some d
    | none => x.onGrids? ties reads count (e - 1)

/-- The decimal with the fewest digits that reads back as the number with this
magnitude.  Seventeen digits always suffice, and the bound on the grids leaves
room for them; all the digits are what is left otherwise. -/
def shortest (ties : Ties) (x : Magnitude) : Decimal :=
  if x.mantissa = 0 then ⟨0, 0⟩
  else
    let value := x.exact.toFloat
    (x.onGrids? ties (fun d => d.toFloat = value) 22 x.decimalBound).getD x.exact

/-! ### Rounded decimals -/

/-- The integer nearest to a quotient; a tie goes to the even neighbour. -/
def roundDiv (numerator denominator : Nat) : Nat :=
  let quotient := numerator / denominator
  if Ties.toEven.roundsUp quotient (numerator % denominator) denominator then quotient + 1
  else quotient

/-- The magnitude rounded to a number of decimal places. -/
def toPlaces (x : Magnitude) (places : Nat) : Decimal :=
  let (numerator, denominator) := x.ratio (-(places : Int))
  ⟨roundDiv numerator denominator, -(places : Int)⟩

/-- Whether the magnitude is at least `10 ^ e`. -/
def reaches (x : Magnitude) (e : Int) : Bool :=
  let (numerator, denominator) := x.ratio e
  denominator ≤ numerator

/-- The exponent of the leading digit, searched downwards from `e`. -/
def leadingFrom (x : Magnitude) : Nat → Int → Int
  | 0, e => e
  | count + 1, e => if x.reaches e then e else x.leadingFrom count (e - 1)

/-- A magnitude above zero rounded to a number of significant digits. -/
def toDigits (x : Magnitude) (digits : Nat) : Decimal :=
  let leading := x.leadingFrom 4 x.decimalBound
  let unit := leading + 1 - digits
  let (numerator, denominator) := x.ratio unit
  let coefficient := roundDiv numerator denominator
  -- rounding up to the next power of ten makes one digit too many
  if coefficient = Nat.pow 10 digits then ⟨Nat.pow 10 (digits - 1), unit + 1⟩
  else ⟨coefficient, unit⟩

end Magnitude
end PenPlotter
