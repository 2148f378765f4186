import PenPlotter.Decimal.Magnitude

/-!
# Numerals

How machine numbers are read from text and written as text.  Reading takes an
optional sign, then digits with an optional point and exponent, or one of the
words `inf`, `infinity` and `nan` in either case.  Writing gives the fewest
digits that read back, never with an exponent; two further forms round.

## Main definitions

* `Numeral.read?` — the number that a text denotes.
* `Numeral.write` — the shortest text that reads back.
* `Numeral.fixed` — a number with a fixed count of decimal places.
* `Numeral.scientific` — a number with one digit before the point and a power of ten.
-/

namespace PenPlotter
namespace Numeral

/-- Positive infinity. -/
def infinity : Float := 1.0 / 0.0

/-- The number that is not a number. -/
def undefined : Float := 0.0 / 0.0

/-! ### Reading -/

/-- A numeral without its sign. -/
def unsigned? (t : Text) : Option Float :=
  let lower := t.map Char.toLower
  if lower = ['i', 'n', 'f'] ∨ lower = ['i', 'n', 'f', 'i', 'n', 'i', 't', 'y'] then some infinity
  else if lower = ['n', 'a', 'n'] then some undefined
  else (Decimal.ofText? t).map Decimal.toFloat

/-- The number that a text denotes, rounded to the nearest machine number. -/
def read? : Text → Option Float
  | '-' :: rest => (unsigned? rest).map fun x => -x
  | '+' :: rest => unsigned? rest
  | t => unsigned? t

/-! ### Writing -/

/-- The sign bit is set. -/
def isNegative (x : Float) : Bool := x.toBits.toNat / Nat.pow 2 63 == 1

/-- Text of a number from a text of its magnitude: a minus sign goes in front if
the sign bit is set, also of zero; what is not finite has a word of its own. -/
def signed (magnitude : Magnitude → Text) (x : Float) : Text :=
  if x.isNaN then ['N', 'a', 'N']
  else
    let body := if x.isInf then ['i', 'n', 'f'] else magnitude (Magnitude.ofFloat x)
    if isNegative x then '-' :: body else body

/-- The shortest text that reads back, without an exponent.  Of two equally short
and equally near texts it is the one with the larger digits. -/
def write (x : Float) : Text := signed (fun m => (m.shortest .up).toText) x

/-- The number rounded to a fixed count of decimal places. -/
def fixed (places : Nat) (x : Float) : Text := signed (fun m => (m.toPlaces places).toText) x

/-- A magnitude above zero as one digit, a point, `places` more digits and a
power of ten. -/
def scientificMagnitude (places : Nat) (m : Magnitude) : Text :=
  let d := m.toDigits (places + 1)
  let power := d.exponent + places
  let sign : Text := if power < 0 then ['-'] else []
  Decimal.withPoint (Nat.toDigits 10 d.coefficient) places ++ 'e' :: sign ++
    Nat.toDigits 10 power.natAbs

/-- A number other than zero in scientific form. -/
def scientific (places : Nat) (x : Float) : Text := signed (scientificMagnitude places) x

end Numeral
end PenPlotter
