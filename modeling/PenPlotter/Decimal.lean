import PenPlotter.Text.Digits

/-!
# Decimals

A decimal is a coefficient times a power of ten.  It is what a numeral of digits
denotes before it is rounded to a machine number, and what is chosen when a
machine number is written.

## Main definitions

* `Decimal` — `coefficient · 10 ^ exponent`.
* `Decimal.toFloat` — the machine number nearest to a decimal.
* `Decimal.ofText?` — digits with an optional point and an optional exponent.
* `Decimal.toText` — the decimal in digits, without an exponent.
-/

namespace PenPlotter

/-- The number `coefficient · 10 ^ exponent`. -/
structure Decimal where
  /-- The digits, read as one integer. -/
  coefficient : Nat
  /-- The power of ten that the digits count. -/
  exponent : Int
  deriving DecidableEq, Repr

namespace Decimal

/-- The machine number nearest to the decimal, a tie going to the even one. -/
def toFloat (d : Decimal) : Float :=
  Float.ofScientific d.coefficient (d.exponent < 0) d.exponent.natAbs

/-! ### Reading -/

/-- The decimal digits at the start of a text, and what follows them. -/
def splitDigits (t : Text) : Text × Text := (t.takeWhile Char.isDigit, t.dropWhile Char.isDigit)

/-- The exponent part of a numeral: nothing at all, or `e` and an integer. -/
def exponent? : Text → Option Int
  | [] => some 0
  | c :: rest => if c = 'e' ∨ c = 'E' then Text.int? rest else none

/-- Digits with at most one point among or around them, then an optional
exponent.  At least one digit is needed; the exponent may carry a sign. -/
def ofText? (t : Text) : Option Decimal :=
  let (whole, rest) := splitDigits t
  let (fraction, rest) :=
    match rest with
    | '.' :: rest => splitDigits rest
    | rest => ([], rest)
  match Text.ofDigits? 10 (whole ++ fraction), exponent? rest with
  | some coefficient, some exponent => some ⟨coefficient, exponent - fraction.length⟩
  | _, _ => none

/-! ### Writing -/

/-- Decimal digits with the point set `places` digits from the right; at least
one digit stands before the point. -/
def withPoint (digits : Text) : Nat → Text
  | 0 => digits
  | places + 1 =>
    let padded := List.replicate (places + 2 - digits.length) '0' ++ digits
    let before := padded.length - (places + 1)
    padded.take before ++ '.' :: padded.drop before

/-- The decimal in digits: zeros fill the places up to the units, and a point
stands in front of the places below them. -/
def toText (d : Decimal) : Text :=
  if d.exponent < 0 then withPoint (Nat.toDigits 10 d.coefficient) d.exponent.natAbs
  else Nat.toDigits 10 d.coefficient ++ List.replicate d.exponent.natAbs '0'

@[simp] theorem withPoint_zero (digits : Text) : withPoint digits 0 = digits := rfl

end Decimal
end PenPlotter
