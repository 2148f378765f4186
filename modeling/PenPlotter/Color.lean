import PenPlotter.Text.Digits

/-!
# Colours

Opaque colours of three eight-bit channels.  A tool change names one by an
integer, settings by six hexadecimal digits.

## Main definitions

* `Color`, `Color.ofNat`, `Color.toNat` — colours, and as one integer.
* `Color.ofHex?`, `Color.hex` — colours as hexadecimal text.
-/

namespace PenPlotter

/-- A colour by its red, green and blue channels. -/
structure Color where
  red : UInt8
  green : UInt8
  blue : UInt8
  deriving DecidableEq, Repr, Inhabited

namespace Color

def black : Color := ⟨0, 0, 0⟩

def lime : Color := ⟨0, 255, 0⟩

/-- The colour in the low twenty-four bits of an integer, red in the highest. -/
def ofNat (n : Nat) : Color :=
  ⟨UInt8.ofNat (n / 65536), UInt8.ofNat (n / 256), UInt8.ofNat n⟩

/-- The colour in the low twenty-four bits of a signed integer. -/
def ofInt (n : Int) : Color := ofNat (n % 16777216).toNat

/-- The colour as one integer, red in the highest of its three bytes. -/
def toNat (c : Color) : Nat := c.red.toNat * 65536 + c.green.toNat * 256 + c.blue.toNat

/-- Reads six hexadecimal digits, with number signs in front of them and blanks
around all of it.  A plus sign may take the place of the first digit. -/
def ofHex? (t : Text) : Option Color :=
  let digits := (Text.trim t).dropWhile (· == '#')
  if digits.length = 6 then (Text.natOfBase? 16 digits).map ofNat else none

/-- Two lower-case hexadecimal digits. -/
def hexByte (b : UInt8) : Text :=
  [Nat.digitChar (b.toNat / 16), Nat.digitChar (b.toNat % 16)]

/-- A number sign and two lower-case hexadecimal digits for each channel. -/
def hex (c : Color) : Text := '#' :: hexByte c.red ++ hexByte c.green ++ hexByte c.blue

/-- Why a text is not a colour, in words. -/
def refusal (t : Text) : String := s!"expected a #rrggbb color, got '{String.ofList t}'"

end Color
end PenPlotter
