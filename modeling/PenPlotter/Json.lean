import PenPlotter.Numeral

/-!
# JSON

Values of the data format, and their text over several lines.  Numbers that are
not finite have no spelling in it and are written as `null`.

## Main definitions

* `Json` — values.
* `Json.number` — the text of a number, with an exponent where it is long.
* `Json.pretty` — the text of a value, indented by two spaces a level.
-/

namespace PenPlotter

/-- A value. -/
inductive Json
  | null
  | bool (b : Bool)
  | natural (n : Nat)
  | float (x : Float)
  | string (t : Text)
  | array (items : List Json)
  | object (fields : List (String × Json))
  deriving Inhabited

namespace Json

/-! ### Numbers -/

/-- Removes trailing zeros from digits and counts them. -/
def splitZeros (digits : Text) : Text × Nat :=
  let kept := (digits.reverse.dropWhile (· == '0')).reverse
  (kept, digits.length - kept.length)

/-- A magnitude above zero: with the point among its digits while there are few
zeros to write, and else with an exponent.  Of two equally short and equally near
texts it is the one with the even last digit. -/
def magnitude (m : Magnitude) : Text :=
  let d := m.shortest .toEven
  let (digits, zeros) := splitZeros (Nat.toDigits 10 d.coefficient)
  let exponent := d.exponent + zeros
  -- where the point stands, counted from the first digit
  let point := exponent + digits.length
  if 0 ≤ exponent ∧ point ≤ 16 then
    digits ++ List.replicate exponent.toNat '0' ++ ['.', '0']
  else if -5 < point ∧ point ≤ 16 then Decimal.withPoint digits exponent.natAbs
  else
    let power := point - 1
    let sign : Text := if power < 0 then ['-'] else []
    Decimal.withPoint digits (digits.length - 1) ++ 'e' :: sign ++ Nat.toDigits 10 power.natAbs

/-- The text of a number. -/
def number (x : Float) : Text :=
  if !x.isFinite then ['n', 'u', 'l', 'l']
  else Numeral.signed (fun m => if m.mantissa = 0 then ['0', '.', '0'] else magnitude m) x

/-! ### Text -/

/-- A character inside quotes. -/
def escape (c : Char) : Text :=
  if c = '"' then ['\\', '"']
  else if c = '\\' then ['\\', '\\']
  else if c = '\n' then ['\\', 'n']
  else if c = '\r' then ['\\', 'r']
  else if c = '\t' then ['\\', 't']
  else if c.toNat = 8 then ['\\', 'b']
  else if c.toNat = 12 then ['\\', 'f']
  else if c.toNat < 32 then
    ['\\', 'u', '0', '0', Nat.digitChar (c.toNat / 16), Nat.digitChar (c.toNat % 16)]
  else [c]

/-- A text in quotes. -/
def quoted (t : Text) : Text := '"' :: t.flatMap escape ++ ['"']

/-- A line break followed by the indentation of a level. -/
def lineBreak (level : Nat) : Text := '\n' :: List.replicate (2 * level) ' '

mutual

/-- The text of a value at a level of indentation. -/
def prettyAt (level : Nat) : Json → Text
  | null => ['n', 'u', 'l', 'l']
  | bool true => ['t', 'r', 'u', 'e']
  | bool false => ['f', 'a', 'l', 's', 'e']
  | natural n => Nat.toDigits 10 n
  | float x => number x
  | string t => quoted t
  | array [] => ['[', ']']
  | array (item :: rest) =>
    '[' :: lineBreak (level + 1) ++ prettyAt (level + 1) item ++ prettyItems (level + 1) rest ++
      lineBreak level ++ [']']
  | object [] => ['\x7b', '\x7d']
  | object ((name, value) :: rest) =>
    '\x7b' :: lineBreak (level + 1) ++ quoted name.toList ++ ':' :: ' ' ::
      prettyAt (level + 1) value ++ prettyFields (level + 1) rest ++ lineBreak level ++ ['\x7d']

/-- The text of items behind the first one. -/
def prettyItems (level : Nat) : List Json → Text
  | [] => []
  | item :: rest => ',' :: lineBreak level ++ prettyAt level item ++ prettyItems level rest

/-- The text of fields behind the first one. -/
def prettyFields (level : Nat) : List (String × Json) → Text
  | [] => []
  | (name, value) :: rest =>
    ',' :: lineBreak level ++ quoted name.toList ++ ':' :: ' ' :: prettyAt level value ++
      prettyFields level rest

end

/-- The text of a value. -/
def pretty (j : Json) : Text := prettyAt 0 j

end Json
end PenPlotter
