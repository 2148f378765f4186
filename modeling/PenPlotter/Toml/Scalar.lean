import PenPlotter.Numeral
import PenPlotter.Toml.Value

/-!
# TOML scalars without quotes

Truth values, numbers, dates and times of day are written without quotes.
Underscores may stand between digits; integers have no leading zeros and may be
written in hexadecimal, octal or binary; a float needs digits on both sides of
its point.

## Main definitions

* `integer?`, `float?`, `isMoment` — the kinds of scalars.
* `scalar?` — the value of a scalar.
-/

namespace PenPlotter
namespace Toml

/-! ### Numbers -/

/-- Digits without the underscores between them. -/
def ungroup? (isDigit : Char → Bool) : Text → Option Text
  | [] => none
  | [c] => if isDigit c then some [c] else none
  | c :: '_' :: rest => if isDigit c then (ungroup? isDigit rest).map (c :: ·) else none
  | c :: rest => if isDigit c then (ungroup? isDigit rest).map (c :: ·) else none

/-- The digits of a decimal integer, which starts with a zero only if it is zero. -/
def decimalDigits? (t : Text) : Option Text :=
  match ungroup? Char.isDigit t with
  | some ('0' :: _ :: _) => none
  | digits => digits

/-- An integer in another base than ten. -/
def based? (base : Nat) (t : Text) : Option Int :=
  let digits := ungroup? (fun c => (Text.digitValue? base c).isSome) t
  (digits.bind (Text.ofDigits? base)).map Int.ofNat

/-- A decimal integer without a sign. -/
def unsignedInteger? (t : Text) : Option Int :=
  ((decimalDigits? t).bind (Text.ofDigits? 10)).map Int.ofNat

/-- Integers may use 128 bits, with or without a sign. -/
def fitsInteger (n : Int) : Bool := -(Nat.pow 2 127 : Int) ≤ n && n < Nat.pow 2 128

/-- An integer. -/
def integer? (t : Text) : Option Int :=
  let value :=
    match t with
    | '0' :: 'x' :: rest => based? 16 rest
    | '0' :: 'o' :: rest => based? 8 rest
    | '0' :: 'b' :: rest => based? 2 rest
    | '+' :: rest => unsignedInteger? rest
    | '-' :: rest => (unsignedInteger? rest).map fun n => -n
    | rest => unsignedInteger? rest
  value.filter fitsInteger

/-- The exponent of a float, without its mark. -/
def exponentDigits? : Text → Option Text
  | '+' :: rest => ungroup? Char.isDigit rest
  | '-' :: rest => (ungroup? Char.isDigit rest).map ('-' :: ·)
  | rest => ungroup? Char.isDigit rest

/-- The part of a float behind its whole digits, without underscores: a fraction,
an exponent, or both. -/
def floatTail? (t : Text) : Option Text :=
  let isMark (c : Char) : Bool := c == 'e' || c == 'E'
  match t with
  | '.' :: rest =>
    match ungroup? Char.isDigit (rest.takeWhile (!isMark ·)), rest.dropWhile (!isMark ·) with
    | some fraction, [] => some ('.' :: fraction)
    | some fraction, _ :: power => (exponentDigits? power).map fun e => '.' :: fraction ++ 'e' :: e
    | none, _ => none
  | c :: power => if isMark c then (exponentDigits? power).map ('e' :: ·) else none
  | [] => none

/-- A float without a sign.  One that is too large to be finite is refused. -/
def unsignedFloat? (t : Text) : Option Float :=
  if t = ['i', 'n', 'f'] then some Numeral.infinity
  else if t = ['n', 'a', 'n'] then some Numeral.undefined
  else
    let isWhole (c : Char) : Bool := c.isDigit || c == '_'
    match decimalDigits? (t.takeWhile isWhole), floatTail? (t.dropWhile isWhole) with
    | some whole, some tail => (Numeral.read? (whole ++ tail)).filter Float.isFinite
    | _, _ => none

/-- A float. -/
def float? : Text → Option Float
  | '+' :: rest => unsignedFloat? rest
  | '-' :: rest => (unsignedFloat? rest).map fun x => -x
  | rest => unsignedFloat? rest

/-! ### Dates and times of day -/

/-- Two digits, and what follows them. -/
def twoDigits? : Text → Option (Nat × Text)
  | a :: b :: rest => (Text.ofDigits? 10 [a, b]).map fun n => (n, rest)
  | _ => none

/-- The number of days in a month. -/
def daysIn (year month : Nat) : Nat :=
  if month = 2 then
    if year % 4 = 0 ∧ (year % 100 ≠ 0 ∨ year % 400 = 0) then 29 else 28
  else if month = 4 ∨ month = 6 ∨ month = 9 ∨ month = 11 then 30
  else 31

/-- What follows a date. -/
def afterDate? (t : Text) : Option Text := do
  let (century, t) ← twoDigits? t
  let (year, t) ← twoDigits? t
  let t ← Text.after? ['-'] t
  let (month, t) ← twoDigits? t
  let t ← Text.after? ['-'] t
  let (day, t) ← twoDigits? t
  if 1 ≤ month ∧ month ≤ 12 ∧ 1 ≤ day ∧ day ≤ daysIn (century * 100 + year) month then some t
  else none

/-- What follows hours and minutes. -/
def afterMinutes? (t : Text) : Option Text := do
  let (hour, t) ← twoDigits? t
  let t ← Text.after? [':'] t
  let (minute, t) ← twoDigits? t
  if hour ≤ 23 ∧ minute ≤ 59 then some t else none

/-- What follows a time of day, which may leave out its seconds. -/
def afterTime? (t : Text) : Option Text := do
  let t ← afterMinutes? t
  match t with
  | ':' :: t =>
    let (second, t) ← twoDigits? t
    if second ≤ 60 then
      match t with
      | '.' :: c :: t => if c.isDigit then some (t.dropWhile Char.isDigit) else none
      | t => some t
    else none
  | t => some t

/-- Nothing, or an offset from universal time. -/
def isOffset : Text → Bool
  | [] => true
  | ['Z'] | ['z'] => true
  | '+' :: t | '-' :: t => afterMinutes? t == some []
  | _ => false

/-- A date, a time of day, or a date with a time of day and perhaps an offset. -/
def isMoment (t : Text) : Bool :=
  match afterDate? t with
  | some [] => true
  | some (c :: rest) =>
    (c == 'T' || c == 't' || c == ' ') &&
      match afterTime? rest with
      | some offset => isOffset offset
      | none => false
  | none => afterTime? t == some []

/-! ### Scalars -/

/-- The value of a scalar. -/
def scalar? (t : Text) : Option Value :=
  if t = ['t', 'r', 'u', 'e'] then some (.boolean true)
  else if t = ['f', 'a', 'l', 's', 'e'] then some (.boolean false)
  else
    match integer? t with
    | some n => some (.integer n)
    | none =>
      match float? t with
      | some x => some (.float x)
      | none => if isMoment t then some .moment else none

/-- The characters of scalars. -/
def isScalarChar (c : Char) : Bool :=
  c.isAlphanum || c == '+' || c == '-' || c == '_' || c == '.' || c == ':'

/-- The scalar at the start of a text, and what follows it.  A blank belongs to it
where it parts a date from a time of day. -/
def splitScalar (t : Text) : Text × Text :=
  let token := t.takeWhile isScalarChar
  let rest := t.dropWhile isScalarChar
  match rest with
  | ' ' :: time =>
    if afterDate? token == some [] && (afterMinutes? time).isSome then
      (token ++ ' ' :: time.takeWhile isScalarChar, time.dropWhile isScalarChar)
    else (token, rest)
  | _ => (token, rest)

end Toml
end PenPlotter
