import PenPlotter.Text

/-!
# Integers written in digits

A run of digits denotes its value in a base from two to thirty-six; letters in
either case stand for the digits from ten on.  Bounded readers take an optional
sign in front and refuse a value outside their range.

## Main definitions

* `Text.ofDigits?` — the value of a non-empty run of digits in a base.
* `Text.natBelow?` — a decimal integer from zero up to a bound.
* `Text.intBetween?` — a signed decimal integer in a half-open range.
-/

namespace PenPlotter
namespace Text

/-- The value of a character as a digit of the base. -/
def digitValue? (base : Nat) (c : Char) : Option Nat :=
  let value :=
    if '0' ≤ c ∧ c ≤ '9' then some (c.toNat - 48)
    else if 'a' ≤ c ∧ c ≤ 'z' then some (c.toNat - 87)
    else if 'A' ≤ c ∧ c ≤ 'Z' then some (c.toNat - 55)
    else none
  value.filter (· < base)

/-- The value of digits that follow a number already read. -/
def ofDigitsFrom? (base : Nat) : Nat → Text → Option Nat
  | n, [] => some n
  | n, c :: rest =>
    match digitValue? base c with
    | some d => ofDigitsFrom? base (n * base + d) rest
    | none => none

/-- Every character of what is read as a number is a digit. -/
theorem exists_digitValue?_of_mem {base n v : Nat} {t : Text} (h : ofDigitsFrom? base n t = some v)
    {c : Char} (hc : c ∈ t) : ∃ d, digitValue? base c = some d := by
  induction t generalizing n with
  | nil => cases hc
  | cons e t ih =>
    rw [ofDigitsFrom?] at h
    cases he : digitValue? base e with
    | none => rw [he] at h; cases h
    | some d =>
      rw [he] at h
      rcases List.mem_cons.mp hc with rfl | hc
      · exact ⟨d, he⟩
      · exact ih h hc

/-- The value of a non-empty run of digits. -/
def ofDigits? (base : Nat) (t : Text) : Option Nat :=
  if t.isEmpty then none else ofDigitsFrom? base 0 t

@[simp] theorem ofDigits?_nil (base : Nat) : ofDigits? base [] = none := rfl

/-- Digits with an optional plus sign in front. -/
def natOfBase? (base : Nat) : Text → Option Nat
  | '+' :: rest => ofDigits? base rest
  | t => ofDigits? base t

/-- A decimal integer in `[0, bound)`, with an optional plus sign. -/
def natBelow? (bound : Nat) (t : Text) : Option Nat :=
  (natOfBase? 10 t).filter (· < bound)

/-- A decimal integer with an optional sign. -/
def int? : Text → Option Int
  | '-' :: rest => (ofDigits? 10 rest).map fun n => -(n : Int)
  | t => (natOfBase? 10 t).map Int.ofNat

/-- A decimal integer in `[low, bound)`, with an optional sign. -/
def intBetween? (low bound : Int) (t : Text) : Option Int :=
  (int? t).filter fun n => low ≤ n && n < bound

end Text
end PenPlotter
