import Mathlib
import PenPlotter.Proofs.Numeral.ReadBack

/-!
# Integers read from a text

A reader of integers goes through its text digit by digit and gives up where it finds
something else.  What it accepts is a grammar of one line: at least one digit, and an
optional sign in front.

## Main definitions

* `Text.DenotesInt` — a text that is written by the grammar, and its integer.

## Main results

* `ofDigits?_eq_some_iff` — runs of digits, and nothing else, have a value.
* `int?_eq_some_iff` — **the texts that are read as integers are those of the grammar.**
* `intBetween?_eq_some_iff` — so they are within bounds.
-/

namespace PenPlotter

/-- Only the digits up to nine are digits in base ten. -/
theorem isDigit_of_digitValue? {c : Char} {d : ℕ} (h : Text.digitValue? 10 c = some d) :
    c.isDigit = true := by
  unfold Text.digitValue? at h
  obtain ⟨hvalue, hlt⟩ := Option.filter_eq_some_iff.mp h
  rw [decide_eq_true_eq] at hlt
  split_ifs at hvalue with h9 hlower hupper
  · exact Char.isDigit_iff_toNat.mpr ⟨Char.le_def.mp h9.1, Char.le_def.mp h9.2⟩
  · -- letters stand for values from ten on
    have hle : 97 ≤ c.toNat := Char.le_def.mp hlower.1
    have hd := Option.some.inj hvalue
    omega
  · have hle : 65 ≤ c.toNat := Char.le_def.mp hupper.1
    have hd := Option.some.inj hvalue
    omega

namespace Text

theorem ofDigitsFrom?_eq_some_iff (t : Text) (n v : ℕ) :
    ofDigitsFrom? 10 n t = some v ↔ Digits t ∧ Nat.ofDigitChars 10 t n = v := by
  constructor
  · intro h
    have hdigits : Digits t := by
      intro c hc
      obtain ⟨d, hd⟩ := exists_digitValue?_of_mem h hc
      exact isDigit_of_digitValue? hd
    rw [ofDigitsFrom?_of_digits t hdigits n] at h
    exact ⟨hdigits, Option.some.inj h⟩
  · rintro ⟨hdigits, rfl⟩
    exact ofDigitsFrom?_of_digits t hdigits n

/-- Runs of digits, and nothing else, have a value. -/
theorem ofDigits?_eq_some_iff (t : Text) (v : ℕ) :
    ofDigits? 10 t = some v ↔ t ≠ [] ∧ Digits t ∧ Nat.ofDigitChars 10 t 0 = v := by
  unfold ofDigits?
  cases t with
  | nil => simp
  | cons c t => simp [ofDigitsFrom?_eq_some_iff]

/-- The text is a decimal integer: at least one digit, with an optional sign in front. -/
inductive DenotesInt : Text → ℤ → Prop
  | unsigned {t : Text} (h : Digits t) (hne : t ≠ []) : DenotesInt t (Nat.ofDigitChars 10 t 0)
  | plus {t : Text} (h : Digits t) (hne : t ≠ []) :
      DenotesInt ('+' :: t) (Nat.ofDigitChars 10 t 0)
  | minus {t : Text} (h : Digits t) (hne : t ≠ []) :
      DenotesInt ('-' :: t) (-(Nat.ofDigitChars 10 t 0 : ℤ))

/-- A sign is no digit. -/
theorem not_digits_cons {c : Char} (hc : c.isDigit = false) (t : Text) : ¬ Digits (c :: t) := by
  rw [digits_cons, hc]
  simp

/-- A minus sign turns the value of the digits behind it around. -/
theorem int?_minus (t : Text) :
    int? ('-' :: t) = Option.map (fun v : ℕ => -(v : ℤ)) (ofDigits? 10 t) := by
  rw [int?]
  cases ofDigits? 10 t <;> rfl

/-- **The texts that are read as integers are those of the grammar.** -/
theorem int?_eq_some_iff (t : Text) (n : ℤ) : int? t = some n ↔ DenotesInt t n := by
  constructor
  · intro h
    by_cases hminus : ∃ u, t = '-' :: u
    · obtain ⟨u, rfl⟩ := hminus
      rw [int?_minus] at h
      obtain ⟨v, hv, rfl⟩ := Option.map_eq_some_iff.mp h
      obtain ⟨hne, hdigits, rfl⟩ := (ofDigits?_eq_some_iff _ _).mp hv
      exact .minus hdigits hne
    · unfold int? at h
      split at h
      · exact absurd ⟨_, rfl⟩ hminus
      · obtain ⟨v, hv, rfl⟩ := Option.map_eq_some_iff.mp h
        unfold natOfBase? at hv
        split at hv
        · obtain ⟨hne, hdigits, rfl⟩ := (ofDigits?_eq_some_iff _ _).mp hv
          exact .plus hdigits hne
        · obtain ⟨hne, hdigits, rfl⟩ := (ofDigits?_eq_some_iff _ _).mp hv
          exact .unsigned hdigits hne
  · intro h
    cases h with
    | minus hdigits hne =>
      rw [int?_minus, ofDigits?_of_digits hdigits hne]
      rfl
    | plus hdigits hne =>
      rw [int?, natOfBase?, ofDigits?_of_digits hdigits hne]
      · rfl
      · simp
    | unsigned hdigits hne =>
      -- a run of digits starts with no sign
      unfold int? natOfBase?
      split
      · exact absurd hdigits (not_digits_cons rfl _)
      · split
        · exact absurd hdigits (not_digits_cons rfl _)
        · rw [ofDigits?_of_digits hdigits hne]
          rfl

/-- Within bounds, too, the texts that are read are those of the grammar. -/
theorem intBetween?_eq_some_iff (low bound : ℤ) (t : Text) (n : ℤ) :
    intBetween? low bound t = some n ↔ DenotesInt t n ∧ low ≤ n ∧ n < bound := by
  unfold intBetween?
  rw [Option.filter_eq_some_iff, int?_eq_some_iff, Bool.and_eq_true, decide_eq_true_eq,
    decide_eq_true_eq]

end Text
end PenPlotter
