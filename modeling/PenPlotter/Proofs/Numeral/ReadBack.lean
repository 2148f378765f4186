import Mathlib
import PenPlotter.Proofs.Binary64.Decimal

/-!
# Numerals read back

A machine number that is written as a numeral is read back as the same number.
The digits that are written need not be all the digits of the number: they were
chosen by the test that they read back.

## Main definitions

* `Digits` — a text of decimal digits alone.
* `Decimal.settled` — the same decimal with no places to fill up to the units.
* `IsNumeral` — a text of digits, points and minus signs.

## Main results

* `ofText?_toText` — a decimal in digits is read as that decimal, settled.
* `shortest_toFloat` — the shortest decimal of a number is read as the number.
* `read?_write` — **a finite number that is written is read back.**
* `isNumeral_write` — a finite number is written with digits, a point and a sign.
-/

namespace PenPlotter

/-! ### Runs of digits -/

/-- Every character is a decimal digit. -/
def Digits (t : Text) : Prop := ∀ c ∈ t, c.isDigit = true

@[simp] theorem digits_nil : Digits [] := fun _ h => absurd h List.not_mem_nil

@[simp] theorem digits_cons (c : Char) (t : Text) :
    Digits (c :: t) ↔ c.isDigit = true ∧ Digits t := by
  simp [Digits]

@[simp] theorem digits_append (s t : Text) : Digits (s ++ t) ↔ Digits s ∧ Digits t := by
  simp [Digits, or_imp, forall_and]

theorem digits_toDigits (n : ℕ) : Digits (Nat.toDigits 10 n) := by
  intro c h
  exact Nat.isDigit_of_mem_toDigits (by decide) (by decide) h

theorem digits_zeros (n : ℕ) : Digits (List.replicate n '0') := by
  intro c h
  rw [List.eq_of_mem_replicate h]
  rfl

theorem digitValue?_of_isDigit {c : Char} (h : c.isDigit = true) :
    Text.digitValue? 10 c = some (c.toNat - 48) := by
  obtain ⟨h0, h9⟩ := Char.isDigit_iff_toNat.mp h
  change 48 ≤ c.toNat at h0
  change c.toNat ≤ 57 at h9
  unfold Text.digitValue?
  rw [if_pos ⟨Char.le_def.mpr h0, Char.le_def.mpr h9⟩]
  exact Option.filter_some_pos (by simp; omega)

theorem ofDigitsFrom?_of_digits (t : Text) (h : Digits t) (n : ℕ) :
    Text.ofDigitsFrom? 10 n t = some (Nat.ofDigitChars 10 t n) := by
  induction t generalizing n with
  | nil => rfl
  | cons c t ih =>
    rw [digits_cons] at h
    rw [Text.ofDigitsFrom?, digitValue?_of_isDigit h.1, Nat.ofDigitChars_cons, mul_comm]
    exact ih h.2 _

theorem ofDigits?_of_digits {t : Text} (h : Digits t) (hne : t ≠ []) :
    Text.ofDigits? 10 t = some (Nat.ofDigitChars 10 t 0) := by
  unfold Text.ofDigits?
  rw [if_neg (by simpa using hne), ofDigitsFrom?_of_digits t h]

namespace Decimal

theorem splitDigits_of_digits {t : Text} (h : Digits t) : splitDigits t = (t, []) :=
  Prod.ext (List.takeWhile_eq_self_iff.mpr h) (List.dropWhile_eq_nil_iff.mpr h)

theorem splitDigits_point {t : Text} (h : Digits t) (rest : Text) :
    splitDigits (t ++ '.' :: rest) = (t, '.' :: rest) := by
  unfold splitDigits
  rw [List.takeWhile_append_of_pos h, List.dropWhile_append_of_pos h,
    List.takeWhile_cons_of_neg (by decide), List.dropWhile_cons_of_neg (by decide), List.append_nil]

theorem ofText?_digits {t : Text} (h : Digits t) (hne : t ≠ []) :
    ofText? t = some ⟨Nat.ofDigitChars 10 t 0, 0⟩ := by
  unfold ofText?
  rw [splitDigits_of_digits h]
  dsimp only
  rw [List.append_nil, ofDigits?_of_digits h hne]
  rfl

theorem ofText?_point {s t : Text} (hs : Digits s) (ht : Digits t) (hne : s ++ t ≠ []) :
    ofText? (s ++ '.' :: t) = some ⟨Nat.ofDigitChars 10 (s ++ t) 0, -t.length⟩ := by
  unfold ofText?
  rw [splitDigits_point hs]
  simp only [splitDigits_of_digits ht]
  rw [ofDigits?_of_digits ((digits_append s t).mpr ⟨hs, ht⟩) hne]
  exact congrArg some (congrArg (Decimal.mk _) (zero_sub _))

/-! ### Decimals -/

/-- The same decimal with no places to fill up to the units. -/
def settled (d : Decimal) : Decimal :=
  if d.exponent < 0 then d else ⟨d.coefficient * 10 ^ d.exponent.natAbs, 0⟩

theorem settled_value (d : Decimal) : d.settled.value = d.value := by
  unfold settled value
  split_ifs with h
  · rfl
  · obtain ⟨k, hk⟩ := Int.eq_ofNat_of_zero_le (not_lt.mp h)
    rw [hk, zpow_natCast, Int.natAbs_natCast]
    push_cast
    rw [mul_one]

/-- Filling up places does not change the number that is read. -/
theorem settled_toFloat {d : Decimal} (h : d.exponent.natAbs ≤ 2048) :
    d.settled.toFloat = d.toFloat := by
  by_cases hc : d.coefficient = 0
  · have hsettled : d.settled.coefficient = 0 := by
      unfold settled
      split_ifs
      · exact hc
      · exact mul_eq_zero_of_left hc _
    rw [toFloat_of_zero hc, toFloat_of_zero hsettled]
  · -- both are their value rounded, and the value has not changed
    have hsettled : d.settled.coefficient ≠ 0 := by
      unfold settled
      split_ifs <;> simp [hc]
    have hexponent : d.settled.exponent.natAbs ≤ 2048 := by
      unfold settled
      split_ifs
      · exact h
      · exact Nat.zero_le _
    rw [Binary64.toFloat_eq_rounded hc (by omega) (by omega),
      Binary64.toFloat_eq_rounded hsettled (by omega) (by omega), settled_value]

/-- A point among digits, with zeros in front where they are too few. -/
theorem exists_withPoint (digits : Text) (places : ℕ) : ∃ s t : Text,
    withPoint digits (places + 1) = s ++ '.' :: t ∧ t.length = places + 1 ∧
      s ++ t = List.replicate (places + 2 - digits.length) '0' ++ digits := by
  refine ⟨_, _, rfl, ?_, List.take_append_drop _ _⟩
  rw [List.length_drop, List.length_append, List.length_replicate]
  omega

/-- With places behind the units a decimal is written as its digits, zeros in front
of them, with a point among them. -/
theorem exists_toText_point {d : Decimal} (h : d.exponent < 0) : ∃ (zeros : ℕ) (s t : Text),
    d.toText = s ++ '.' :: t ∧ Digits s ∧ Digits t ∧ -(t.length : ℤ) = d.exponent ∧
      s ++ t = List.replicate zeros '0' ++ Nat.toDigits 10 d.coefficient := by
  obtain ⟨p, hp⟩ : ∃ p, d.exponent.natAbs = p + 1 := ⟨d.exponent.natAbs - 1, by omega⟩
  obtain ⟨s, t, hpoint, hlength, hjoined⟩ := exists_withPoint (Nat.toDigits 10 d.coefficient) p
  have hdigits : Digits (s ++ t) := by
    rw [hjoined, digits_append]
    exact ⟨digits_zeros _, digits_toDigits _⟩
  obtain ⟨hs, ht⟩ := (digits_append s t).mp hdigits
  refine ⟨_, s, t, ?_, hs, ht, by omega, hjoined⟩
  unfold toText
  rw [if_pos h, hp, hpoint]

/-- Without such places it is written as its digits with zeros behind them. -/
theorem toText_of_nonneg {d : Decimal} (h : ¬ d.exponent < 0) :
    d.toText = Nat.toDigits 10 d.coefficient ++ List.replicate d.exponent.natAbs '0' := by
  unfold toText
  rw [if_neg h]

/-- **A decimal in digits is read as that decimal**, with the places up to the
units filled up. -/
theorem ofText?_toText (d : Decimal) : ofText? d.toText = some d.settled := by
  have hne : Nat.toDigits 10 d.coefficient ≠ [] := Nat.toDigits_ne_nil
  unfold settled
  split_ifs with h
  · obtain ⟨zeros, s, t, hpoint, hs, ht, hlength, hjoined⟩ := exists_toText_point h
    have hdigits : s ++ t ≠ [] := by
      rw [hjoined]
      simp [hne]
    rw [hpoint, ofText?_point hs ht hdigits, hjoined, Nat.ofDigitChars_append,
      Nat.ofDigitChars_replicate_zero, mul_zero, Nat.ofDigitChars_ten_toDigits, hlength]
  · have hdigits := (digits_append _ _).mpr
      ⟨digits_toDigits d.coefficient, digits_zeros d.exponent.natAbs⟩
    rw [toText_of_nonneg h, ofText?_digits hdigits (by simp [hne]), Nat.ofDigitChars_append,
      Nat.ofDigitChars_ten_toDigits, Nat.ofDigitChars_replicate_zero, mul_comm]

end Decimal

/-! ### The shortest decimal -/

namespace Magnitude

theorem onGrid?_reads {ties : Ties} {x : Magnitude} {reads : Decimal → Bool} {e : ℤ} {d : Decimal}
    (h : x.onGrid? ties reads e = some d) : reads d = true ∧ d.exponent = e := by
  unfold onGrid? at h
  dsimp only at h
  split at h
  · -- both neighbours pass the test, and the nearer one is taken
    next hbelow habove =>
    split at h <;> cases h
    · exact ⟨habove, rfl⟩
    · exact ⟨hbelow, rfl⟩
  · next hbelow _ => cases h; exact ⟨hbelow, rfl⟩
  · next _ habove => cases h; exact ⟨habove, rfl⟩
  · cases h

/-- What is found on a grid passes the test, and the grid is one of those tried. -/
theorem onGrids?_reads {ties : Ties} {x : Magnitude} {reads : Decimal → Bool} {count : ℕ} {e : ℤ}
    {d : Decimal} (h : x.onGrids? ties reads count e = some d) :
    reads d = true ∧ e - count < d.exponent ∧ d.exponent ≤ e := by
  induction count generalizing e with
  | zero => cases h
  | succ count ih =>
    unfold onGrids? at h
    split at h
    · next d' hd =>
      cases h
      obtain ⟨hreads, hexponent⟩ := onGrid?_reads hd
      exact ⟨hreads, by omega, by omega⟩
    · obtain ⟨hreads, hlo, hhi⟩ := ih h
      exact ⟨hreads, by omega, by omega⟩

open Binary64 Float.Model in
/-- **The shortest decimal of a number is read as that number.**  Its power of ten
is well within the range in which decimals are rounded from their value. -/
theorem shortest_toFloat (ties : Ties) {m : ℕ} {e : ℤ} (hm : 0 < m) (hc : Canonical m e) :
    (shortest ties ⟨m, e⟩).toFloat = ofParts (.finite .positive m e hm) ∧
      (shortest ties ⟨m, e⟩).exponent.natAbs ≤ 2048 := by
  have hge := hc.ge
  have hle := hc.le
  unfold shortest
  rw [if_neg hm.ne']
  dsimp only
  cases hgrid : onGrids? ties ⟨m, e⟩ (fun d => d.toFloat = (exact ⟨m, e⟩).toFloat) 22
      (decimalBound ⟨m, e⟩) with
  | none =>
    -- no grid has a decimal that reads back, and all the digits are taken
    refine ⟨exact_toFloat hm hc, ?_⟩
    rw [Option.getD_none, exact]
    split_ifs <;> dsimp only <;> omega
  | some d =>
    obtain ⟨hreads, hlo, hhi⟩ := onGrids?_reads hgrid
    have hlog := (Nat.log2_lt hm.ne').mpr hc.lt
    refine ⟨(of_decide_eq_true hreads).trans (exact_toFloat hm hc), ?_⟩
    unfold decimalBound at hlo hhi
    dsimp only at hlo hhi
    rw [Option.getD_some]
    omega

end Magnitude

/-! ### Writing and reading -/

/-- Every character is a digit or a point. -/
def IsUnsigned (t : Text) : Prop := ∀ c ∈ t, c.isDigit = true ∨ c = '.'

/-- Every character is a digit, a point or a minus sign. -/
def IsNumeral (t : Text) : Prop := ∀ c ∈ t, c.isDigit = true ∨ c = '.' ∨ c = '-'

theorem IsUnsigned.isNumeral {t : Text} (h : IsUnsigned t) : IsNumeral t := by
  intro c hc
  exact (h c hc).imp_right .inl

namespace Decimal

theorem isUnsigned_toText (d : Decimal) : IsUnsigned d.toText := by
  intro c hmem
  by_cases h : d.exponent < 0
  · obtain ⟨zeros, s, t, hpoint, hs, ht, -, -⟩ := exists_toText_point h
    rw [hpoint, List.mem_append, List.mem_cons] at hmem
    rcases hmem with hmem | rfl | hmem
    · exact .inl (hs c hmem)
    · exact .inr rfl
    · exact .inl (ht c hmem)
  · rw [toText_of_nonneg h, List.mem_append] at hmem
    rcases hmem with hmem | hmem
    · exact .inl (digits_toDigits _ c hmem)
    · exact .inl (digits_zeros _ c hmem)

end Decimal

namespace Numeral

open Binary64 Float.Model

theorem map_toLower_of_isUnsigned {t : Text} (h : IsUnsigned t) : t.map Char.toLower = t := by
  have hlower : ∀ c ∈ t, c.toLower = id c := by
    intro c hc
    rcases h c hc with hd | rfl
    · obtain ⟨-, h9⟩ := Char.isDigit_iff_toNat.mp hd
      change c.val.toNat ≤ 57 at h9
      unfold Char.toLower
      apply dif_neg
      intro hupper
      have h65 : 65 ≤ c.val.toNat := UInt32.le_iff_toNat_le.mp hupper.1
      omega
    · rfl
  exact (List.map_congr_left hlower).trans t.map_id

/-- Digits and points spell neither infinity nor the number that is none. -/
theorem unsigned?_of_isUnsigned {t : Text} (h : IsUnsigned t) :
    unsigned? t = (Decimal.ofText? t).map Decimal.toFloat := by
  have hword (c : Char) (hne : ¬ (c.isDigit = true ∨ c = '.')) : c ∉ t := by
    intro hc
    exact hne (h c hc)
  unfold unsigned?
  -- every word for what is no finite number has an `n` in it
  rw [map_toLower_of_isUnsigned h, if_neg, if_neg]
  · rintro rfl
    exact hword 'n' (by decide) (by simp)
  · rintro (rfl | rfl) <;> exact hword 'n' (by decide) (by simp)

theorem read?_of_isUnsigned {t : Text} (h : IsUnsigned t) : read? t = unsigned? t := by
  cases t with
  | nil => rfl
  | cons c t =>
    have hc := h c List.mem_cons_self
    unfold read?
    split
    · next heq => cases heq; exact absurd hc (by decide)
    · next heq => cases heq; exact absurd hc (by decide)
    · rfl

theorem unsigned?_toText (d : Decimal) : unsigned? d.toText = some d.settled.toFloat := by
  rw [unsigned?_of_isUnsigned d.isUnsigned_toText, d.ofText?_toText]
  rfl

/-- The decimal of which a finite number is written is read as its distance from zero. -/
theorem shortest_settled_toFloat {x : Float} (hx : x.isFinite = true) :
    ((Magnitude.ofFloat x).shortest .up).settled.toFloat = x.abs := by
  rw [isFinite_eq] at hx
  rw [abs_eq]
  cases hu : parts x with
  | notANumber => rw [hu] at hx; cases hx
  | infinity s => rw [hu] at hx; cases hx
  | zero s =>
    rw [(of_zero hu).1]
    exact Decimal.toFloat_of_zero rfl
  | finite s m e hm =>
    obtain ⟨hread, hexponent⟩ := Magnitude.shortest_toFloat .up hm (canonical_of_parts hu)
    rw [ofFloat_of_finite hu, Decimal.settled_toFloat hexponent, hread]
    rfl

theorem write_of_isFinite {x : Float} (hx : x.isFinite = true) :
    write x = if isNegative x then '-' :: ((Magnitude.ofFloat x).shortest .up).toText
      else ((Magnitude.ofFloat x).shortest .up).toText := by
  have hnan : x.isNaN = false ∧ x.isInf = false := by
    rw [isFinite_eq] at hx
    rw [isNaN_eq, isInf_eq]
    generalize parts x = u at hx ⊢
    cases u <;> first | exact ⟨rfl, rfl⟩ | cases hx
  unfold write signed
  rw [hnan.1, hnan.2]
  rfl

/-- **A finite number that is written is read back.** -/
theorem read?_write {x : Float} (hx : x.isFinite = true) : read? (write x) = some x := by
  have hread := unsigned?_toText ((Magnitude.ofFloat x).shortest .up)
  rw [shortest_settled_toFloat hx] at hread
  have hsigned := signed_abs hx
  rw [write_of_isFinite hx]
  -- behind a minus sign the distance from zero is read, and its sign is changed
  split_ifs at hsigned ⊢
  · rw [read?, hread, Option.map_some, hsigned]
  · rw [read?_of_isUnsigned (Decimal.isUnsigned_toText _), hread, hsigned]

/-- A finite number is written with digits, a point and a sign. -/
theorem isNumeral_write {x : Float} (hx : x.isFinite = true) : IsNumeral (write x) := by
  have hdigits := (Decimal.isUnsigned_toText ((Magnitude.ofFloat x).shortest .up)).isNumeral
  rw [write_of_isFinite hx]
  split_ifs
  · intro c hc
    rcases List.mem_cons.mp hc with rfl | hc
    · exact .inr (.inr rfl)
    · exact hdigits c hc
  · exact hdigits

end Numeral
end PenPlotter
