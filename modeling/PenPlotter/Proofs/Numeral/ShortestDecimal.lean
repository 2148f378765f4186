import Mathlib
import PenPlotter.Proofs.Binary64.DecimalValues

/-!
# The shortest decimal of a number

Of the decimals that are read as a number the shortest one has the fewest digits, and of
those with so few digits it is the nearest one.  There is only one such decimal.

The decimals that are read as a number fill an interval.  If it holds nothing of a grid of
multiples of a power of ten, but something of the next finer one, then what is nearest on
the finer grid is shortest: between it and a decimal with fewer digits there would be a
power of ten, which is on the coarser grid.

## Main definitions

* `Decimal.digitCount` — the number of digits of a decimal.
* `Nearer` — the order in which decimals with equally many digits are preferred.
* `Decimal.IsShortest` — the shortest decimal of a number.
* `Coarsest` — a decimal is nearest on its grid, and nothing coarser is read.

## Main results

* `Decimal.IsShortest.unique` — there is one shortest decimal of a number.
* `Coarsest.digitCount_le` — no decimal with fewer digits is read.
* `Coarsest.best` — **what is nearest on the coarsest grid is shortest.**
-/

namespace PenPlotter

open Binary64 Float.Model
open Float.Model.UnpackedFloat (Sign)

/-! ### Digits -/

namespace Decimal

/-- The number of digits of the coefficient; places that are filled with zeros do not count. -/
def digitCount (d : Decimal) : ℕ := (Nat.toDigits 10 d.coefficient).length

theorem digitCount_pos (d : Decimal) : 0 < d.digitCount :=
  List.length_pos_of_ne_nil Nat.toDigits_ne_nil

theorem coefficient_lt (d : Decimal) : d.coefficient < 10 ^ d.digitCount :=
  (Nat.length_toDigits_le_iff (by decide) d.digitCount_pos).mp le_rfl

theorem pow_le_coefficient {d : Decimal} (h : 0 < d.coefficient) :
    10 ^ (d.digitCount - 1) ≤ d.coefficient := by
  by_contra hlt
  rcases Nat.eq_zero_or_pos (d.digitCount - 1) with hone | hmore
  · rw [hone] at hlt
    omega
  · have hle := (Nat.length_toDigits_le_iff (by decide) hmore).mpr (not_le.mp hlt)
    have hpos := d.digitCount_pos
    unfold digitCount at *
    omega

/-- A decimal is below the power of ten with one digit more. -/
theorem value_lt (d : Decimal) : d.value < 10 ^ (d.digitCount + d.exponent) := by
  have hc : (d.coefficient : ℚ) < 10 ^ d.digitCount := by exact_mod_cast d.coefficient_lt
  rw [zpow_add₀ (by norm_num), zpow_natCast]
  exact mul_lt_mul_of_pos_right hc (by positivity)

/-- A decimal other than zero reaches the power of ten with as many digits. -/
theorem le_value {d : Decimal} (h : 0 < d.coefficient) :
    10 ^ ((d.digitCount : ℤ) - 1 + d.exponent) ≤ d.value := by
  have hc : (10 : ℚ) ^ (d.digitCount - 1) ≤ d.coefficient := by
    exact_mod_cast pow_le_coefficient h
  have hcount : (d.digitCount : ℤ) - 1 = (d.digitCount - 1 : ℕ) := by
    have := d.digitCount_pos
    omega
  rw [zpow_add₀ (by norm_num), hcount, zpow_natCast]
  exact mul_le_mul_of_nonneg_right hc (by positivity)

theorem coefficient_pos {d : Decimal} (h : 0 < d.value) : 0 < d.coefficient := by
  by_contra hzero
  rw [value, Nat.eq_zero_of_not_pos hzero] at h
  simp at h

theorem exponent_le_of_value {d d' : Decimal} (hpos : 0 < d'.value) (hvalue : d.value = d'.value)
    (hcount : d.digitCount = d'.digitCount) : d'.exponent ≤ d.exponent := by
  have hlo := le_value (coefficient_pos hpos)
  have hhi := d.value_lt
  rw [hvalue, hcount] at hhi
  have hexponents := (zpow_lt_zpow_iff_right₀ (by norm_num : (1 : ℚ) < 10)).mp (hlo.trans_lt hhi)
  omega

/-- Equal values with equally many digits are one decimal. -/
theorem eq_of_value {d d' : Decimal} (hpos : 0 < d.value) (hvalue : d.value = d'.value)
    (hcount : d.digitCount = d'.digitCount) : d = d' := by
  have hexponent : d.exponent = d'.exponent :=
    le_antisymm (exponent_le_of_value hpos hvalue.symm hcount.symm)
      (exponent_le_of_value (hvalue ▸ hpos) hvalue hcount)
  obtain ⟨c, e⟩ := d
  obtain ⟨c', e'⟩ := d'
  dsimp only at hexponent
  subst hexponent
  have hscale : (10 : ℚ) ^ e ≠ 0 := by positivity
  have hcoefficient : (c : ℚ) = c' := mul_right_cancel₀ hscale hvalue
  rw [Nat.cast_inj.mp hcoefficient]

end Decimal

/-! ### What is shortest -/

/-- The first value is nearer to `v` than the second one, or as near and not smaller. -/
def Nearer (v a b : ℚ) : Prop := |a - v| < |b - v| ∨ |a - v| = |b - v| ∧ b ≤ a

theorem Nearer.trans {v a b c : ℚ} (hab : Nearer v a b) (hbc : Nearer v b c) : Nearer v a c := by
  rcases hab with hab | ⟨hab, hle⟩ <;> rcases hbc with hbc | ⟨hbc, hle'⟩
  · exact .inl (hab.trans hbc)
  · exact .inl (hbc ▸ hab)
  · exact .inl (hab ▸ hbc)
  · exact .inr ⟨hab.trans hbc, hle'.trans hle⟩

theorem Nearer.antisymm {v a b : ℚ} (hab : Nearer v a b) (hba : Nearer v b a) : a = b := by
  rcases hab with hab | ⟨hab, hle⟩ <;> rcases hba with hba | ⟨hba, hle'⟩
  · exact absurd hba hab.not_gt
  · exact absurd hab hba.not_gt
  · exact absurd hba hab.not_gt
  · exact le_antisymm hle' hle

theorem nearer_below {v a b : ℚ} (hba : b ≤ a) (hav : a ≤ v) : Nearer v a b := by
  unfold Nearer
  rw [abs_of_nonpos (by linarith), abs_of_nonpos (by linarith)]
  rcases hba.lt_or_eq with hlt | rfl
  · exact .inl (by linarith)
  · exact .inr ⟨rfl, le_rfl⟩

theorem nearer_above {v a b : ℚ} (hva : v ≤ a) (hab : a ≤ b) : Nearer v a b := by
  unfold Nearer
  rw [abs_of_nonneg (by linarith), abs_of_nonneg (by linarith)]
  rcases hab.lt_or_eq with hlt | rfl
  · exact .inl (by linarith)
  · exact .inr ⟨rfl, le_rfl⟩

/-- The shortest decimal of a number: it is read as the number, and any other decimal that
is has more digits, or as many and is not nearer. -/
structure Decimal.IsShortest (x : Float) (d : Decimal) : Prop where
  reads : d.toFloat = x
  best : ∀ d' : Decimal, d'.toFloat = x → d.digitCount < d'.digitCount ∨
    d.digitCount = d'.digitCount ∧ Nearer (Binary64.value x) d.value d'.value

/-- There is one shortest decimal of a positive number. -/
theorem Decimal.IsShortest.unique {x : Float} {d d' : Decimal} (hx : x.isNaN = false)
    (hpos : 0 < Binary64.value x) (hd : IsShortest x d) (hd' : IsShortest x d') : d = d' := by
  have hreads := (toFloat_eq_iff hx hpos.ne' d).mp hd.reads
  rcases hd.best d' hd'.reads with hlt | ⟨hcount, hnear⟩
  · rcases hd'.best d hd.reads with hlt' | ⟨hcount', -⟩ <;> omega
  · rcases hd'.best d hd.reads with hlt' | ⟨-, hnear'⟩
    · omega
    · exact eq_of_value (hreads.pos hpos) (hnear.antisymm hnear') hcount

/-! ### Grids -/

/-- The decimal is nearest to `v` of what is read as `v` on its grid, and nothing of the
next coarser grid is read as `v`. -/
structure Coarsest (v : ℚ) (d : Decimal) : Prop where
  reads : Reads v d.value
  closest : ∀ n : ℕ, Reads v (n * 10 ^ d.exponent) → Nearer v d.value (n * 10 ^ d.exponent)
  coarsest : ∀ n : ℕ, ¬ Reads v (n * 10 ^ (d.exponent + 1))

namespace Coarsest

variable {v : ℚ} {d d' : Decimal}

/-- Nothing of any coarser grid is read either. -/
theorem not_reads (h : Coarsest v d) {e : ℤ} (he : d.exponent < e) (n : ℕ) :
    ¬ Reads v (n * 10 ^ e) := by
  obtain ⟨j, hj⟩ := Int.eq_ofNat_of_zero_le (by omega : 0 ≤ e - (d.exponent + 1))
  have hscaled : (n : ℚ) * 10 ^ e = (n * 10 ^ j : ℕ) * 10 ^ (d.exponent + 1) := by
    rw [show e = j + (d.exponent + 1) by omega, zpow_add₀ (by norm_num), zpow_natCast]
    push_cast
    ring
  rw [hscaled]
  exact h.coarsest _

theorem exponent_le (h : Coarsest v d) (hd' : Reads v d'.value) : d'.exponent ≤ d.exponent := by
  by_contra hlt
  exact h.not_reads (not_le.mp hlt) _ hd'

theorem pow_not_reads (h : Coarsest v d) {e : ℤ} (he : d.exponent < e) : ¬ Reads v (10 ^ e) := by
  simpa using h.not_reads he 1

/-- Between a decimal below it and the nearest one on the coarsest grid there is a power
of ten. -/
theorem reads_power (h : Coarsest v d) (hv : 0 < v) (hd' : Reads v d'.value)
    (hle : (d'.digitCount : ℤ) + d'.exponent ≤ d.digitCount - 1 + d.exponent) :
    Reads v (10 ^ ((d.digitCount : ℤ) - 1 + d.exponent)) := by
  have hlo : d'.value ≤ 10 ^ ((d.digitCount : ℤ) - 1 + d.exponent) :=
    d'.value_lt.le.trans (zpow_le_zpow_right₀ (by norm_num) hle)
  exact hd'.between h.reads hlo (Decimal.le_value (Decimal.coefficient_pos (h.reads.pos hv)))

/-- **No decimal with fewer digits is read**: a power of ten on a coarser grid would be read
as well. -/
theorem digitCount_le (h : Coarsest v d) (hv : 0 < v) (hd' : Reads v d'.value) :
    d.digitCount ≤ d'.digitCount := by
  by_contra hlt
  have hexponent := h.exponent_le hd'
  have hcount := d'.digitCount_pos
  exact h.pow_not_reads (by omega) (h.reads_power hv hd' (by omega))

/-- Of equally many digits only one digit leaves room for a finer grid. -/
theorem digitCount_of_exponent_lt (h : Coarsest v d) (hv : 0 < v) (hd' : Reads v d'.value)
    (hcount : d.digitCount = d'.digitCount) (hlt : d'.exponent < d.exponent) :
    d.digitCount = 1 ∧ Reads v (10 ^ d.exponent) := by
  have hpower := h.reads_power hv hd' (by omega)
  have hpos := d.digitCount_pos
  by_cases hone : d.digitCount = 1
  · refine ⟨hone, ?_⟩
    rwa [hone, Nat.cast_one, sub_self, zero_add] at hpower
  · exact absurd hpower (h.pow_not_reads (by omega))

end Coarsest

/-! ### One digit -/

/-- The least positive number is a bit less than half of a power of ten. -/
theorem least_bounds : (2 : ℚ) * 2 ^ (-1074 : ℤ) < 1 * 10 ^ (-323 : ℤ) ∧
    (10 : ℚ) * 10 ^ (-323 : ℤ) < 21 * 2 ^ (-1074 : ℤ) := by
  have hlo : 2 * 10 ^ 323 < 1 * 2 ^ 1074 := by decide +kernel
  have hhi : 10 * 2 ^ 1074 < 21 * 10 ^ 323 := by decide +kernel
  simp only [zpow_neg, ← div_eq_mul_inv]
  rw [div_lt_div_iff₀ (by positivity) (by positivity), div_lt_div_iff₀ (by positivity) (by positivity)]
  exact ⟨by exact_mod_cast hlo, by exact_mod_cast hhi⟩

/-- A power of ten just above the number is nearer to it than one digit on a finer grid.
There is room for both only among the least numbers. -/
theorem nearer_power {m : ℕ} {k e : ℤ} (hm : 0 < m) (hc : Canonical m k) {a : ℚ}
    (hpower : Reads (m * 2 ^ k) (10 ^ e)) (ha : Reads (m * 2 ^ k) a)
    (habove : (m : ℚ) * 2 ^ k < 10 ^ e) (hdigit : a ≤ 9 / 10 * 10 ^ e) :
    Nearer (m * 2 ^ k) (10 ^ e) a := by
  have hunit : (0 : ℚ) < 2 ^ k := by positivity
  obtain ⟨-, hup⟩ := abs_le.mp (hpower.abs_sub_le hm hc)
  obtain ⟨hdown, -⟩ := abs_le.mp (ha.abs_sub_le hm hc)
  -- ten units reach the power of ten, so the number has at most nine
  have hten : (10 : ℚ) ^ e ≤ 10 * 2 ^ k := by linarith
  have hnine : m < 10 := by
    have hlt : (m : ℚ) * 2 ^ k < 10 * 2 ^ k := habove.trans_le hten
    exact_mod_cast lt_of_mul_lt_mul_right hlt hunit.le
  have hk : k = -1074 := hc.normal.resolve_left (by omega)
  subst hk
  have hone : (1 : ℚ) ≤ m := by exact_mod_cast hm
  obtain ⟨hlo, hhi⟩ := least_bounds
  -- there is one power of ten in reach
  have he : e = -323 := by
    apply le_antisymm
    · by_contra hlt
      have hle : (10 : ℚ) ^ (-323 + 1 : ℤ) ≤ 10 ^ e :=
        zpow_le_zpow_right₀ (by norm_num) (by omega)
      rw [zpow_add_one₀ (by norm_num)] at hle
      linarith
    · by_contra hlt
      have hle : (10 : ℚ) ^ e ≤ 10 ^ (-323 - 1 : ℤ) :=
        zpow_le_zpow_right₀ (by norm_num) (by omega)
      rw [zpow_sub_one₀ (by norm_num)] at hle
      nlinarith
  subst he
  generalize (2 : ℚ) ^ (-1074 : ℤ) = u at *
  generalize (10 : ℚ) ^ (-323 : ℤ) = t at *
  have htwo : m = 2 := by
    have hle : m < 3 := by
      have hlt : (m : ℚ) * u < 3 * u := by linarith
      exact_mod_cast lt_of_mul_lt_mul_right hlt hunit.le
    have hge : 1 < m := by
      by_contra hle
      obtain rfl : m = 1 := by omega
      rw [Nat.cast_one] at hup
      linarith
    omega
  subst htwo
  rw [Nat.cast_ofNat] at *
  left
  rw [abs_of_pos (by linarith), abs_of_neg (by linarith)]
  linarith

namespace Coarsest

/-- **What is nearest on the coarsest grid is preferred** to all other decimals that are
read. -/
theorem best {m : ℕ} {k : ℤ} (hm : 0 < m) (hc : Canonical m k) {d d' : Decimal}
    (h : Coarsest (m * 2 ^ k) d) (hd' : Reads (m * 2 ^ k) d'.value) :
    d.digitCount < d'.digitCount ∨
      d.digitCount = d'.digitCount ∧ Nearer (m * 2 ^ k) d.value d'.value := by
  have hv : (0 : ℚ) < m * 2 ^ k := by positivity
  rcases (h.digitCount_le hv hd').lt_or_eq with hlt | hcount
  · exact .inl hlt
  refine .inr ⟨hcount, ?_⟩
  rcases (h.exponent_le hd').lt_or_eq with hlt | hsame
  · -- a finer grid: one digit, and the power of ten on the coarser grid lies above it
    obtain ⟨hone, hpower⟩ := h.digitCount_of_exponent_lt hv hd' hcount hlt
    have hnear : Nearer (m * 2 ^ k) d.value (10 ^ d.exponent) := by
      simpa using h.closest 1 (by simpa using hpower)
    have hnine : d'.value ≤ 9 / 10 * 10 ^ d.exponent := by
      have hdigit : d'.coefficient ≤ 9 := by
        have := d'.coefficient_lt
        rw [← hcount, hone] at this
        omega
      calc d'.value ≤ 9 * 10 ^ (d.exponent - 1) := by
            unfold Decimal.value
            gcongr
            · exact_mod_cast hdigit
            · norm_num
            · omega
        _ = 9 / 10 * 10 ^ d.exponent := by
            rw [zpow_sub_one₀ (by norm_num)]
            ring
    refine hnear.trans ?_
    rcases le_or_gt ((10 : ℚ) ^ d.exponent) (m * 2 ^ k) with hle | hgt
    · have hpos : (0 : ℚ) < 10 ^ d.exponent := by positivity
      exact nearer_below (by linarith) hle
    · exact nearer_power hm hc hpower hd' hgt hnine
  · -- the same grid
    have hvalue : d'.value = d'.coefficient * 10 ^ d.exponent := by
      rw [← hsame]
      rfl
    rw [hvalue] at hd' ⊢
    exact h.closest _ hd'

end Coarsest

end PenPlotter
