import Mathlib
import PenPlotter.Proofs.Binary64.Nonnegative
import PenPlotter.Proofs.Binary64.RoundingError

/-!
# Which decimals are read as a number

A decimal of any size is read as the number nearest to its value, so those that are
read as one number are those in an interval around its value: it holds everything less
than half a unit of the last place above the value, and nothing farther away than that.

## Main definitions

* `Reads` — a rational number is rounded to a given value.

## Main results

* `value_toFloat` — **every decimal is read as the number nearest to its value.**
* `toFloat_eq_iff` — a decimal is read as a number if its value is rounded to that of
  the number.
* `Reads.between` — what lies between two numbers that are read as a third is read as it.
* `Reads.abs_sub_le`, `reads_of_lt` — how far the interval reaches.
-/

namespace PenPlotter
namespace Binary64

open Float.Model
open Float.Model.UnpackedFloat (Sign)

/-! ### Both ends of the range -/

theorem nearest_of_overflow_le {x : ℚ} (h : overflow ≤ x) : nearest x = overflow := by
  have hoverflow : nearest overflow = overflow := by
    have hpow : ((2 ^ 52 : ℕ) : ℚ) * 2 ^ (971 + 1 : ℤ) = overflow := by
      rw [← two_zpow_eq_overflow, zpow_add_one₀ two_ne_zero, Nat.cast_pow, Nat.cast_ofNat]
      generalize (2 : ℚ) ^ (971 : ℤ) = a
      norm_num
      ring
    have hexact := nearest_of_multiple (n := 2 ^ 52) (k := 971 + 1) (by norm_num) (by norm_num)
      hpow.le
    rwa [hpow] at hexact
  refine le_antisymm ?_ (hoverflow.symm.le.trans (nearest_mono h))
  rw [nearest_of_nonneg (overflow_pos.le.trans h)]
  exact min_le_right _ _

theorem nearestEven_of_lt_half {n : ℕ} {y : ℚ} (hlo : n ≤ y) (hhi : y < n + 1 / 2) :
    nearestEven y = n := by
  have hfloor : ⌊y⌋ = n := by
    rw [Int.floor_eq_iff]
    exact ⟨by exact_mod_cast hlo, by push_cast; linarith⟩
  have hfract : Int.fract y < 1 / 2 := by
    rw [Int.fract, hfloor, Int.cast_natCast]
    linarith
  rw [nearestEven, if_pos hfract, hfloor]

/-- What is far below the least number is rounded to zero. -/
theorem nearest_of_small {x : ℚ} (hx : 0 < x) (h : x < 2 ^ (-1075 : ℤ)) : nearest x = 0 := by
  have hlog : Int.log 2 x < -1075 := (Int.lt_zpow_iff_log_lt one_lt_two hx).mp (by exact_mod_cast h)
  have hplace : lastPlace x = -1074 := by
    unfold lastPlace
    omega
  have hhalf : x / 2 ^ (-1074 : ℤ) < (0 : ℕ) + 1 / 2 := by
    rw [div_lt_iff₀ (by positivity)]
    refine h.trans_eq ?_
    rw [show (-1074 : ℤ) = -1075 + 1 by norm_num, zpow_add_one₀ two_ne_zero, Nat.cast_zero]
    ring
  rw [nearest_of_nonneg hx.le, roundedValue, hplace,
    nearestEven_of_lt_half (n := 0) (by simp; positivity) hhalf]
  simp [overflow_pos.le]

/-! ### Reading -/

theorem ofScientific_of_exponent {c k : ℕ} (hk : 22 < k) (below : Bool) :
    Float.ofScientific c below k =
      ofParts (UnpackedFloat.ofScientific Format.binary64 c (if below then -k else k)) := by
  have hlarge : ¬ (c < 2 ^ 53 ∧ k ≤ 22) := by
    intro h
    omega
  unfold Float.ofScientific
  rw [dif_neg hlarge]
  cases below
  · rfl
  · dsimp only
    rw [Int.negOfNat_eq]
    rfl

theorem toFloat_of_exponent {d : Decimal} (h : 22 < d.exponent.natAbs) :
    d.toFloat = ofParts (UnpackedFloat.ofScientific Format.binary64 d.coefficient d.exponent) := by
  unfold Decimal.toFloat
  rw [ofScientific_of_exponent h]
  congr 2
  by_cases hneg : d.exponent < 0
  · rw [if_pos (decide_eq_true hneg)]
    omega
  · rw [if_neg (by simpa using hneg)]
    omega

/-- A power of ten that is too large is read as infinity. -/
theorem value_toFloat_of_large {d : Decimal} (hc : 0 < d.coefficient) (h : 2048 < d.exponent) :
    d.toFloat.isNaN = false ∧ value d.toFloat = nearest d.value := by
  have hread : UnpackedFloat.ofScientific Format.binary64 d.coefficient d.exponent =
      .infinity .positive := by
    unfold UnpackedFloat.ofScientific
    rw [dif_neg hc.ne', if_pos (by norm_num; omega)]
  have hlarge : overflow ≤ d.value := by
    have hone : (1 : ℚ) ≤ d.coefficient := by exact_mod_cast hc
    calc overflow = 2 ^ (1024 : ℤ) := by rw [overflow_eq, ← zpow_natCast]; rfl
      _ ≤ 2 ^ d.exponent := zpow_le_zpow_right₀ one_le_two (by omega)
      _ ≤ 10 ^ d.exponent := zpow_le_zpow_left₀ (by omega) (by norm_num) (by norm_num)
      _ ≤ d.value := le_mul_of_one_le_left (by positivity) hone
  rw [toFloat_of_exponent (by omega), hread, nearest_of_overflow_le hlarge]
  exact ⟨rfl, value_of_infinity rfl⟩

/-- A power of ten that is too small for its digits is read as zero. -/
theorem value_toFloat_of_small {d : Decimal} (hc : 0 < d.coefficient)
    (h : d.exponent < -(2048 + (d.coefficient.log2 : ℤ))) :
    d.toFloat.isNaN = false ∧ value d.toFloat = nearest d.value := by
  have hread : UnpackedFloat.ofScientific Format.binary64 d.coefficient d.exponent =
      .zero .positive := by
    unfold UnpackedFloat.ofScientific
    rw [dif_neg hc.ne', if_neg (by norm_num; omega), if_pos (by norm_num; omega)]
  have hpower : (10 : ℚ) ^ d.exponent ≤ 2 ^ d.exponent := by
    obtain ⟨k, hk⟩ := Int.eq_ofNat_of_zero_le (by omega : 0 ≤ -d.exponent)
    rw [← neg_neg d.exponent, hk, zpow_neg, zpow_neg, zpow_natCast, zpow_natCast]
    gcongr
    norm_num
  have hsmall : d.value < 2 ^ (-1075 : ℤ) := by
    have hlog : (d.coefficient : ℚ) < 2 ^ ((d.coefficient.log2 : ℤ) + 1) := by
      exact_mod_cast Nat.lt_log2_self
    calc d.value < 2 ^ ((d.coefficient.log2 : ℤ) + 1) * 10 ^ d.exponent := by
          unfold Decimal.value
          gcongr
      _ ≤ 2 ^ ((d.coefficient.log2 : ℤ) + 1) * 2 ^ d.exponent := by gcongr
      _ = 2 ^ ((d.coefficient.log2 : ℤ) + 1 + d.exponent) := (zpow_add₀ two_ne_zero _ _).symm
      _ ≤ 2 ^ (-1075 : ℤ) := zpow_le_zpow_right₀ one_le_two (by omega)
  have hpos : 0 < d.value := by
    unfold Decimal.value
    positivity
  rw [toFloat_of_exponent (by omega), hread, nearest_of_small hpos hsmall]
  exact value_ofParts_zero .positive

/-- **Every decimal is read as the number nearest to its value.** -/
theorem value_toFloat (d : Decimal) :
    d.toFloat.isNaN = false ∧ value d.toFloat = nearest d.value := by
  rcases Nat.eq_zero_or_pos d.coefficient with hc | hc
  · rw [Decimal.toFloat_of_zero hc, Decimal.value, hc, Nat.cast_zero, zero_mul, nearest_zero]
    exact ⟨rfl, rfl⟩
  · by_cases hhigh : 2048 < d.exponent
    · exact value_toFloat_of_large hc hhigh
    · by_cases hlow : d.exponent < -(2048 + (d.coefficient.log2 : ℤ))
      · exact value_toFloat_of_small hc hlow
      · have hpos : 0 < d.value := by
          unfold Decimal.value
          positivity
        rw [toFloat_eq_rounded hc.ne' (not_lt.mp hhigh) (not_lt.mp hlow)]
        exact value_ofParts_positive hpos

/-- Numbers other than zero with one value are one number. -/
theorem eq_of_value {x y : Float} (hx : x.isNaN = false) (hy : y.isNaN = false)
    (h : value x = value y) (hzero : value y ≠ 0) : x = y := by
  have hbeq := (beq_iff_value hx hy).mpr h
  have hsame := (sameNumber_iff x y).mp (.inl hbeq)
  apply parts_injective
  generalize hu : parts x = u at hsame
  generalize hv : parts y = v at hsame
  cases hsame with
  | refl => rfl
  | zero s t => exact absurd (value_of_zero hv) hzero

/-! ### Intervals -/

/-- A rational number is rounded to the value `v`. -/
def Reads (v q : ℚ) : Prop := nearest q = v

/-- **A decimal is read as a number** if its value is rounded to that of the number. -/
theorem toFloat_eq_iff {x : Float} (hx : x.isNaN = false) (hzero : value x ≠ 0) (d : Decimal) :
    d.toFloat = x ↔ Reads (value x) d.value := by
  obtain ⟨hnan, hvalue⟩ := value_toFloat d
  unfold Reads
  rw [← hvalue]
  constructor
  · intro h
    rw [h]
  · intro h
    exact eq_of_value hnan hx h hzero

/-- **What lies between two numbers that are read as a third is read as it too.** -/
theorem Reads.between {v a b q : ℚ} (ha : Reads v a) (hb : Reads v b) (hlo : a ≤ q) (hhi : q ≤ b) :
    Reads v q :=
  le_antisymm ((nearest_mono hhi).trans_eq hb) (ha.symm.trans_le (nearest_mono hlo))

theorem Reads.pos {v q : ℚ} (h : Reads v q) (hv : 0 < v) : 0 < q := by
  by_contra hq
  have hle := nearest_mono (not_lt.mp hq)
  rw [nearest_zero, h] at hle
  exact absurd hv (not_lt.mpr hle)

section Canonical

variable {m : ℕ} {k : ℤ}

theorem reads_self (hc : Canonical m k) : Reads (m * 2 ^ k) (m * 2 ^ k) :=
  nearest_of_multiple hc.lt hc.ge hc.value_lt.le

/-- What is read as a number has not more digits in front of the last place. -/
theorem Reads.lt (hc : Canonical m k) {q : ℚ} (h : Reads (m * 2 ^ k) q) : q < 2 ^ (53 + k) := by
  by_contra hq
  have hpow : ((2 ^ 52 : ℕ) : ℚ) * 2 ^ (k + 1) = 2 ^ (53 + k) := by
    rw [zpow_add_one₀ two_ne_zero, zpow_add₀ two_ne_zero, Nat.cast_pow, Nat.cast_ofNat]
    norm_num
    ring
  have hle : (2 : ℚ) ^ (53 + k) ≤ overflow := by
    have := hc.le
    rw [← two_zpow_eq_overflow, ← zpow_add₀ two_ne_zero]
    exact zpow_le_zpow_right₀ one_le_two (by omega)
  have hge := hc.ge
  have hexact := nearest_of_multiple (n := 2 ^ 52) (k := k + 1) (by norm_num) (by omega)
    (hpow.trans_le hle)
  have hmono := nearest_mono (not_lt.mp hq)
  rw [← hpow, hexact, hpow, h, zpow_add₀ two_ne_zero] at hmono
  have hm : (m : ℚ) < 2 ^ (53 : ℤ) := by exact_mod_cast hc.lt
  exact absurd (mul_lt_mul_of_pos_right hm (by positivity : (0 : ℚ) < 2 ^ k)) (not_lt.mpr hmono)

theorem lastPlace_le_of_lt (hc : Canonical m k) {q : ℚ} (hq : 0 < q) (h : q < 2 ^ (53 + k)) :
    lastPlace q ≤ k := by
  have hlog := (Int.lt_zpow_iff_log_lt (b := 2) one_lt_two hq).mp (by exact_mod_cast h)
  have hge := hc.ge
  unfold lastPlace
  omega

/-- **Nothing is read as a number that is farther away** than half a unit of the last
place. -/
theorem Reads.abs_sub_le (hm : 0 < m) (hc : Canonical m k) {q : ℚ} (h : Reads (m * 2 ^ k) q) :
    |q - m * 2 ^ k| ≤ 1 / 2 * 2 ^ k := by
  have hq : 0 < q := h.pos (by positivity)
  have hplace := lastPlace_le_of_lt hc hq (h.lt hc)
  have hrounded : roundedValue q = m * 2 ^ k := by
    have hmin : min (roundedValue q) overflow = m * 2 ^ k := by
      rw [← nearest_of_nonneg hq.le]
      exact h
    rcases min_choice (roundedValue q) overflow with hchoice | hchoice
    · rw [← hmin, hchoice]
    · exact absurd hc.value_lt (by rw [← hmin, hchoice]; exact lt_irrefl _)
  calc |q - m * 2 ^ k| = |roundedValue q - q| := by rw [hrounded, abs_sub_comm]
    _ ≤ 1 / 2 * 2 ^ lastPlace q := abs_roundedValue_sub_le_place q
    _ ≤ 1 / 2 * 2 ^ k := by gcongr; norm_num

/-- **What is less than half a unit of the last place above a number is read as it.** -/
theorem reads_of_lt (hm : 0 < m) (hc : Canonical m k) {q : ℚ} (hlo : m * 2 ^ k ≤ q)
    (hhi : q < m * 2 ^ k + 1 / 2 * 2 ^ k) : Reads (m * 2 ^ k) q := by
  have hunit : (0 : ℚ) < 2 ^ k := by positivity
  have hpos : 0 < q := lt_of_lt_of_le (by positivity) hlo
  have hlt : q < 2 ^ (53 + k) := by
    have hm' : (m : ℚ) + 1 ≤ 2 ^ (53 : ℤ) := by exact_mod_cast hc.lt
    calc q < (m + 1) * 2 ^ k := by linarith
      _ ≤ 2 ^ (53 : ℤ) * 2 ^ k := by gcongr
      _ = 2 ^ (53 + k) := (zpow_add₀ two_ne_zero _ _).symm
  have hplace : lastPlace q = k := by
    refine le_antisymm (lastPlace_le_of_lt hc hpos hlt) ?_
    rw [← lastPlace_of_canonical hm hc]
    exact lastPlace_mono (by positivity) hlo
  have hscaled : (m : ℚ) ≤ q / 2 ^ k ∧ q / 2 ^ k < m + 1 / 2 := by
    rw [le_div_iff₀ hunit, div_lt_iff₀ hunit]
    exact ⟨hlo, by linarith⟩
  unfold Reads
  rw [nearest_of_nonneg hpos.le, roundedValue, hplace, nearestEven_of_lt_half hscaled.1 hscaled.2,
    Int.cast_natCast, min_eq_left hc.value_lt.le]

end Canonical

end Binary64
end PenPlotter
