import Mathlib
import PenPlotter.Proofs.Binary64.Nearest

/-!
# The error of rounding

One rounding moves a number by at most `2 ^ -53` of itself, unless it is too small to have
all its digits.  Numbers that a few roundings may have taken apart are compared by their
ratio, so that products, quotients, roots, and sums of positive numbers pass on how many
roundings there were.

## Main definitions

* `roundoff` — the part of itself by which one rounding moves a number.
* `Near n x y` — `x` and `y` are as far apart as `n` roundings put them.
* `Moderate k r` — a positive number neither above `2 ^ k` nor below its inverse.

## Main results

* `abs_nearest_sub_le` — **one rounding moves a number by a fixed part of itself.**
* `Near.mul`, `Near.inv`, `Near.add`, `Near.sqrt` — what roundings of operands make of a
  result.
* `Near.abs_sub_le`, `near_of_abs_sub_le` — between ratios and distances.
-/

namespace PenPlotter
namespace Binary64

/-! ### One rounding -/

theorem abs_nearestEven_sub_le (x : ℚ) : |(nearestEven x : ℚ) - x| ≤ 1 / 2 := by
  have hfract := Int.self_sub_floor x
  have hpos := Int.fract_nonneg x
  have hlt := Int.fract_lt_one x
  unfold nearestEven
  split_ifs with hlow hhigh
  · rw [abs_le]
    constructor <;> linarith
  · push_cast
    rw [abs_le]
    constructor <;> linarith
  · -- halfway between two integers either one is as near
    rcases Int.emod_two_eq_zero_or_one ⌊x⌋ with h | h <;> rw [h] <;> push_cast <;> rw [abs_le] <;>
      constructor <;> linarith

theorem two_zpow_lastPlace_le {x : ℚ} (hx : 0 < x) :
    (2 : ℚ) ^ lastPlace x ≤ 2 ^ (-52 : ℤ) * max x (2 ^ (-1022 : ℤ)) := by
  have hpos : (0 : ℚ) < 2 ^ (-52 : ℤ) := by positivity
  unfold lastPlace
  rcases le_total (Int.log 2 x - 52) (-1074) with h | h
  · rw [max_eq_right h, show (-1074 : ℤ) = -52 + -1022 by norm_num, zpow_add₀ two_ne_zero]
    exact mul_le_mul_of_nonneg_left (le_max_right _ _) hpos.le
  · have hlog : (2 : ℚ) ^ Int.log 2 x ≤ x := by
      exact_mod_cast Int.zpow_log_le_self (b := 2) one_lt_two hx
    rw [max_eq_left h, sub_eq_neg_add, zpow_add₀ two_ne_zero]
    exact mul_le_mul_of_nonneg_left (hlog.trans (le_max_left _ _)) hpos.le

/-- Rounding moves a number by at most half a unit of its last place. -/
theorem abs_roundedValue_sub_le_place (x : ℚ) :
    |roundedValue x - x| ≤ 1 / 2 * 2 ^ lastPlace x := by
  have hunit : (0 : ℚ) < 2 ^ lastPlace x := by positivity
  have hscaled : roundedValue x - x =
      (nearestEven (x / 2 ^ lastPlace x) - x / 2 ^ lastPlace x) * 2 ^ lastPlace x := by
    unfold roundedValue
    field_simp
  rw [hscaled, abs_mul, abs_of_pos hunit]
  gcongr
  exact abs_nearestEven_sub_le _

theorem abs_roundedValue_sub_le {x : ℚ} (hx : 0 < x) :
    |roundedValue x - x| ≤ 2 ^ (-53 : ℤ) * max x (2 ^ (-1022 : ℤ)) := by
  have hplace := two_zpow_lastPlace_le hx
  calc |roundedValue x - x| ≤ 1 / 2 * 2 ^ lastPlace x := abs_roundedValue_sub_le_place x
    _ ≤ 1 / 2 * (2 ^ (-52 : ℤ) * max x (2 ^ (-1022 : ℤ))) := by gcongr
    _ = 2 ^ (-53 : ℤ) * max x (2 ^ (-1022 : ℤ)) := by
        rw [← mul_assoc]
        norm_num

/-- **One rounding moves a number by a fixed part of itself**, or of the least number that
has all its digits. -/
theorem abs_nearest_sub_le {x : ℚ} (h : |x| ≤ overflow) :
    |nearest x - x| ≤ 2 ^ (-53 : ℤ) * max |x| (2 ^ (-1022 : ℤ)) := by
  have hpos : ∀ {y : ℚ}, 0 < y → y ≤ overflow →
      |nearest y - y| ≤ 2 ^ (-53 : ℤ) * max y (2 ^ (-1022 : ℤ)) := by
    intro y hy hle
    have hround := abs_roundedValue_sub_le hy
    rw [nearest_of_nonneg hy.le]
    rcases le_total (roundedValue y) overflow with hmin | hmin
    · rwa [min_eq_left hmin]
    · -- what is rounded beyond the overflow stops at it
      rw [min_eq_right hmin]
      refine le_trans ?_ hround
      rw [abs_of_nonneg (by linarith), abs_of_nonneg (by linarith)]
      linarith
  rcases lt_trichotomy x 0 with hx | rfl | hx
  · have hneg := hpos (neg_pos.mpr hx) (by rwa [← abs_of_neg hx])
    rw [abs_of_neg hx]
    rwa [nearest_neg, ← neg_sub', abs_neg] at hneg
  · simp only [nearest_zero, sub_self, abs_zero]
    positivity
  · rw [abs_of_pos hx] at h ⊢
    exact hpos hx h

/-! ### Numbers a few roundings apart -/

/-- The part of itself by which one rounding moves a number at most. -/
noncomputable def roundoff : ℝ := (2 ^ (-53 : ℤ) : ℚ)

theorem roundoff_eq : roundoff = 2 ^ (-53 : ℤ) := by
  unfold roundoff
  push_cast
  rfl

theorem roundoff_pos : 0 < roundoff := by
  rw [roundoff_eq]
  positivity

theorem roundoff_le : roundoff ≤ 1 / 2 ^ 20 := by
  rw [roundoff_eq]
  norm_num

theorem mul_roundoff_le {n : ℕ} (hn : n ≤ 1000) : n * roundoff ≤ 1 / 2 := by
  have hcast : (n : ℝ) ≤ 1000 := by exact_mod_cast hn
  calc n * roundoff ≤ 1000 * (1 / 2 ^ 20) := mul_le_mul hcast roundoff_le roundoff_pos.le (by norm_num)
    _ ≤ 1 / 2 := by norm_num

theorem thousand_mul_roundoff_le {x : ℝ} (hx : 0 ≤ x) : 1000 * (roundoff * x) ≤ x := by
  rw [← mul_assoc]
  exact mul_le_of_le_one_left hx (by linarith [roundoff_le])

/-- Two numbers that are as far apart as `n` roundings put them. -/
structure Near (n : ℕ) (x y : ℝ) : Prop where
  lower : y * (1 - roundoff) ^ n ≤ x
  upper : x * (1 - roundoff) ^ n ≤ y

theorem one_sub_roundoff_pos : 0 < 1 - roundoff := by
  have := roundoff_le
  linarith

theorem one_sub_roundoff_pow_le (n : ℕ) : (1 - roundoff) ^ n ≤ 1 :=
  pow_le_one₀ one_sub_roundoff_pos.le (by linarith [roundoff_pos])

theorem one_sub_mul_roundoff_le (n : ℕ) : 1 - n * roundoff ≤ (1 - roundoff) ^ n := by
  have hbernoulli := one_add_mul_le_pow (a := -roundoff) (by linarith [roundoff_le]) n
  rwa [mul_neg, ← sub_eq_add_neg, ← sub_eq_add_neg] at hbernoulli

theorem one_sub_roundoff_pow_mul_le (n : ℕ) : (1 - roundoff) ^ n * (1 + n * roundoff) ≤ 1 := by
  have hpos := roundoff_pos
  have hbernoulli := one_add_mul_le_pow (a := roundoff) (by linarith) n
  calc (1 - roundoff) ^ n * (1 + n * roundoff)
      ≤ (1 - roundoff) ^ n * (1 + roundoff) ^ n :=
        mul_le_mul_of_nonneg_left hbernoulli (pow_nonneg one_sub_roundoff_pos.le n)
    _ = (1 - roundoff * roundoff) ^ n := by
        rw [← mul_pow]
        ring
    _ ≤ 1 := pow_le_one₀ (by nlinarith [roundoff_le]) (by linarith [mul_pos hpos hpos])

theorem Near.refl (x : ℝ) : Near 0 x x := ⟨by simp, by simp⟩

theorem Near.symm {n : ℕ} {x y : ℝ} (h : Near n x y) : Near n y x := ⟨h.upper, h.lower⟩

theorem Near.trans {m n : ℕ} {x y z : ℝ} (hxy : Near m x y) (hyz : Near n y z) :
    Near (m + n) x z := by
  have hpow : ∀ k, 0 ≤ (1 - roundoff) ^ k := fun k => pow_nonneg one_sub_roundoff_pos.le k
  constructor
  · calc z * (1 - roundoff) ^ (m + n) = z * (1 - roundoff) ^ n * (1 - roundoff) ^ m := by ring
      _ ≤ y * (1 - roundoff) ^ m := mul_le_mul_of_nonneg_right hyz.lower (hpow m)
      _ ≤ x := hxy.lower
  · calc x * (1 - roundoff) ^ (m + n) = x * (1 - roundoff) ^ m * (1 - roundoff) ^ n := by ring
      _ ≤ y * (1 - roundoff) ^ n := mul_le_mul_of_nonneg_right hxy.upper (hpow n)
      _ ≤ z := hyz.upper

theorem Near.pos {n : ℕ} {x y : ℝ} (h : Near n x y) (hy : 0 < y) : 0 < x :=
  (mul_pos hy (pow_pos one_sub_roundoff_pos n)).trans_le h.lower

theorem Near.mono {m n : ℕ} {x y : ℝ} (h : Near m x y) (hy : 0 < y) (hmn : m ≤ n) :
    Near n x y := by
  have hpow : (1 - roundoff) ^ n ≤ (1 - roundoff) ^ m :=
    pow_le_pow_of_le_one one_sub_roundoff_pos.le (by linarith [roundoff_pos]) hmn
  have hx := h.pos hy
  exact ⟨(mul_le_mul_of_nonneg_left hpow hy.le).trans h.lower,
    (mul_le_mul_of_nonneg_left hpow hx.le).trans h.upper⟩

theorem Near.mul {m n : ℕ} {x x' y y' : ℝ} (hx : Near m x x') (hy : Near n y y') (hx' : 0 < x')
    (hy' : 0 < y') : Near (m + n) (x * y) (x' * y') := by
  have hpow : ∀ k, 0 < (1 - roundoff) ^ k := fun k => pow_pos one_sub_roundoff_pos k
  constructor
  · calc x' * y' * (1 - roundoff) ^ (m + n)
        = x' * (1 - roundoff) ^ m * (y' * (1 - roundoff) ^ n) := by ring
      _ ≤ x * y := mul_le_mul hx.lower hy.lower (mul_pos hy' (hpow n)).le (hx.pos hx').le
  · calc x * y * (1 - roundoff) ^ (m + n)
        = x * (1 - roundoff) ^ m * (y * (1 - roundoff) ^ n) := by ring
      _ ≤ x' * y' := mul_le_mul hx.upper hy.upper (mul_pos (hy.pos hy') (hpow n)).le hx'.le

theorem Near.inv {n : ℕ} {x y : ℝ} (h : Near n x y) (hy : 0 < y) : Near n x⁻¹ y⁻¹ := by
  have hx := h.pos hy
  constructor
  · rw [inv_mul_le_iff₀ hy, ← div_eq_mul_inv, le_div_iff₀ hx, mul_comm]
    exact h.upper
  · rw [inv_mul_le_iff₀ hx, ← div_eq_mul_inv, le_div_iff₀ hy, mul_comm]
    exact h.lower

theorem Near.add {n : ℕ} {x x' y y' : ℝ} (hx : Near n x x') (hy : Near n y y') :
    Near n (x + y) (x' + y') := by
  constructor
  · rw [add_mul]
    exact add_le_add hx.lower hy.lower
  · rw [add_mul]
    exact add_le_add hx.upper hy.upper

theorem Near.sqrt {n : ℕ} {x y : ℝ} (h : Near (2 * n) x y) : Near n (√x) (√y) := by
  have hroot : ∀ z : ℝ, √z * (1 - roundoff) ^ n = √(z * (1 - roundoff) ^ (2 * n)) := by
    intro z
    rw [mul_comm 2 n, pow_mul, Real.sqrt_mul' z (sq_nonneg _),
      Real.sqrt_sq (pow_nonneg one_sub_roundoff_pos.le n)]
  constructor
  · rw [hroot]
    exact Real.sqrt_le_sqrt h.lower
  · rw [hroot]
    exact Real.sqrt_le_sqrt h.upper

/-- The smaller one of two numbers is near the one that is no larger but for roundings. -/
theorem near_min {n : ℕ} {x y : ℝ} (hx : 0 < x) (hy : 0 < y) (h : x * (1 - roundoff) ^ n ≤ y) :
    Near n x (min x y) := by
  have hpow := one_sub_roundoff_pow_le n
  refine ⟨?_, le_min (mul_le_of_le_one_right hx.le hpow) h⟩
  exact (mul_le_of_le_one_right (lt_min hx hy).le hpow).trans (min_le_left x y)

/-- The distance that a few roundings make. -/
theorem Near.abs_sub_le {n : ℕ} {x y : ℝ} (h : Near n x y) (hy : 0 < y) (hn : n ≤ 1000) :
    |x - y| ≤ 2 * n * roundoff * y := by
  have hle := one_sub_mul_roundoff_le n
  have hroundoff := roundoff_pos
  have hx := h.pos hy
  have hhalf : n * roundoff ≤ 1 / 2 := mul_roundoff_le hn
  have hlower : y * (1 - n * roundoff) ≤ x := (mul_le_mul_of_nonneg_left hle hy.le).trans h.lower
  have hupper : x * (1 - n * roundoff) ≤ y := (mul_le_mul_of_nonneg_left hle hx.le).trans h.upper
  -- so `x` is at most twice as large
  have htwice : x ≤ 2 * y := by nlinarith
  have hscaled : n * roundoff * x ≤ n * roundoff * (2 * y) := by gcongr
  have hpart : 0 ≤ n * roundoff * y := by positivity
  rw [abs_le]
  constructor <;> linarith

/-- Numbers at a small distance are few roundings apart. -/
theorem near_of_abs_sub_le {n : ℕ} {x y : ℝ} (hy : 0 < y) (h : |x - y| ≤ n * roundoff * y)
    (hn : n ≤ 1000) : Near (2 * n) x y := by
  have hpow : 0 < (1 - roundoff) ^ (2 * n) := pow_pos one_sub_roundoff_pos _
  have hpart : n * roundoff ≤ 1 / 2 := mul_roundoff_le hn
  have hnonneg : 0 ≤ n * roundoff := mul_nonneg n.cast_nonneg roundoff_pos.le
  have hbound := one_sub_roundoff_pow_mul_le (2 * n)
  push_cast at hbound
  rw [mul_assoc] at hbound
  generalize n * roundoff = p at *
  obtain ⟨hlow, hhigh⟩ := abs_le.mp h
  have hlower : (1 - roundoff) ^ (2 * n) ≤ 1 - p := by
    refine le_of_mul_le_mul_right (hbound.trans ?_) (by linarith : 0 < 1 + 2 * p)
    nlinarith
  constructor
  · calc y * (1 - roundoff) ^ (2 * n) ≤ y * (1 - p) := mul_le_mul_of_nonneg_left hlower hy.le
      _ ≤ x := by linarith
  · calc x * (1 - roundoff) ^ (2 * n) ≤ y * (1 + 2 * p) * (1 - roundoff) ^ (2 * n) := by
          gcongr
          nlinarith
      _ = y * ((1 - roundoff) ^ (2 * n) * (1 + 2 * p)) := by ring
      _ ≤ y := mul_le_of_le_one_right hy.le hbound

/-! ### Moderate numbers -/

/-- Neither above `2 ^ k` nor below its inverse. -/
structure Moderate (k : ℕ) (r : ℝ) : Prop where
  lower : (2 ^ k)⁻¹ ≤ r
  upper : r ≤ 2 ^ k

theorem Moderate.pos {k : ℕ} {r : ℝ} (h : Moderate k r) : 0 < r :=
  (by positivity : (0 : ℝ) < (2 ^ k)⁻¹).trans_le h.lower

/-- A moderate number has all its digits, and its half as well. -/
theorem Moderate.two_mul_le {k : ℕ} {r : ℝ} (h : Moderate k r) (hk : k ≤ 1020) :
    2 * 2 ^ (-1022 : ℤ) ≤ r := by
  refine le_trans ?_ h.lower
  calc (2 : ℝ) * 2 ^ (-1022 : ℤ) = (2 ^ 1021)⁻¹ := by
        rw [zpow_neg, show (1022 : ℤ) = (1021 + 1 : ℕ) by rfl, zpow_natCast, pow_succ]
        field_simp
    _ ≤ (2 ^ k)⁻¹ := inv_anti₀ (by positivity) (pow_le_pow_right₀ one_le_two (by omega))

theorem Moderate.tiny_le {k : ℕ} {r : ℝ} (h : Moderate k r) (hk : k ≤ 1020) :
    2 ^ (-1022 : ℤ) ≤ r := by
  have hpos : (0 : ℝ) < 2 ^ (-1022 : ℤ) := by positivity
  have htwo := h.two_mul_le hk
  generalize (2 : ℝ) ^ (-1022 : ℤ) = d at *
  linarith

theorem Moderate.mono {j k : ℕ} {r : ℝ} (h : Moderate j r) (hjk : j ≤ k) : Moderate k r := by
  have hpow : (2 : ℝ) ^ j ≤ 2 ^ k := pow_le_pow_right₀ one_le_two hjk
  exact ⟨(inv_anti₀ (by positivity) hpow).trans h.lower, h.upper.trans hpow⟩

theorem Moderate.mul {j k : ℕ} {r s : ℝ} (hr : Moderate j r) (hs : Moderate k s) :
    Moderate (j + k) (r * s) := by
  constructor
  · rw [pow_add, mul_inv]
    exact mul_le_mul hr.lower hs.lower (by positivity) hr.pos.le
  · rw [pow_add]
    exact mul_le_mul hr.upper hs.upper hs.pos.le (by positivity)

theorem Moderate.inv {k : ℕ} {r : ℝ} (h : Moderate k r) : Moderate k r⁻¹ :=
  ⟨inv_anti₀ h.pos h.upper, inv_le_of_inv_le₀ (by positivity) h.lower⟩

theorem Moderate.div {j k : ℕ} {r s : ℝ} (hr : Moderate j r) (hs : Moderate k s) :
    Moderate (j + k) (r / s) := by
  rw [div_eq_mul_inv]
  exact hr.mul hs.inv

/-- A small multiple of a number of the middle range is in range. -/
theorem Moderate.scaled {k : ℕ} {r c : ℝ} (h : Moderate k r) (hk : k ≤ 1000) (hone : 1 ≤ c)
    (hfour : c ≤ 4) : Moderate 1020 (c * r) := by
  have hc : Moderate 2 c := ⟨by linarith [inv_le_one_of_one_le₀ (by norm_num : (1 : ℝ) ≤ 2 ^ 2)],
    by linarith⟩
  exact (hc.mul h).mono (by omega)

theorem Moderate.add {k : ℕ} {r s : ℝ} (hr : Moderate k r) (hs : Moderate k s) :
    Moderate (k + 1) (r + s) := by
  have hmono := hr.mono (Nat.le_succ k)
  refine ⟨hmono.lower.trans (by linarith [hs.pos]), ?_⟩
  rw [pow_succ]
  linarith [hr.upper, hs.upper]

theorem Moderate.min {k : ℕ} {r s : ℝ} (hr : Moderate k r) (hs : Moderate k s) :
    Moderate k (min r s) := ⟨le_min hr.lower hs.lower, (min_le_left _ _).trans hr.upper⟩

theorem Moderate.sqrt {k : ℕ} {r : ℝ} (h : Moderate k r) : Moderate k (√r) := by
  have hone : (1 : ℝ) ≤ 2 ^ k := one_le_pow₀ one_le_two
  have hroot : (2 : ℝ) ^ k ≤ 2 ^ k * 2 ^ k := le_mul_of_one_le_left (by positivity) hone
  constructor
  · refine Real.le_sqrt_of_sq_le (le_trans ?_ h.lower)
    rw [sq, ← mul_inv]
    exact inv_anti₀ (by positivity) hroot
  · rw [Real.sqrt_le_left (by positivity), sq]
    exact h.upper.trans hroot

/-- A few roundings at most double or halve a number. -/
theorem Moderate.near {k n : ℕ} {x r : ℝ} (h : Moderate k r) (hx : Near n x r) (hn : n ≤ 1000) :
    Moderate (k + 1) x := by
  have hpow : 1 / 2 ≤ (1 - roundoff) ^ n := by
    linarith [one_sub_mul_roundoff_le n, mul_roundoff_le hn]
  have hlower := mul_le_mul_of_nonneg_left hpow h.pos.le
  have hupper := mul_le_mul_of_nonneg_left hpow (hx.pos h.pos).le
  constructor
  · rw [pow_succ, mul_inv]
    linarith [h.lower, hx.lower]
  · rw [pow_succ]
    linarith [h.upper, hx.upper]

end Binary64
end PenPlotter
