import Mathlib
import PenPlotter.Proofs.Binary64.Bounds
import PenPlotter.Proofs.Binary64.RoundingError

/-!
# Computed numbers and exact ones

What is computed with machine numbers stands for the result of exact arithmetic, up to as
many roundings as there were operations.  A difference can lose all of its digits; what is
known about it is its distance from the exact one.

## Main definitions

* `toReal` — the real number that a machine number stands for.
* `Rounds x r` — `x` is `r`, rounded once.
* `Approximates k n x r` — `x` stands for the positive `r` up to `n` roundings, and `r`
  is neither above `2 ^ k` nor below its inverse.
* `Close e x r` — `x` is at most `e` away from `r`.

## Main results

* `rounds_add` and its like — one operation is one rounding.
* `Approximates.mul`, `Approximates.div`, `Approximates.add`, `Approximates.sqrt` — **the
  roundings add up.**
* `Close.add`, `Close.sub`, `Close.div` — **so do the distances.**
-/

namespace PenPlotter
namespace Binary64

/-! ### Real numbers -/

/-- The real number that a machine number stands for. -/
noncomputable def toReal (x : Float) : ℝ := (value x : ℚ)

@[simp] theorem toReal_zero : toReal 0 = 0 := by
  rw [toReal, value_zero, Rat.cast_zero]

theorem toReal_lt_iff {x y : Float} (hx : x.isFinite = true) (hy : y.isFinite = true) :
    x < y ↔ toReal x < toReal y := by
  rw [lt_iff_value (isNaN_of_isFinite hx) (isNaN_of_isFinite hy)]
  exact Rat.cast_lt.symm

theorem toReal_le_iff {x y : Float} (hx : x.isFinite = true) (hy : y.isFinite = true) :
    x ≤ y ↔ toReal x ≤ toReal y := by
  rw [le_iff_value (isNaN_of_isFinite hx) (isNaN_of_isFinite hy)]
  exact Rat.cast_le.symm

/-! ### Single operations -/

/-- A finite number that is `r`, rounded once. -/
structure Rounds (x : Float) (r : ℝ) : Prop where
  isFinite : x.isFinite = true
  abs_sub_le : |toReal x - r| ≤ roundoff * max |r| (2 ^ (-1022 : ℤ))

theorem rounds_of_value {x : Float} {v : ℚ} (h : x.isNaN = false ∧ value x = nearest v)
    (hv : |(v : ℝ)| ≤ 2 ^ 1020) : Rounds x v := by
  have hle : |v| ≤ 2 ^ 1020 := by exact_mod_cast hv
  have hwithin : Within 1020 x := within_of_value (by norm_num) h hle
  refine ⟨hwithin.isFinite, ?_⟩
  have herror := abs_nearest_sub_le (hle.trans (nearest_two_pow (by norm_num : 1020 < 1024)).2.le)
  rw [← h.2, ← Rat.cast_le (K := ℝ)] at herror
  simp only [Rat.cast_abs, Rat.cast_sub, Rat.cast_mul, Rat.cast_max, Rat.cast_zpow,
    Rat.cast_ofNat] at herror
  rw [roundoff_eq]
  exact herror

theorem rounds_add {x y : Float} (hx : x.isFinite = true) (hy : y.isFinite = true)
    (h : |toReal x + toReal y| ≤ 2 ^ 1020) : Rounds (x + y) (toReal x + toReal y) := by
  unfold toReal at *
  exact_mod_cast rounds_of_value (value_add hx hy) (by exact_mod_cast h)

theorem rounds_sub {x y : Float} (hx : x.isFinite = true) (hy : y.isFinite = true)
    (h : |toReal x - toReal y| ≤ 2 ^ 1020) : Rounds (x - y) (toReal x - toReal y) := by
  unfold toReal at *
  exact_mod_cast rounds_of_value (value_sub hx hy) (by exact_mod_cast h)

theorem rounds_mul {x y : Float} (hx : x.isFinite = true) (hy : y.isFinite = true)
    (h : |toReal x * toReal y| ≤ 2 ^ 1020) : Rounds (x * y) (toReal x * toReal y) := by
  unfold toReal at *
  exact_mod_cast rounds_of_value (value_mul hx hy) (by exact_mod_cast h)

theorem rounds_div {x y : Float} (hx : x.isFinite = true) (hy : y.isFinite = true)
    (hpos : 0 < toReal y) (h : |toReal x / toReal y| ≤ 2 ^ 1020) :
    Rounds (x / y) (toReal x / toReal y) := by
  unfold toReal at *
  have hne : value y ≠ 0 := by
    rintro hzero
    rw [hzero] at hpos
    simp at hpos
  exact_mod_cast rounds_of_value (value_div hx hy hne) (by exact_mod_cast h)

/-- In the middle range one rounding is a part of the number. -/
theorem Rounds.near {x : Float} {r : ℝ} (h : Rounds x r) (hr : Moderate 1020 r) :
    Near 1 (toReal x) r := by
  have herror := h.abs_sub_le
  rw [abs_of_pos hr.pos, max_eq_left (hr.tiny_le le_rfl)] at herror
  obtain ⟨hlow, hhigh⟩ := abs_le.mp herror
  have hsquare : 0 ≤ roundoff * roundoff * r :=
    mul_nonneg (mul_self_nonneg roundoff) hr.pos.le
  constructor
  · rw [pow_one]
    linarith
  · calc toReal x * (1 - roundoff) ^ 1 ≤ (r + roundoff * r) * (1 - roundoff) ^ 1 :=
          mul_le_mul_of_nonneg_right (by linarith) (by rw [pow_one]; exact one_sub_roundoff_pos.le)
      _ ≤ r := by linarith

/-! ### Computed numbers -/

/-- A finite number that stands for the positive number `r`, of the order of `2 ^ k` or its
inverse at most, up to `n` roundings. -/
structure Approximates (k n : ℕ) (x : Float) (r : ℝ) : Prop where
  isFinite : x.isFinite = true
  moderate : Moderate k r
  near : Near n (toReal x) r

/-- A natural number stands for itself. -/
theorem approximates_natCast {k n : ℕ} (hpos : 0 < n) (hn : n < 2 ^ 53) (hk : n ≤ 2 ^ k) :
    Approximates k 0 (Float.ofNat n) n := by
  obtain ⟨hfinite, hvalue⟩ := value_natCast hn
  have hone : (1 : ℝ) ≤ n := by exact_mod_cast hpos
  have hpow : (1 : ℝ) ≤ 2 ^ k := one_le_pow₀ one_le_two
  refine ⟨hfinite, ⟨(inv_le_one_of_one_le₀ hpow).trans hone, by exact_mod_cast hk⟩, ?_⟩
  rw [toReal, hvalue, Rat.cast_natCast]
  exact Near.refl n

namespace Approximates

variable {j k m n : ℕ} {x y : Float} {r s : ℝ}

theorem pos (h : Approximates k n x r) : 0 < toReal x := h.near.pos h.moderate.pos

theorem mono (h : Approximates j m x r) (hjk : j ≤ k) (hmn : m ≤ n) : Approximates k n x r :=
  ⟨h.isFinite, h.moderate.mono hjk, h.near.mono h.moderate.pos hmn⟩

theorem trans (h : Approximates k m x r) (hrs : Near n r s) (hs : Moderate k s) :
    Approximates k (m + n) x s := ⟨h.isFinite, hs, h.near.trans hrs⟩

/-- What is approximated depends on the value only. -/
theorem congr (h : Approximates k n x r) (hnan : y.isNaN = false) (hvalue : value y = value x) :
    Approximates k n y r := by
  have hfinite := ((isFinite_iff_abs_lt x).mp h.isFinite).2
  rw [← hvalue] at hfinite
  refine ⟨(isFinite_iff_abs_lt y).mpr ⟨hnan, hfinite⟩, h.moderate, ?_⟩
  rw [toReal, hvalue]
  exact h.near

theorem of_sameNumber (h : Approximates k n x r) (hyx : SameNumber y x) : Approximates k n y r := by
  refine h.congr (hyx.isNaN_eq.trans (isNaN_of_isFinite h.isFinite)) ?_
  rw [sameNumber_iff] at hyx
  unfold value
  generalize parts y = u, parts x = w at hyx
  cases hyx with
  | refl => rfl
  | zero => rfl

theorem add_zero (h : Approximates k n x r) : Approximates k n (x + 0) r := by
  have hsum := value_add h.isFinite (rfl : (0 : Float).isFinite = true)
  refine h.congr hsum.1 ?_
  rw [add_comm_eq, (value_add rfl h.isFinite).2, value_zero, zero_add, nearest_value h.isFinite]

/-- One more operation is one more rounding. -/
theorem of_rounds {z : ℝ} (h : Moderate 1020 z → Rounds x z) (hz : Near n z r) (hr : Moderate k r)
    (hk : k < 1020) (hn : n ≤ 1000) : Approximates k (n + 1) x r := by
  have hmoderate : Moderate 1020 z := (hr.near hz hn).mono (by omega)
  have hround := h hmoderate
  refine ⟨hround.isFinite, hr, ?_⟩
  rw [add_comm]
  exact (hround.near hmoderate).trans hz

theorem mul (hx : Approximates j m x r) (hy : Approximates k n y s) (hjk : j + k < 1020)
    (hmn : m + n ≤ 1000) : Approximates (j + k) (m + n + 1) (x * y) (r * s) := by
  refine of_rounds (fun h => rounds_mul hx.isFinite hy.isFinite ?_)
    (hx.near.mul hy.near hx.moderate.pos hy.moderate.pos) (hx.moderate.mul hy.moderate) hjk hmn
  rw [abs_of_pos h.pos]
  exact h.upper

theorem div (hx : Approximates j m x r) (hy : Approximates k n y s) (hjk : j + k < 1020)
    (hmn : m + n ≤ 1000) : Approximates (j + k) (m + n + 1) (x / y) (r / s) := by
  have hnear := hx.near.mul (hy.near.inv hy.moderate.pos) hx.moderate.pos
    (inv_pos.mpr hy.moderate.pos)
  rw [← div_eq_mul_inv, ← div_eq_mul_inv] at hnear
  refine of_rounds (fun h => rounds_div hx.isFinite hy.isFinite hy.pos ?_) hnear
    (hx.moderate.div hy.moderate) hjk hmn
  rw [abs_of_pos h.pos]
  exact h.upper

theorem add (hx : Approximates j m x r) (hy : Approximates k n y s) (hjk : max j k + 1 < 1020)
    (hmn : max m n ≤ 1000) : Approximates (max j k + 1) (max m n + 1) (x + y) (r + s) := by
  have hx' := hx.mono (le_max_left j k) (le_max_left m n)
  have hy' := hy.mono (le_max_right j k) (le_max_right m n)
  refine of_rounds (fun h => rounds_add hx.isFinite hy.isFinite ?_)
    (hx'.near.add hy'.near) (hx'.moderate.add hy'.moderate) hjk hmn
  rw [abs_of_pos h.pos]
  exact h.upper

end Approximates

/-! ### Roots -/

/-- What lies in the same unit as a root is no more than its own last place away from it. -/
theorem Brackets.abs_sqrt_sub_le {m : ℕ} {e : ℤ} {q : ℚ} {t : ℤ} {n : ℕ} (h : Brackets m e q t n) :
    |√((m * 2 ^ e : ℚ) : ℝ) - q| ≤ ((2 ^ lastPlace q : ℚ) : ℝ) := by
  have hlow : (((n : ℚ) * 2 ^ t : ℚ) : ℝ) ≤ √((m * 2 ^ e : ℚ) : ℝ) :=
    Real.le_sqrt_of_sq_le (by exact_mod_cast h.sq_le)
  have hhigh : √((m * 2 ^ e : ℚ) : ℝ) < ((((n : ℚ) + 1) * 2 ^ t : ℚ) : ℝ) := by
    rw [Real.sqrt_lt' (by exact_mod_cast (by positivity : (0 : ℚ) < (n + 1) * 2 ^ t))]
    exact_mod_cast h.lt_sq
  have hunit : ((2 ^ t : ℚ) : ℝ) ≤ ((2 ^ lastPlace q : ℚ) : ℝ) :=
    Rat.cast_le.mpr (zpow_le_zpow_right₀ one_le_two h.unit)
  have hle : (((n : ℚ) * 2 ^ t : ℚ) : ℝ) ≤ q := by exact_mod_cast h.le
  have hlt : (q : ℝ) < ((((n : ℚ) + 1) * 2 ^ t : ℚ) : ℝ) := by exact_mod_cast h.lt
  push_cast at *
  rw [abs_le]
  constructor <;> linarith

/-- A root is rounded from a number that is no more than its own last place away from it. -/
theorem value_sqrt {x : Float} (hx : x.isFinite = true) (hpos : 0 < toReal x) :
    ∃ q : ℚ, (x.sqrt.isNaN = false ∧ value x.sqrt = nearest q) ∧ 0 < q ∧
      |√(toReal x) - q| ≤ ((2 ^ lastPlace q : ℚ) : ℝ) := by
  have hvalue : 0 < value x := Rat.cast_pos.mp hpos
  rcases parts_of_pos ((pos_iff_value (isNaN_of_isFinite hx)).mpr hvalue) with hu | ⟨m, e, hm, hu⟩
  · rw [isFinite_eq, hu] at hx
    cases hx
  · obtain ⟨q, t, n, hbrackets, hrounded⟩ := sqrt_eq_rounded hm e
    have hsqrt : x.sqrt = ofParts (rounded .positive q) := by
      rw [← hrounded, ← hu]
      rfl
    have hreal : toReal x = ((m * 2 ^ e : ℚ) : ℝ) := by
      unfold toReal
      rw [value_of_finite hu]
      simp [Float.Model.UnpackedFloat.Sign.apply]
    rw [hsqrt, hreal]
    exact ⟨q, value_ofParts_positive hbrackets.pos, hbrackets.pos, hbrackets.abs_sqrt_sub_le⟩

/-- In the middle range a last place is two roundings. -/
theorem near_of_abs_sub_le_lastPlace {z : ℝ} (hz : Moderate 1000 z) {q : ℚ} (hq : 0 < q)
    (h : |z - q| ≤ ((2 ^ lastPlace q : ℚ) : ℝ)) : Near 4 z q := by
  have hplace := two_zpow_lastPlace_le hq
  rw [← Rat.cast_le (K := ℝ)] at hplace
  have hunit := h.trans hplace
  simp only [Rat.cast_mul, Rat.cast_max, Rat.cast_zpow, Rat.cast_ofNat] at hunit
  have htwo : (2 : ℝ) ^ (-52 : ℤ) = 2 * roundoff := by
    rw [roundoff_eq]
    norm_num
  rw [htwo] at hunit
  -- a number without all its digits would be too far away
  have hdigits : (2 : ℝ) ^ (-1022 : ℤ) ≤ q := by
    have hlarge := hz.two_mul_le (by norm_num)
    have hsmall : (0 : ℝ) < 2 ^ (-1022 : ℤ) := by positivity
    generalize (2 : ℝ) ^ (-1022 : ℤ) = d at *
    by_contra hlt
    rw [max_eq_right (not_le.mp hlt).le] at hunit
    have hpart : 2 * roundoff * d ≤ 1 / 2 * d :=
      mul_le_mul_of_nonneg_right (by linarith [roundoff_le]) hsmall.le
    linarith [(abs_le.mp hunit).2, not_le.mp hlt]
  rw [max_eq_left hdigits] at hunit
  exact near_of_abs_sub_le (n := 2) (Rat.cast_pos.mpr hq) (by exact_mod_cast hunit) (by norm_num)

/-- A root counts for five roundings. -/
theorem Approximates.sqrt {k n : ℕ} {x : Float} {r : ℝ} (hx : Approximates k (2 * n) x r)
    (hk : k < 1000) (hn : n ≤ 500) : Approximates k (n + 5) x.sqrt (√r) := by
  obtain ⟨q, hvalue, hpos, herror⟩ := value_sqrt hx.isFinite hx.pos
  have hroot : Moderate 1000 (√(toReal x)) :=
    ((hx.moderate.near hx.near (by omega)).mono (by omega)).sqrt
  have hnear := near_of_abs_sub_le_lastPlace hroot hpos herror
  have hmoderate : Moderate 1020 q := (hroot.near hnear.symm (by norm_num)).mono (by norm_num)
  have hround : Rounds x.sqrt q := by
    refine rounds_of_value hvalue ?_
    rw [abs_of_pos hmoderate.pos]
    exact hmoderate.upper
  refine ⟨hround.isFinite, hx.moderate.sqrt, ?_⟩
  rw [show n + 5 = 1 + 4 + n by omega]
  exact ((hround.near hmoderate).trans hnear.symm).trans hx.near.sqrt

/-! ### Distances -/

/-- A finite number that is at most `e` away from `r`. -/
structure Close (e : ℝ) (x : Float) (r : ℝ) : Prop where
  isFinite : x.isFinite = true
  error_le : |toReal x - r| ≤ e

theorem Approximates.close {k n : ℕ} {x : Float} {r : ℝ} (h : Approximates k n x r)
    (hn : n ≤ 1000) : Close (2 * n * roundoff * r) x r :=
  ⟨h.isFinite, h.near.abs_sub_le h.moderate.pos hn⟩

namespace Close

variable {e f b : ℝ} {x y : Float} {r s : ℝ}

theorem exact (hx : x.isFinite = true) : Close 0 x (toReal x) := ⟨hx, by rw [sub_self, abs_zero]⟩

theorem mono (h : Close e x r) (hle : e ≤ f) : Close f x r := ⟨h.isFinite, h.error_le.trans hle⟩

theorem neg (h : Close e x r) : Close e (-x) (-r) := by
  refine ⟨(isFinite_neg x).trans h.isFinite, ?_⟩
  unfold toReal
  rw [value_neg, Rat.cast_neg, neg_sub_neg, abs_sub_comm]
  exact h.error_le

/-- Rounding adds its part of a bound for what is rounded. -/
theorem of_rounds {z : ℝ} (h : |z| ≤ 2 ^ 1020 → Rounds x z) (hz : |z - r| ≤ e) (hb : |r| + e ≤ b)
    (hmoderate : Moderate 1020 b) : Close (e + roundoff * b) x r := by
  have hle : |z| ≤ b := by
    have := abs_add_le r (z - r)
    rw [add_sub_cancel] at this
    linarith
  have hround := h (hle.trans hmoderate.upper)
  refine ⟨hround.isFinite, ?_⟩
  have hpart := mul_le_mul_of_nonneg_left (max_le hle (hmoderate.tiny_le le_rfl)) roundoff_pos.le
  have htriangle := abs_sub_le (toReal x) z r
  linarith [hround.abs_sub_le]

theorem add (hx : Close e x r) (hy : Close f y s) (hb : |r + s| + (e + f) ≤ b)
    (hmoderate : Moderate 1020 b) : Close (e + f + roundoff * b) (x + y) (r + s) := by
  refine of_rounds (rounds_add hx.isFinite hy.isFinite) ?_ hb hmoderate
  rw [add_sub_add_comm]
  exact (abs_add_le _ _).trans (add_le_add hx.error_le hy.error_le)

theorem sub (hx : Close e x r) (hy : Close f y s) (hb : |r - s| + (e + f) ≤ b)
    (hmoderate : Moderate 1020 b) : Close (e + f + roundoff * b) (x - y) (r - s) := by
  refine of_rounds (rounds_sub hx.isFinite hy.isFinite) ?_ hb hmoderate
  rw [sub_sub_sub_comm]
  exact (abs_sub _ _).trans (add_le_add hx.error_le hy.error_le)

/-- Division by a number that is known exactly. -/
theorem div (hx : Close e x r) (hy : y.isFinite = true) (hpos : 0 < toReal y)
    (hb : (|r| + e) / toReal y ≤ b) (hmoderate : Moderate 1020 b) :
    Close (e / toReal y + roundoff * b) (x / y) (r / toReal y) := by
  refine of_rounds (rounds_div hx.isFinite hy hpos) ?_ ?_ hmoderate
  · rw [← sub_div, abs_div, abs_of_pos hpos]
    exact div_le_div_of_nonneg_right hx.error_le hpos.le
  · rw [abs_div, abs_of_pos hpos, ← add_div]
    exact hb

end Close

end Binary64
end PenPlotter
