import Mathlib
import PenPlotter.Proofs.Binary64.Rounding

/-!
# Rounding rational numbers to the nearest

The value of the machine number nearest to a rational number, as a function of that
number alone.  It is monotone, it does not see the sign, and it leaves alone what a
machine number has for its value.

## Main definitions

* `overflow` — the first power of two beyond the finite machine numbers.
* `nearest` — the value of the machine number nearest to a rational number.

## Main results

* `nearestEven_mono`, `roundedValue_mono` — the same for one place, and for all places.
* `nearest_mono`, `nearest_neg` — **rounding is monotone** and does not see the sign.
* `nearest_of_multiple` — what needs no rounding.
-/

namespace PenPlotter
namespace Binary64

/-! ### One place -/

theorem floor_le_nearestEven (x : ℚ) : ⌊x⌋ ≤ nearestEven x := by
  unfold nearestEven
  split_ifs <;> omega

theorem nearestEven_mono {x y : ℚ} (h : x ≤ y) : nearestEven x ≤ nearestEven y := by
  rcases (Int.floor_le_floor h).lt_or_eq with hfloor | hfloor
  · have hx := nearestEven_le x
    have hy := floor_le_nearestEven y
    omega
  · -- between the same two integers the fractions decide
    have hfract : Int.fract x ≤ Int.fract y := by
      unfold Int.fract
      rw [hfloor]
      linarith
    unfold nearestEven
    rw [hfloor]
    split_ifs <;> first | omega | linarith

/-! ### All places -/

/-- The value nearest to a number that is not negative, if there were no largest one. -/
def roundedValue (x : ℚ) : ℚ := nearestEven (x / 2 ^ lastPlace x) * 2 ^ lastPlace x

/-- The first power of two beyond the finite machine numbers. -/
@[irreducible] def overflow : ℚ := 2 ^ 1024

/-- The value of the machine number nearest to a rational number. -/
def nearest (x : ℚ) : ℚ :=
  if x < 0 then -min (roundedValue (-x)) overflow else min (roundedValue x) overflow

theorem overflow_pos : 0 < overflow := by
  unfold overflow
  positivity

theorem roundedValue_nonneg {x : ℚ} (h : 0 ≤ x) : 0 ≤ roundedValue x := by
  have hfloor : (0 : ℤ) ≤ ⌊x / 2 ^ lastPlace x⌋ := Int.floor_nonneg.mpr (by positivity)
  have hnearest : (0 : ℚ) ≤ nearestEven (x / 2 ^ lastPlace x) := by
    exact_mod_cast hfloor.trans (floor_le_nearestEven _)
  unfold roundedValue
  positivity

@[simp] theorem roundedValue_zero : roundedValue 0 = 0 := by simp [roundedValue, nearestEven]

theorem lastPlace_mono {x y : ℚ} (hx : 0 < x) (h : x ≤ y) : lastPlace x ≤ lastPlace y := by
  have := Int.log_mono_right (b := 2) hx h
  unfold lastPlace
  omega

/-- A mantissa has at most fifty-three bits, one more after it was rounded up. -/
theorem nearestEven_scaled_le {x : ℚ} (hx : 0 < x) : nearestEven (x / 2 ^ lastPlace x) ≤ 2 ^ 53 := by
  have h1 := nearestEven_le (x / 2 ^ lastPlace x)
  have h2 : ⌊x / 2 ^ lastPlace x⌋ < 2 ^ 53 := Int.floor_lt.mpr (by exact_mod_cast scaled_lt hx)
  omega

/-- Above the least place a mantissa has all fifty-three bits. -/
theorem le_nearestEven_scaled {x : ℚ} (hx : 0 < x) (h : -1074 < lastPlace x) :
    2 ^ 52 ≤ nearestEven (x / 2 ^ lastPlace x) := by
  refine le_trans (Int.le_floor.mpr ?_) (floor_le_nearestEven _)
  rw [le_div_iff₀ (by positivity)]
  have hlog : 52 + lastPlace x ≤ Int.log 2 x := by
    unfold lastPlace at *
    omega
  have hpow := (Int.zpow_le_iff_le_log (b := 2) one_lt_two hx).mpr hlog
  rw [Nat.cast_ofNat, zpow_add₀ two_ne_zero] at hpow
  exact_mod_cast hpow

theorem roundedValue_mono {x y : ℚ} (hx : 0 < x) (h : x ≤ y) : roundedValue x ≤ roundedValue y := by
  unfold roundedValue
  rcases (lastPlace_mono hx h).lt_or_eq with hplace | hplace
  · -- a power of two lies between the two
    have hmin : -1074 ≤ lastPlace x := le_max_right _ _
    have hlo := nearestEven_scaled_le hx
    have hhi := le_nearestEven_scaled (hx.trans_le h) (by omega)
    calc (nearestEven (x / 2 ^ lastPlace x) : ℚ) * 2 ^ lastPlace x
        ≤ 2 ^ 53 * 2 ^ lastPlace x := by gcongr; exact_mod_cast hlo
      _ = 2 ^ 52 * 2 ^ (lastPlace x + 1) := by rw [zpow_add_one₀ two_ne_zero]; ring
      _ ≤ 2 ^ 52 * 2 ^ lastPlace y := by gcongr <;> [norm_num; omega]
      _ ≤ nearestEven (y / 2 ^ lastPlace y) * 2 ^ lastPlace y := by gcongr; exact_mod_cast hhi
  · rw [hplace]
    gcongr
    exact nearestEven_mono (by gcongr)

/-- A multiple of a power of two is not changed, if it has at most fifty-three bits. -/
theorem roundedValue_of_multiple {n : ℕ} {k : ℤ} (hn : n < 2 ^ 53) (hk : -1074 ≤ k) :
    roundedValue (n * 2 ^ k) = n * 2 ^ k := by
  rcases Nat.eq_zero_or_pos n with rfl | hpos
  · simp
  · have hplace : lastPlace (n * 2 ^ k) ≤ k := by
      have hlog := (Nat.log2_lt hpos.ne').mpr hn
      unfold lastPlace
      rw [log_eq hpos.ne' (locates_scaled n k)]
      omega
    obtain ⟨j, hj⟩ := Int.eq_ofNat_of_zero_le (sub_nonneg.mpr hplace)
    have hscaled : (n : ℚ) * 2 ^ k / 2 ^ lastPlace (n * 2 ^ k) = (n * 2 ^ j : ℕ) := by
      rw [mul_div_assoc, ← zpow_sub₀ two_ne_zero, hj, zpow_natCast]
      push_cast
      rfl
    unfold roundedValue
    rw [hscaled, nearestEven_natCast, Int.cast_natCast, ← hscaled]
    field_simp

theorem nearest_of_nonneg {x : ℚ} (h : 0 ≤ x) : nearest x = min (roundedValue x) overflow :=
  if_neg (not_lt.mpr h)

@[simp] theorem nearest_zero : nearest 0 = 0 := by
  rw [nearest_of_nonneg (le_refl 0), roundedValue_zero, min_eq_left overflow_pos.le]

theorem nearest_neg (x : ℚ) : nearest (-x) = -nearest x := by
  rcases lt_trichotomy x 0 with h | rfl | h
  · rw [nearest_of_nonneg (by linarith), nearest, if_pos h, neg_neg]
  · simp
  · rw [nearest_of_nonneg h.le, nearest, if_pos (by linarith), neg_neg]

theorem nearest_nonneg {x : ℚ} (h : 0 ≤ x) : 0 ≤ nearest x := by
  rw [nearest_of_nonneg h]
  exact le_min (roundedValue_nonneg h) overflow_pos.le

/-- **Rounding is monotone.** -/
theorem nearest_mono {x y : ℚ} (h : x ≤ y) : nearest x ≤ nearest y := by
  have hpos : ∀ {x y : ℚ}, 0 < x → x ≤ y → nearest x ≤ nearest y := by
    intro x y hx h
    rw [nearest_of_nonneg hx.le, nearest_of_nonneg (hx.le.trans h)]
    exact min_le_min_right overflow (roundedValue_mono hx h)
  rcases lt_trichotomy 0 x with hx | rfl | hx
  · exact hpos hx h
  · rw [nearest_zero]
    exact nearest_nonneg h
  · rcases lt_or_ge y 0 with hy | hy
    · have := hpos (neg_pos.mpr hy) (neg_le_neg h)
      rw [nearest_neg, nearest_neg] at this
      linarith
    · have := nearest_nonneg (neg_nonneg.mpr hx.le)
      rw [nearest_neg] at this
      linarith [nearest_nonneg hy]

theorem overflow_eq : overflow = 2 ^ 1024 := by
  unfold overflow
  rfl

/-- A multiple of a power of two is not changed, if it has at most fifty-three bits and
is in range. -/
theorem nearest_of_multiple {n : ℕ} {k : ℤ} (hn : n < 2 ^ 53) (hk : -1074 ≤ k)
    (hlt : (n : ℚ) * 2 ^ k ≤ overflow) : nearest (n * 2 ^ k) = n * 2 ^ k := by
  rw [nearest_of_nonneg (by positivity), roundedValue_of_multiple hn hk, min_eq_left hlt]

end Binary64
end PenPlotter
