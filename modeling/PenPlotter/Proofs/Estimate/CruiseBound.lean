import Mathlib
import PenPlotter.Proofs.Estimate.Accuracy

/-!
# Moves against their cruise speed

A move from rest to rest covers no part of its way faster than at cruise speed, so one
would expect it to take at least the time at cruise speed all the way.  The ramps are timed
as if the move entered them at cruise speed, and it takes less.

## Main definitions

* `Move.HasRamps` — neither the ramps nor the way are next to nothing.

## Main results

* `Move.seconds_lt_cruise` — a move with ramps takes less time than at cruise speed.
* `Move.cruise_le_seconds` — a move with negligible ramps takes that time, to nine digits.
* `Move.seconds_below_cruise` — **the time of a move between its bounds.**
-/

namespace PenPlotter

open Binary64

namespace Move

variable {m : Move}

/-- The ramps are neither negligible on the way, nor is the way on them. -/
structure HasRamps (m : Move) : Prop where
  cruise_le : toReal m.cruise * toReal m.cruise ≤ 10 ^ 6 * (toReal m.acceleration * toReal m.length)
  length_le : toReal m.acceleration * toReal m.length ≤ 10 ^ 6 * (toReal m.cruise * toReal m.cruise)

/-- The error of the time, in the two times that it is measured by. -/
theorem abs_seconds_sub_le (h : m.IsOrdinary) : |toReal m.seconds - m.exactSeconds| ≤
    3 / 10 ^ 14 * (toReal m.length / toReal m.cruise + toReal m.cruise / toReal m.acceleration) := by
  have hunit : (2 : ℝ) ^ (-45 : ℤ) ≤ 3 / 10 ^ 14 := by norm_num
  exact (seconds_accurate h).error_le.trans
    (mul_le_mul_of_nonneg_right hunit (moderate_scale h).pos.le)

/-- What the ramps save is more than the roundings can take back. -/
theorem seconds_lt_cruise (h : m.IsOrdinary) (hramps : m.HasRamps) :
    toReal m.seconds < (1 - 10 ^ (-9 : ℤ)) * (toReal m.length / toReal m.cruise) := by
  have hL := h.length.approximates.pos
  have hV := h.cruise.approximates.pos
  have hA := h.acceleration.approximates.pos
  have hle := (abs_le.mp (abs_seconds_sub_le h)).2
  have hcruise := div_pos hL hV
  rcases le_total (toReal m.cruise * toReal m.cruise) (toReal m.acceleration * toReal m.length) with
    hfit | hfit
  · -- each ramp saves a part of its own time
    have hexact : m.exactSeconds = _ := Trapezoid.seconds_of_cruise hL hV hA hfit
    have hroot : √2 ≤ 1415 / 1000 := by
      rw [Real.sqrt_le_left (by norm_num)]
      norm_num
    have hramp : toReal m.cruise / toReal m.acceleration ≤ toReal m.length / toReal m.cruise :=
      (div_le_div_iff₀ hA hV).mpr (by linarith)
    have hlong : toReal m.length / toReal m.cruise ≤
        10 ^ 6 * (toReal m.cruise / toReal m.acceleration) := by
      rw [← mul_div_assoc, div_le_div_iff₀ hV hA]
      linarith [hramps.length_le]
    have hsaved := mul_le_mul_of_nonneg_right (by linarith : 17 / 100 ≤ 3 - 2 * √2)
      (div_pos hV hA).le
    rw [show (Rooted.sqrt 2 : ℝ) = √2 from rfl] at hexact
    linarith
  · have hexact : m.exactSeconds ≤ _ := Trapezoid.seconds_le_of_no_cruise hL hV hA hfit
    have hlong : toReal m.cruise / toReal m.acceleration ≤
        10 ^ 6 * (toReal m.length / toReal m.cruise) := by
      rw [← mul_div_assoc, div_le_div_iff₀ hA hV]
      linarith [hramps.cruise_le]
    have hpart : 1 / 10 ^ 7 ≤
        toReal m.acceleration * toReal m.length / (8 * (toReal m.cruise * toReal m.cruise)) := by
      rw [div_le_div_iff₀ (by norm_num) (by positivity)]
      linarith [hramps.cruise_le]
    have hsaved := mul_le_mul_of_nonneg_right hpart hcruise.le
    linarith

/-- Where the ramps are negligible they save no more than a billionth. -/
theorem cruise_le_seconds (h : m.IsOrdinary)
    (hramps : 10 ^ 9 * (toReal m.cruise * toReal m.cruise) ≤ toReal m.acceleration * toReal m.length) :
    (1 - 10 ^ (-9 : ℤ)) * (toReal m.length / toReal m.cruise) ≤ toReal m.seconds := by
  have hL := h.length.approximates.pos
  have hV := h.cruise.approximates.pos
  have hA := h.acceleration.approximates.pos
  have hle := (abs_le.mp (abs_seconds_sub_le h)).1
  have hfit : toReal m.cruise * toReal m.cruise ≤ toReal m.acceleration * toReal m.length := by
    linarith [mul_pos hV hV]
  have hexact : m.exactSeconds = _ := Trapezoid.seconds_of_cruise hL hV hA hfit
  have hroot : 14 / 10 ≤ √2 := Real.le_sqrt_of_sq_le (by norm_num)
  have hramp : 10 ^ 9 * (toReal m.cruise / toReal m.acceleration) ≤
      toReal m.length / toReal m.cruise := by
    rw [← mul_div_assoc, div_le_div_iff₀ hA hV]
    linarith
  have hsaved := mul_le_mul_of_nonneg_right (by linarith : 3 - 2 * √2 ≤ 1 / 5) (div_pos hV hA).le
  rw [show (Rooted.sqrt 2 : ℝ) = √2 from rfl] at hexact
  linarith [div_pos hL hV]

/-- **A move from rest to rest is timed faster than one at cruise speed.**  Its time is that
of exact arithmetic up to a few roundings, which lies below the time at cruise speed all the
way, and not far below it; the roundings hide that only where the ramps, or the way, are
next to nothing. -/
theorem seconds_below_cruise (h : m.IsOrdinary) :
    Close (2 ^ (-45 : ℤ) * m.scale) m.seconds m.exactSeconds ∧
    (2 * (√2 - 1) * (toReal m.length / toReal m.cruise) ≤ m.exactSeconds ∧
      m.exactSeconds < toReal m.length / toReal m.cruise) ∧
    (toReal m.cruise * toReal m.cruise ≤ toReal m.acceleration * toReal m.length →
      m.exactSeconds = toReal m.length / toReal m.cruise -
        (3 - 2 * √2) * (toReal m.cruise / toReal m.acceleration)) ∧
    (toReal m.acceleration * toReal m.length ≤ toReal m.cruise * toReal m.cruise →
      m.exactSeconds = 2 * ((√(toReal m.cruise * toReal m.cruise +
        toReal m.acceleration * toReal m.length) - toReal m.cruise) / toReal m.acceleration)) ∧
    (m.HasRamps →
      toReal m.seconds < (1 - 10 ^ (-9 : ℤ)) * (toReal m.length / toReal m.cruise)) ∧
    (10 ^ 9 * (toReal m.cruise * toReal m.cruise) ≤ toReal m.acceleration * toReal m.length →
      (1 - 10 ^ (-9 : ℤ)) * (toReal m.length / toReal m.cruise) ≤ toReal m.seconds) := by
  have hL := h.length.approximates.pos
  have hV := h.cruise.approximates.pos
  have hA := h.acceleration.approximates.pos
  exact ⟨seconds_accurate h, ⟨Trapezoid.le_seconds hL hV hA, Trapezoid.seconds_lt hL hV hA⟩,
    Trapezoid.seconds_of_cruise hL hV hA, Trapezoid.seconds_of_no_cruise hL hV hA,
    seconds_lt_cruise h, cruise_le_seconds h⟩

/-- Ramps that just fit. -/
def justFits : Move := ⟨4, 20, 100⟩

theorem toReal_justFits : toReal justFits.length = 4 ∧ toReal justFits.cruise = 20 ∧
    toReal justFits.acceleration = 100 := by
  have hvalues : value justFits.length = 4 ∧ value justFits.cruise = 20 ∧
      value justFits.acceleration = 100 := by decide +kernel
  unfold toReal
  rw [hvalues.1, hvalues.2.1, hvalues.2.2]
  norm_num

theorem seconds_below_cruise_sample : justFits.IsOrdinary ∧ justFits.HasRamps ∧
    toReal justFits.seconds < (1 - 10 ^ (-9 : ℤ)) * (4 / 20) := by
  obtain ⟨hL, hV, hA⟩ := toReal_justFits
  have hordinary : justFits.IsOrdinary := ⟨by decide +kernel, by decide +kernel, by decide +kernel⟩
  have hramps : justFits.HasRamps := by
    constructor <;> rw [hL, hV, hA] <;> norm_num
  refine ⟨hordinary, hramps, ?_⟩
  have hlt := (seconds_below_cruise hordinary).2.2.2.2.1 hramps
  rwa [hL, hV] at hlt

/-- Against the expectation that no move is faster than its cruise speed. -/
theorem seconds_below_cruise_fails :
    (justFits.length.isFinite = true ∧ justFits.cruise.isFinite = true ∧
      justFits.acceleration.isFinite = true) ∧
    (0 < justFits.length ∧ 0 < justFits.cruise ∧ 0 < justFits.acceleration) ∧
    ((justFits.cruise * justFits.cruise).isFinite = true ∧
      (4 * justFits.acceleration).isFinite = true ∧
      (2 * justFits.acceleration * justFits.length).isFinite = true) ∧
    ¬ (1 - 1e-9) * (justFits.length / justFits.cruise) ≤ justFits.seconds := by
  decide +kernel

end Move

end PenPlotter
