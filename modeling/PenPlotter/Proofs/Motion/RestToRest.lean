import Mathlib
import PenPlotter.Motion.Trapezoid

/-!
# Moves from rest to rest in exact arithmetic

In an ordered field with square roots the time of a move has a closed form on each
side of the length at which its two ramps just fit.  A ramp is counted as if the move
had its cruise speed already when it comes up to it, so a move from rest to rest takes
less time than one at cruise speed all the way, and at least a fixed part of it.

## Main definitions

* `LawfulRoot` — the square root is the one of exact arithmetic.
* `Trapezoid.rampWay` — the way of one ramp.

## Main results

* `Trapezoid.rampSeconds_eq` — the time of a ramp.
* `Trapezoid.seconds_eq` — **the time of a move is that of a cruise and two equal ramps.**
* `Trapezoid.seconds_of_cruise`, `Trapezoid.seconds_of_no_cruise` — the same where the
  ramps fit, and where they do not.
* `Trapezoid.seconds_le_of_no_cruise` — what ramps save that do not fit.
* `Trapezoid.seconds_lt`, `Trapezoid.le_seconds` — **a move takes less time than at
  cruise speed all the way**, but not less than twice √2 − 1 of it.
-/

namespace PenPlotter

/-- The square root is the one of exact arithmetic, and all numbers are finite. -/
class LawfulRoot (K : Type*) [Field K] [LinearOrder K] [Rooted K] : Prop where
  sqrt_nonneg {x : K} : 0 ≤ x → 0 ≤ Rooted.sqrt x
  sqrt_mul_self {x : K} : 0 ≤ x → Rooted.sqrt x * Rooted.sqrt x = x
  isFinite (x : K) : Rooted.isFinite x = true

noncomputable instance : Rooted ℝ where
  sqrt := Real.sqrt
  isFinite _ := true

instance : LawfulRoot ℝ where
  sqrt_nonneg _ := Real.sqrt_nonneg _
  sqrt_mul_self := Real.mul_self_sqrt
  isFinite _ := rfl

/-! ### Square roots -/

namespace Rooted

open LawfulRoot

variable {K : Type*} [Field K] [LinearOrder K] [IsStrictOrderedRing K] [Rooted K] [LawfulRoot K]

theorem sqrt_eq_of_mul_self {x y : K} (hy : 0 ≤ y) (h : y * y = x) : sqrt x = y := by
  have hx : 0 ≤ x := h ▸ mul_self_nonneg y
  exact (mul_self_inj (sqrt_nonneg hx) hy).mp ((sqrt_mul_self hx).trans h.symm)

theorem le_sqrt {x y : K} (hx : 0 ≤ x) (h : y * y ≤ x) : y ≤ sqrt x := by
  refine le_of_not_gt fun hlt => ?_
  have hsquare := mul_self_lt_mul_self (sqrt_nonneg hx) hlt
  rw [sqrt_mul_self hx] at hsquare
  exact absurd h (not_le.mpr hsquare)

theorem sqrt_lt {x y : K} (hx : 0 ≤ x) (hy : 0 ≤ y) (h : x < y * y) : sqrt x < y := by
  refine lt_of_not_ge fun hle => ?_
  have hsquare := mul_self_le_mul_self hy hle
  rw [sqrt_mul_self hx] at hsquare
  exact absurd h (not_lt.mpr hsquare)

theorem sqrt_le {x y : K} (hx : 0 ≤ x) (hy : 0 ≤ y) (h : x ≤ y * y) : sqrt x ≤ y := by
  refine le_of_not_gt fun hlt => ?_
  have hsquare := mul_self_lt_mul_self hy hlt
  rw [sqrt_mul_self hx] at hsquare
  exact absurd h (not_le.mpr hsquare)

theorem lt_sqrt {x y : K} (hx : 0 ≤ x) (h : y * y < x) : y < sqrt x := by
  refine lt_of_not_ge fun hle => ?_
  have hsquare := mul_self_le_mul_self (sqrt_nonneg hx) hle
  rw [sqrt_mul_self hx] at hsquare
  exact absurd h (not_lt.mpr hsquare)

theorem sqrt_two_mul_self {x : K} (hx : 0 ≤ x) : sqrt (2 * (x * x)) = sqrt 2 * x := by
  refine sqrt_eq_of_mul_self (mul_nonneg (sqrt_nonneg zero_le_two) hx) ?_
  rw [mul_mul_mul_comm, sqrt_mul_self zero_le_two]

theorem sqrt_two_lt : sqrt 2 < (3 / 2 : K) := sqrt_lt zero_le_two (by norm_num) (by norm_num)

/-- The root lies below its tangent, and not too close to it. -/
theorem sqrt_add_le {x y : K} (hx : 0 < x) (hy : 0 ≤ y) (h : y ≤ x * x) :
    sqrt (x * x + y) ≤ x + y / (2 * x) * (1 - y / (8 * (x * x))) := by
  have hpart : y / (8 * (x * x)) ≤ 1 / 8 := by
    rw [div_le_iff₀ (by positivity)]
    linarith
  have htangent : 0 ≤ y / (2 * x) * (1 - y / (8 * (x * x))) :=
    mul_nonneg (by positivity) (by linarith)
  refine sqrt_le (by positivity) (by positivity) ?_
  have hsquare : (x + y / (2 * x) * (1 - y / (8 * (x * x)))) *
      (x + y / (2 * x) * (1 - y / (8 * (x * x)))) = x * x + y +
        y * (y / (8 * (x * x))) * (2 * (1 - y / (8 * (x * x))) * (1 - y / (8 * (x * x))) - 1) := by
    field_simp
    ring
  rw [hsquare]
  refine le_add_of_nonneg_right (mul_nonneg (by positivity) ?_)
  nlinarith

/-- The root lies above the chord that ends at twice the square. -/
theorem le_sqrt_add {x y : K} (hx : 0 < x) (hy : 0 ≤ y) (h : y ≤ x * x) :
    x + (sqrt 2 - 1) * (y / x) ≤ sqrt (x * x + y) := by
  have htwo : sqrt 2 * sqrt 2 = (2 : K) := sqrt_mul_self zero_le_two
  have hpart : y / x * (y / x) ≤ y := by
    rw [div_mul_div_comm, div_le_iff₀ (by positivity)]
    exact mul_le_mul_of_nonneg_left h hy
  refine le_sqrt (by positivity) ?_
  calc (x + (sqrt 2 - 1) * (y / x)) * (x + (sqrt 2 - 1) * (y / x))
      = x * x + 2 * (sqrt 2 - 1) * y + (sqrt 2 - 1) * (sqrt 2 - 1) * (y / x * (y / x)) := by
        field_simp
        ring
    _ ≤ x * x + 2 * (sqrt 2 - 1) * y + (sqrt 2 - 1) * (sqrt 2 - 1) * y := by
        gcongr
        exact mul_self_nonneg _
    _ = x * x + y := by linear_combination y * htwo

end Rooted

namespace Trapezoid

/-! ### Ramps -/

theorem larger_eq_max {K : Type*} [LinearOrder K] (x y : K) : larger x y = max x y := by
  unfold larger
  split_ifs with h
  · exact (max_eq_left h).symm
  · exact (max_eq_right (le_of_not_ge h)).symm

/-- The way on which a move from rest comes up to its cruise speed, or to the middle. -/
def rampWay {α : Type*} [Mul α] [Div α] [Min α] [OfNat α 2] (length cruise accel : α) : α :=
  min (cruise * cruise / (2 * accel)) (length / 2)

section

variable {K : Type*} [Field K] [LinearOrder K] [IsStrictOrderedRing K] {length cruise accel : K}

theorem rampWay_nonneg (hl : 0 ≤ length) (ha : 0 < accel) : 0 ≤ rampWay length cruise accel :=
  le_min (div_nonneg (mul_self_nonneg _) (by positivity)) (by positivity)

theorem rampWay_of_cruise (ha : 0 < accel) (h : cruise * cruise ≤ accel * length) :
    rampWay length cruise accel = cruise * cruise / (2 * accel) := by
  refine min_eq_left ((div_le_iff₀ (by positivity)).mpr ?_)
  linarith

theorem rampWay_of_no_cruise (ha : 0 < accel) (h : accel * length ≤ cruise * cruise) :
    rampWay length cruise accel = length / 2 := by
  refine min_eq_right ((le_div_iff₀ (by positivity)).mpr ?_)
  linarith

/-- Both ramps are equally long. -/
theorem distances_eq (ha : 0 < accel) :
    distances length 0 0 cruise accel = (rampWay length cruise accel,
      length - 2 * rampWay length cruise accel, rampWay length cruise accel) := by
  have hne : accel ≠ 0 := ha.ne'
  have hdown : (0 * 0 - cruise * cruise) / (-2 * accel) = cruise * cruise / (2 * accel) := by
    rw [zero_mul, zero_sub, neg_mul, neg_div_neg_eq]
  have hmeeting : (2 * accel * length - 0 * 0 + 0 * 0) / (4 * accel) = length / 2 := by
    field_simp
    ring
  unfold distances
  dsimp only
  rw [hdown, hmeeting, zero_mul, sub_zero]
  unfold rampWay
  split_ifs with h
  · rw [min_eq_right (by linarith)]
    exact Prod.ext rfl (Prod.ext (by ring) (by ring))
  · rw [min_eq_left (by linarith)]
    exact Prod.ext rfl (Prod.ext (by ring) rfl)

end

section

open Rooted

variable {K : Type*} [Field K] [LinearOrder K] [IsStrictOrderedRing K] [Rooted K] [LawfulRoot K]
variable {length cruise accel : K}

/-- **The time of a ramp.**  The speed at its start is taken to be the cruise speed. -/
theorem rampSeconds_eq {distance : K} (hd : 0 ≤ distance) (hv : 0 < cruise) (ha : 0 < accel) :
    rampSeconds distance cruise accel =
      (sqrt (cruise * cruise + 2 * accel * distance) - cruise) / accel := by
  have hway : 0 ≤ 2 * accel * distance := by positivity
  have hradicand : 0 ≤ cruise * cruise + 2 * accel * distance := by positivity
  have hroot : cruise ≤ sqrt (cruise * cruise + 2 * accel * distance) :=
    le_sqrt hradicand (by linarith)
  unfold rampSeconds
  rw [if_neg (not_lt.mpr hradicand), larger_eq_max, larger_eq_max]
  generalize sqrt (cruise * cruise + 2 * accel * distance) = root at hroot ⊢
  -- the other root is negative
  rw [max_eq_left (div_le_div_of_nonneg_right (by linarith) ha.le), neg_add_eq_sub,
    max_eq_left (div_nonneg (sub_nonneg.mpr hroot) ha.le)]

/-! ### Moves -/

/-- **The time of a move from rest to rest is that of a cruise and two equal ramps.** -/
theorem seconds_eq (hl : 0 < length) (hv : 0 < cruise) (ha : 0 < accel) :
    seconds length 0 0 cruise accel =
      (length - 2 * rampWay length cruise accel) / cruise +
        2 * ((sqrt (cruise * cruise + 2 * accel * rampWay length cruise accel) - cruise) / accel) := by
  have hready : ¬ (accel ≤ 0 ∨ (!Rooted.isFinite accel) = true) := by
    rw [LawfulRoot.isFinite accel]
    simp [ha]
  unfold seconds
  rw [if_neg (by simp [hl, hv]), if_neg hready, distances_eq ha]
  dsimp only
  rw [rampSeconds_eq (rampWay_nonneg hl.le ha) hv ha]
  ring

/-- Where both ramps fit into the way, each saves the same part of its time. -/
theorem seconds_of_cruise (hl : 0 < length) (hv : 0 < cruise) (ha : 0 < accel)
    (h : cruise * cruise ≤ accel * length) :
    seconds length 0 0 cruise accel = length / cruise - (3 - 2 * sqrt 2) * (cruise / accel) := by
  have hradicand : cruise * cruise + 2 * accel * (cruise * cruise / (2 * accel)) =
      2 * (cruise * cruise) := by
    field_simp
    ring
  rw [seconds_eq hl hv ha, rampWay_of_cruise ha h, hradicand, sqrt_two_mul_self hv.le]
  field_simp
  ring

/-- Where the ramps do not fit, they share the way. -/
theorem seconds_of_no_cruise (hl : 0 < length) (hv : 0 < cruise) (ha : 0 < accel)
    (h : accel * length ≤ cruise * cruise) :
    seconds length 0 0 cruise accel =
      2 * ((sqrt (cruise * cruise + accel * length) - cruise) / accel) := by
  have hradicand : 2 * accel * (length / 2) = accel * length := by ring
  rw [seconds_eq hl hv ha, rampWay_of_no_cruise ha h, hradicand, mul_div_cancel₀ _ two_ne_zero,
    sub_self, zero_div, zero_add]

/-- Where the ramps do not fit, they save a part of the time at cruise speed that grows with
the way. -/
theorem seconds_le_of_no_cruise (hl : 0 < length) (hv : 0 < cruise) (ha : 0 < accel)
    (h : accel * length ≤ cruise * cruise) : seconds length 0 0 cruise accel ≤
      (1 - accel * length / (8 * (cruise * cruise))) * (length / cruise) := by
  have hroot := sqrt_add_le hv (mul_pos ha hl).le h
  rw [seconds_of_no_cruise hl hv ha h]
  calc 2 * ((sqrt (cruise * cruise + accel * length) - cruise) / accel)
      ≤ 2 * (accel * length / (2 * cruise) * (1 - accel * length / (8 * (cruise * cruise))) /
          accel) := by
        gcongr
        linarith
    _ = (1 - accel * length / (8 * (cruise * cruise))) * (length / cruise) := by field_simp

/-- **A move takes less time than at cruise speed all the way.** -/
theorem seconds_lt (hl : 0 < length) (hv : 0 < cruise) (ha : 0 < accel) :
    seconds length 0 0 cruise accel < length / cruise := by
  rcases le_total (cruise * cruise) (accel * length) with h | h
  · rw [seconds_of_cruise hl hv ha h]
    have hroot : sqrt 2 < (3 / 2 : K) := sqrt_two_lt
    exact sub_lt_self _ (mul_pos (by linarith) (div_pos hv ha))
  · have hsaved : 0 < accel * length / (8 * (cruise * cruise)) := by positivity
    refine (seconds_le_of_no_cruise hl hv ha h).trans_lt (mul_lt_of_lt_one_left (div_pos hl hv) ?_)
    linarith

/-- It takes at least a fixed part of that time. -/
theorem le_seconds (hl : 0 < length) (hv : 0 < cruise) (ha : 0 < accel) :
    2 * (sqrt 2 - 1) * (length / cruise) ≤ seconds length 0 0 cruise accel := by
  rcases le_total (cruise * cruise) (accel * length) with h | h
  · rw [seconds_of_cruise hl hv ha h]
    have hroot : sqrt 2 < (3 / 2 : K) := sqrt_two_lt
    have hle : cruise / accel ≤ length / cruise := (div_le_div_iff₀ ha hv).mpr (by linarith)
    have hsaved : (3 - 2 * sqrt 2) * (cruise / accel) ≤ (3 - 2 * sqrt 2) * (length / cruise) :=
      mul_le_mul_of_nonneg_left hle (by linarith)
    linarith
  · rw [seconds_of_no_cruise hl hv ha h]
    have hroot := le_sqrt_add hv (mul_pos ha hl).le h
    calc 2 * (sqrt 2 - 1) * (length / cruise)
        = 2 * ((sqrt 2 - 1) * (accel * length / cruise) / accel) := by field_simp
      _ ≤ 2 * ((sqrt (cruise * cruise + accel * length) - cruise) / accel) := by
          gcongr
          linarith

end

end Trapezoid

end PenPlotter
