import Mathlib
import PenPlotter.Proofs.Motion.RestToRest

/-!
# Longer and faster moves in exact arithmetic

A longer move takes more time, and a faster one takes less.  Below and above the length,
or the cruise speed, at which the ramps of the move just fit, its time has different
formulas; each of them is strictly monotone, and they agree where they meet.

## Main results

* `Rooted.sqrt_add_lt` — how a root grows with the square of a speed.
* `Trapezoid.strictMonoOn_length` — **the time of a move grows with its length.**
* `Trapezoid.strictAntiOn_cruise` — **it falls with the cruise speed.**
* `Trapezoid.seconds_order` — both, between any two moves.
-/

namespace PenPlotter

namespace Rooted

open LawfulRoot

variable {K : Type*} [Field K] [LinearOrder K] [IsStrictOrderedRing K] [Rooted K] [LawfulRoot K]

theorem sqrt_lt_sqrt {x y : K} (hx : 0 ≤ x) (h : x < y) : sqrt x < sqrt y :=
  lt_sqrt (hx.trans h.le) (by rwa [sqrt_mul_self hx])

theorem mul_self_le_of_le_sqrt {x y : K} (hx : 0 ≤ x) (hy : 0 ≤ y) (h : y ≤ sqrt x) : y * y ≤ x :=
  (mul_self_le_mul_self hy h).trans_eq (sqrt_mul_self hx)

theorem le_mul_self_of_sqrt_le {x y : K} (hx : 0 ≤ x) (h : sqrt x ≤ y) : x ≤ y * y :=
  (sqrt_mul_self hx).symm.trans_le (mul_self_le_mul_self (sqrt_nonneg hx) h)

/-- The root of a square and something more grows by less than what is squared. -/
theorem sqrt_add_lt {x y c : K} (hx : 0 ≤ x) (hxy : x < y) (hc : 0 < c) :
    sqrt (y * y + c) < sqrt (x * x + c) + (y - x) := by
  have hy : 0 ≤ y := hx.trans hxy.le
  have hradicand : 0 ≤ x * x + c := by positivity
  have hroot : x < sqrt (x * x + c) := lt_sqrt hradicand (lt_add_of_pos_right _ hc)
  have hgrowth : x * (y - x) < sqrt (x * x + c) * (y - x) :=
    mul_lt_mul_of_pos_right hroot (sub_pos.mpr hxy)
  refine sqrt_lt (by positivity) (by linarith) ?_
  calc y * y + c = x * x + c + 2 * (x * (y - x)) + (y - x) * (y - x) := by ring
    _ < x * x + c + 2 * (sqrt (x * x + c) * (y - x)) + (y - x) * (y - x) := by linarith
    _ = (sqrt (x * x + c) + (y - x)) * (sqrt (x * x + c) + (y - x)) := by
      linear_combination -sqrt_mul_self hradicand

end Rooted

namespace Trapezoid

open Rooted Set

variable {K : Type*} [Field K] [LinearOrder K] [IsStrictOrderedRing K] [Rooted K] [LawfulRoot K]
variable {length cruise accel : K}

/-! ### Positive times -/

theorem seconds_pos (hl : 0 < length) (hv : 0 < cruise) (ha : 0 < accel) :
    0 < seconds length 0 0 cruise accel := by
  have hroot : (1 : K) < sqrt 2 := lt_sqrt zero_le_two (by norm_num)
  refine lt_of_lt_of_le ?_ (le_seconds hl hv ha)
  exact mul_pos (by linarith) (div_pos hl hv)

/-! ### Longer moves -/

/-- Where the ramps do not fit, a longer move takes more time. -/
theorem strictMonoOn_length_of_no_cruise (hv : 0 < cruise) (ha : 0 < accel) :
    StrictMonoOn (fun length => seconds length 0 0 cruise accel) (Ioc 0 (cruise * cruise / accel)) := by
  rintro l₁ ⟨hl₁, hfit₁⟩ l₂ ⟨hl₂, hfit₂⟩ hl
  rw [le_div_iff₀' ha] at hfit₁ hfit₂
  dsimp only
  rw [seconds_of_no_cruise hl₁ hv ha hfit₁, seconds_of_no_cruise hl₂ hv ha hfit₂]
  have hroot := sqrt_lt_sqrt (by positivity : 0 ≤ cruise * cruise + accel * l₁)
    (by gcongr : cruise * cruise + accel * l₁ < cruise * cruise + accel * l₂)
  gcongr

/-- Where the ramps fit, only the cruise gets longer. -/
theorem strictMonoOn_length_of_cruise (hv : 0 < cruise) (ha : 0 < accel) :
    StrictMonoOn (fun length => seconds length 0 0 cruise accel) (Ici (cruise * cruise / accel)) := by
  intro l₁ hfit₁ l₂ hfit₂ hl
  have hl₁ : 0 < l₁ := lt_of_lt_of_le (by positivity) hfit₁
  have hl₂ : 0 < l₂ := hl₁.trans hl
  rw [mem_Ici, div_le_iff₀' ha] at hfit₁ hfit₂
  dsimp only
  rw [seconds_of_cruise hl₁ hv ha hfit₁, seconds_of_cruise hl₂ hv ha hfit₂]
  gcongr

/-- **The time of a move grows with its length.** -/
theorem strictMonoOn_length (hv : 0 < cruise) (ha : 0 < accel) :
    StrictMonoOn (fun length => seconds length 0 0 cruise accel) (Ioi 0) := by
  have hmeet : 0 < cruise * cruise / accel := by positivity
  rw [← Ioc_union_Ici_eq_Ioi hmeet]
  exact (strictMonoOn_length_of_no_cruise hv ha).union (strictMonoOn_length_of_cruise hv ha)
    (isGreatest_Ioc hmeet) isLeast_Ici

/-! ### Faster moves -/

/-- Where the ramps fit, a faster move takes less time: the cruise gets shorter, and the
ramps save more. -/
theorem strictAntiOn_cruise_of_cruise (hl : 0 < length) (ha : 0 < accel) :
    StrictAntiOn (fun cruise => seconds length 0 0 cruise accel) (Ioc 0 (sqrt (accel * length))) := by
  have hway : 0 ≤ accel * length := by positivity
  have hsaved : 0 < 3 - 2 * (sqrt 2 : K) := by linarith [sqrt_two_lt (K := K)]
  rintro v₁ ⟨hv₁, hfit₁⟩ v₂ ⟨hv₂, hfit₂⟩ hv
  dsimp only
  rw [seconds_of_cruise hl hv₁ ha (mul_self_le_of_le_sqrt hway hv₁.le hfit₁),
    seconds_of_cruise hl hv₂ ha (mul_self_le_of_le_sqrt hway hv₂.le hfit₂)]
  gcongr

/-- Where the ramps do not fit, a faster move takes less time. -/
theorem strictAntiOn_cruise_of_no_cruise (hl : 0 < length) (ha : 0 < accel) :
    StrictAntiOn (fun cruise => seconds length 0 0 cruise accel) (Ici (sqrt (accel * length))) := by
  have hway : 0 < accel * length := by positivity
  have hroot : 0 < sqrt (accel * length) := lt_sqrt hway.le (by rwa [mul_zero])
  intro v₁ hfit₁ v₂ hfit₂ hv
  have hv₁ : 0 < v₁ := hroot.trans_le hfit₁
  have hv₂ : 0 < v₂ := hv₁.trans hv
  dsimp only
  rw [seconds_of_no_cruise hl hv₁ ha (le_mul_self_of_sqrt_le hway.le hfit₁),
    seconds_of_no_cruise hl hv₂ ha (le_mul_self_of_sqrt_le hway.le hfit₂)]
  have hgrowth := sqrt_add_lt hv₁.le hv hway
  gcongr 2 * (?_ / _)
  linarith

/-- **The time of a move falls with its cruise speed.** -/
theorem strictAntiOn_cruise (hl : 0 < length) (ha : 0 < accel) :
    StrictAntiOn (fun cruise => seconds length 0 0 cruise accel) (Ioi 0) := by
  have hmeet : 0 < sqrt (accel * length) := lt_sqrt (by positivity) (by rw [mul_zero]; positivity)
  rw [← Ioc_union_Ici_eq_Ioi hmeet]
  exact (strictAntiOn_cruise_of_cruise hl ha).union (strictAntiOn_cruise_of_no_cruise hl ha)
    (isGreatest_Ioc hmeet) isLeast_Ici

/-- **A longer move takes more time, and a faster one less.**  Every move takes time, and
of two moves with one acceleration and one cruise speed the longer one takes more; of two
with one acceleration and one length the faster one takes less.  It does not matter
whether either of them comes up to its cruise speed. -/
theorem seconds_order {l₁ l₂ v₁ v₂ accel : K} (ha : 0 < accel) (hl₁ : 0 < l₁) (hl : l₁ < l₂)
    (hv₁ : 0 < v₁) (hv : v₁ < v₂) :
    (∀ v, 0 < v → 0 < seconds l₁ 0 0 v accel ∧
      seconds l₁ 0 0 v accel < seconds l₂ 0 0 v accel) ∧
    ∀ l, 0 < l → seconds l 0 0 v₂ accel < seconds l 0 0 v₁ accel := by
  refine ⟨?_, ?_⟩
  · intro v hpos
    exact ⟨seconds_pos hl₁ hpos ha, strictMonoOn_length hpos ha hl₁ (hl₁.trans hl) hl⟩
  · intro l hpos
    exact strictAntiOn_cruise hpos ha hv₁ (hv₁.trans hv) hv

/-- At 20 mm/s and 100 mm/s² the ramps of a move fit from 4 mm on: of one and ten
millimetres only the longer move cruises, and on four millimetres a move at 10 mm/s does
while one at 40 mm/s does not. -/
theorem seconds_order_sample :
    ((0 : ℝ) < 100 ∧ (0 : ℝ) < 1 ∧ (1 : ℝ) < 10 ∧ (0 : ℝ) < 20 ∧ (0 : ℝ) < 4 ∧ (10 : ℝ) < 40) ∧
    0 < seconds (1 : ℝ) 0 0 20 100 ∧ seconds (1 : ℝ) 0 0 20 100 < seconds 10 0 0 20 100 ∧
    seconds (4 : ℝ) 0 0 40 100 < seconds 4 0 0 10 100 := by
  have haccel : (0 : ℝ) < 100 := by norm_num
  have hshort : (0 : ℝ) < 1 := one_pos
  have hlong : (1 : ℝ) < 10 := by norm_num
  have hslow : (0 : ℝ) < 10 := by norm_num
  have hfast : (10 : ℝ) < 40 := by norm_num
  obtain ⟨hlength, hcruise⟩ := seconds_order haccel hshort hlong hslow hfast
  exact ⟨by norm_num, (hlength 20 (by norm_num)).1, (hlength 20 (by norm_num)).2,
    hcruise 4 (by norm_num)⟩

end Trapezoid

end PenPlotter
