import Mathlib
import PenPlotter.Proofs.Binary64.Approximation
import PenPlotter.Proofs.Estimate.Seconds
import PenPlotter.Proofs.Motion.RestToRest

/-!
# How accurate the time of a move is

With numbers of the orders of magnitude that plotters have, the time of a move from rest to
rest is that of exact arithmetic, but for a few dozen roundings.  Those of a ramp count in
full against the time of coming up to the cruise speed, since the root and the speed that
is taken from it are nearly equal on a short way.

## Main definitions

* `Binary64.IsOrdinary`, `Move.IsOrdinary` — numbers between `2 ^ -200` and `2 ^ 200`.
* `Move.exactSeconds` — the time of the move in exact arithmetic.
* `Move.scale` — what the error is measured by.

## Main results

* `rampSeconds_accurate` — the time of one ramp.
* `Move.distances_accurate` — the ways of a move, whether it cruises or not.
* `Move.seconds_accurate` — **the time of a move is that of exact arithmetic.**
-/

namespace PenPlotter

open Binary64

namespace Binary64

/-- A finite number between `2 ^ -200` and `2 ^ 200`. -/
def IsOrdinary (x : Float) : Prop :=
  x.isFinite = true ∧ 2 ^ (-200 : ℤ) ≤ value x ∧ value x ≤ 2 ^ 200

instance (x : Float) : Decidable (IsOrdinary x) :=
  inferInstanceAs (Decidable (x.isFinite = true ∧ 2 ^ (-200 : ℤ) ≤ value x ∧ value x ≤ 2 ^ 200))

theorem IsOrdinary.approximates {x : Float} (h : IsOrdinary x) :
    Approximates 200 0 x (toReal x) := by
  refine ⟨h.1, ⟨?_, ?_⟩, .refl _⟩
  · have hlow := h.2.1
    rw [← Rat.cast_le (K := ℝ), Rat.cast_zpow, Rat.cast_ofNat, zpow_neg] at hlow
    exact_mod_cast hlow
  · unfold toReal
    exact_mod_cast h.2.2

theorem IsOrdinary.isUsable {x : Float} (h : IsOrdinary x) : 0 < x ∧ Reading.isUsable x = true := by
  have hpos : 0 < x :=
    (pos_iff_value (isNaN_of_isFinite h.1)).mpr (Rat.cast_pos.mp h.approximates.pos)
  exact ⟨hpos, (isUsable_iff x).mpr ⟨h.1, hpos⟩⟩

theorem approximates_two : Approximates 1 0 2 2 := by
  exact_mod_cast approximates_natCast (n := 2) (k := 1) (by norm_num) (by norm_num) (by norm_num)

theorem approximates_four : Approximates 2 0 4 4 := by
  exact_mod_cast approximates_natCast (n := 4) (k := 2) (by norm_num) (by norm_num) (by norm_num)

end Binary64

theorem toReal_larger {x y : Float} (hx : x.isFinite = true) (hy : y.isFinite = true) :
    (Trapezoid.larger x y).isFinite = true ∧
      toReal (Trapezoid.larger x y) = max (toReal x) (toReal y) := by
  have hle := toReal_le_iff hy hx
  unfold Trapezoid.larger
  split_ifs with h
  · exact ⟨hx, (max_eq_left (hle.mp h)).symm⟩
  · exact ⟨hy, (max_eq_right (le_of_not_ge (mt hle.mpr h))).symm⟩

/-! ### Ramps -/

/-- On a way of a ramp the speed at most doubles. -/
theorem sqrt_ramp_bounds {V A D : ℝ} (hV : 0 < V) (hA : 0 < A) (hD : 0 < D)
    (hfit : 2 * A * D ≤ V * V) : V ≤ √(V * V + 2 * A * D) ∧ √(V * V + 2 * A * D) ≤ 2 * V := by
  have hway : 0 < 2 * A * D := by positivity
  constructor
  · refine Real.le_sqrt_of_sq_le ?_
    rw [sq]
    linarith
  · rw [Real.sqrt_le_left (by linarith), sq, mul_mul_mul_comm]
    linarith [mul_pos hV hV]

section

variable {d v a : Float} {D : ℝ}

/-- The square of the speed behind a ramp. -/
theorem approximates_radicand (hv : IsOrdinary v) (ha : IsOrdinary a)
    (hd : Approximates 610 24 d D) :
    Approximates 812 28 (v * v + 2 * a * d) (toReal v * toReal v + 2 * toReal a * D) := by
  have hsquare := hv.approximates.mul hv.approximates (by norm_num) (by norm_num)
  have hdouble := approximates_two.mul ha.approximates (by norm_num) (by norm_num)
  have hway := hdouble.mul hd (by norm_num) (by norm_num)
  exact (hsquare.add hway (by norm_num) (by norm_num)).mono (by norm_num) (by norm_num)

/-- A computed root `R` is off by a part of the cruise speed. -/
theorem close_root {root : Float} {R : ℝ} (hroot : Approximates 812 19 root R)
    (hhigh : R ≤ 2 * toReal v) : Close (76 * (roundoff * toReal v)) root R := by
  refine (hroot.close (by norm_num)).mono ?_
  have := mul_le_mul_of_nonneg_left hhigh roundoff_pos.le
  push_cast
  linarith

/-- The larger root of a ramp. -/
theorem close_larger_root {root : Float} {R : ℝ} (hv : IsOrdinary v) (ha : IsOrdinary a)
    (hroot : Approximates 812 19 root R) (hlow : toReal v ≤ R) (hhigh : R ≤ 2 * toReal v) :
    Close (96 * (roundoff * (toReal v / toReal a))) ((-v + root) / a)
      ((R - toReal v) / toReal a) := by
  have hV := hv.approximates
  have hA := ha.approximates
  have htime := hV.moderate.div hA.moderate
  have hunit := mul_pos roundoff_pos hV.pos
  have hsmall := thousand_mul_roundoff_le hV.pos.le
  have hsum := (Close.exact hV.isFinite).neg.add (close_root hroot hhigh) (b := 2 * toReal v) (by
    rw [neg_add_eq_sub, abs_of_nonneg (by linarith)]
    linarith) (hV.moderate.scaled (by norm_num) (by norm_num) (by norm_num))
  rw [neg_add_eq_sub] at hsum
  have hquotient := hsum.div hA.isFinite hA.pos (b := 3 * (toReal v / toReal a)) (by
    rw [abs_of_nonneg (by linarith), ← mul_div_assoc]
    exact div_le_div_of_nonneg_right (by linarith) hA.pos.le)
    (htime.scaled (by norm_num) (by norm_num) (by norm_num))
  refine hquotient.mono ?_
  calc (0 + 76 * (roundoff * toReal v) + roundoff * (2 * toReal v)) / toReal a +
        roundoff * (3 * (toReal v / toReal a)) = 81 * (roundoff * (toReal v / toReal a)) := by ring
    _ ≤ 96 * (roundoff * (toReal v / toReal a)) := by linarith [mul_pos roundoff_pos htime.pos]

/-- The smaller root of a ramp is not above zero. -/
theorem smaller_root_nonpos {root : Float} {R : ℝ} (hv : IsOrdinary v) (ha : IsOrdinary a)
    (hroot : Approximates 812 19 root R) (hlow : toReal v ≤ R) (hhigh : R ≤ 2 * toReal v) :
    ((-v - root) / a).isFinite = true ∧ toReal ((-v - root) / a) ≤ 0 := by
  have hV := hv.approximates
  have hA := ha.approximates
  have htime := hV.moderate.div hA.moderate
  have hunit := mul_pos roundoff_pos hV.pos
  have hsmall := thousand_mul_roundoff_le hV.pos.le
  have hsum := (Close.exact hV.isFinite).neg.sub (close_root hroot hhigh) (b := 4 * toReal v) (by
    rw [← neg_add', abs_neg, abs_of_nonneg (by linarith)]
    linarith) (hV.moderate.scaled (by norm_num) (by norm_num) (by norm_num))
  have hquotient := hsum.div hA.isFinite hA.pos (b := 4 * (toReal v / toReal a)) (by
    rw [← neg_add', abs_neg, abs_of_nonneg (by linarith), ← mul_div_assoc]
    exact div_le_div_of_nonneg_right (by linarith) hA.pos.le)
    (htime.scaled (by norm_num) (by norm_num) (by norm_num))
  have hle := (abs_le.mp hquotient.error_le).2
  have hexact : (-toReal v - R) / toReal a ≤ -2 * (toReal v / toReal a) := by
    rw [← mul_div_assoc]
    exact div_le_div_of_nonneg_right (by linarith) hA.pos.le
  have herror : (0 + 76 * (roundoff * toReal v) + roundoff * (4 * toReal v)) / toReal a +
      roundoff * (4 * (toReal v / toReal a)) ≤ toReal v / toReal a := by
    calc (0 + 76 * (roundoff * toReal v) + roundoff * (4 * toReal v)) / toReal a +
          roundoff * (4 * (toReal v / toReal a)) = 84 * (roundoff * toReal v) / toReal a := by ring
      _ ≤ toReal v / toReal a := div_le_div_of_nonneg_right (by linarith) hA.pos.le
  exact ⟨hquotient.isFinite, by linarith [htime.pos]⟩

/-- **The time of a ramp** is that of exact arithmetic, up to a small part of the time of
coming up to the cruise speed. -/
theorem rampSeconds_accurate (hv : IsOrdinary v) (ha : IsOrdinary a)
    (hd : Approximates 610 24 d D) (hfit : 2 * toReal a * D ≤ toReal v * toReal v) :
    Close (96 * (roundoff * (toReal v / toReal a))) (Trapezoid.rampSeconds d v a)
      ((√(toReal v * toReal v + 2 * toReal a * D) - toReal v) / toReal a) := by
  have hradicand := approximates_radicand hv ha hd
  have hroot := hradicand.sqrt (n := 14) (by norm_num) (by norm_num)
  obtain ⟨hlow, hhigh⟩ := sqrt_ramp_bounds hv.approximates.pos ha.approximates.pos
    hd.moderate.pos hfit
  have hlarger := close_larger_root hv ha hroot hlow hhigh
  obtain ⟨hfinite, hnonpos⟩ := smaller_root_nonpos hv ha hroot hlow hhigh
  obtain ⟨hmax, hmaxvalue⟩ := toReal_larger hlarger.isFinite hfinite
  obtain ⟨hramp, hrampvalue⟩ := toReal_larger hmax (rfl : (0 : Float).isFinite = true)
  have hpos : ¬ v * v + 2 * a * d < 0 := by
    rw [toReal_lt_iff hradicand.isFinite rfl, toReal_zero, not_lt]
    exact hradicand.pos.le
  have hroots : Trapezoid.rampSeconds d v a = Trapezoid.larger (Trapezoid.larger
      ((-v + (v * v + 2 * a * d).sqrt) / a) ((-v - (v * v + 2 * a * d).sqrt) / a)) 0 := if_neg hpos
  -- the exact time is not negative, so that zero in place of a negative one is no further away
  have hclamped := abs_max_sub_max_le_abs (toReal ((-v + (v * v + 2 * a * d).sqrt) / a))
    ((√(toReal v * toReal v + 2 * toReal a * D) - toReal v) / toReal a) 0
  rw [max_eq_left (div_nonneg (sub_nonneg.mpr hlow) ha.approximates.pos.le)] at hclamped
  rw [hroots]
  refine ⟨hramp, ?_⟩
  rw [hrampvalue, hmaxvalue, toReal_zero, max_assoc, max_eq_right hnonpos]
  exact hclamped.trans hlarger.error_le

end

/-! ### Ways -/

namespace Move

variable {m : Move}

/-- All numbers of the move are ordinary. -/
structure IsOrdinary (m : Move) : Prop where
  length : Binary64.IsOrdinary m.length
  cruise : Binary64.IsOrdinary m.cruise
  acceleration : Binary64.IsOrdinary m.acceleration

/-- The way of a ramp in exact arithmetic. -/
noncomputable def exactRamp (m : Move) : ℝ :=
  Trapezoid.rampWay (toReal m.length) (toReal m.cruise) (toReal m.acceleration)

theorem approximates_rampLength (h : m.IsOrdinary) : Approximates 610 3 m.rampLength
    (toReal m.cruise * toReal m.cruise / (2 * toReal m.acceleration)) := by
  have hV := h.cruise.approximates
  have hA := h.acceleration.approximates
  have hsquare := hV.mul hV (by norm_num) (by norm_num)
  have hdouble := approximates_two.mul hA (by norm_num) (by norm_num)
  exact (hsquare.div hdouble (by norm_num) (by norm_num)).mono (by norm_num) (by norm_num)

/-- The point at which the ramps meet is the middle of the way. -/
theorem approximates_meeting (h : m.IsOrdinary) : Approximates 610 4
    ((2 * m.acceleration * m.length - 0 * 0 + 0 * 0) / (4 * m.acceleration))
    (toReal m.length / 2) := by
  have hL := h.length.approximates
  have hA := h.acceleration.approximates
  have hzero : (0 : Float) * 0 = 0 := by decide
  have hdouble := approximates_two.mul hA (by norm_num) (by norm_num)
  have hway := (hdouble.mul hL (by norm_num) (by norm_num)).add_zero
  have hfour := approximates_four.mul hA (by norm_num) (by norm_num)
  have hmeeting := hway.div hfour (by norm_num) (by norm_num)
  have hhalf : 2 * toReal m.acceleration * toReal m.length / (4 * toReal m.acceleration) =
      toReal m.length / 2 := by
    have := hA.pos.ne'
    field_simp
    ring
  rw [hhalf] at hmeeting
  rw [hzero, sub_zero_eq]
  exact hmeeting.mono (by norm_num) (by norm_num)

theorem moderate_exactRamp (h : m.IsOrdinary) : Moderate 610 m.exactRamp := by
  have hramp := (approximates_rampLength h).moderate
  have hhalf := (approximates_meeting h).moderate
  exact hramp.min hhalf

theorem exactRamp_le (m : Move) : m.exactRamp ≤ toReal m.length / 2 := min_le_right _ _

/-- What is left behind the meeting point is the other half of the way. -/
theorem approximates_rest (h : m.IsOrdinary) {meeting : Float}
    (hmeeting : Approximates 610 4 meeting (toReal m.length / 2)) :
    Approximates 610 20 (m.length - meeting) (toReal m.length / 2) := by
  have hL := h.length.approximates
  have hpos := hL.pos
  have hsmall := thousand_mul_roundoff_le hpos.le
  have hclose : Close (4 * roundoff * toReal m.length) meeting (toReal m.length / 2) := by
    refine (hmeeting.close (by norm_num)).mono (le_of_eq ?_)
    push_cast
    ring
  have hrest := (Close.exact hL.isFinite).sub hclose (b := toReal m.length) (by
    rw [sub_half, abs_of_pos (half_pos hpos)]
    linarith) (hL.moderate.mono (by norm_num))
  rw [sub_half] at hrest
  refine ⟨hrest.isFinite, hmeeting.moderate, ?_⟩
  refine near_of_abs_sub_le (n := 10) (half_pos hpos) (hrest.error_le.trans (le_of_eq ?_)) (by norm_num)
  push_cast
  ring

/-- Ramps near the half of the way leave nearly nothing. -/
theorem close_zero (h : m.IsOrdinary) (hnear : Near 4 (toReal m.length / 2) m.exactRamp) :
    Close (18 * roundoff * toReal m.length) 0 (toReal m.length - 2 * m.exactRamp) := by
  have hle := mul_le_mul_of_nonneg_left m.exactRamp_le roundoff_pos.le
  have hlength : 0 < roundoff * toReal m.length := mul_pos roundoff_pos h.length.approximates.pos
  obtain ⟨hlow, hhigh⟩ := abs_le.mp
    (hnear.abs_sub_le (moderate_exactRamp h).pos (by norm_num : 4 ≤ 1000))
  push_cast at hlow hhigh
  refine ⟨rfl, ?_⟩
  rw [toReal_zero, abs_le]
  constructor <;> linarith

/-- What two ramps leave of a way into which they fit. -/
theorem close_rest (h : m.IsOrdinary) {up down : Float} (hup : Approximates 610 7 up m.exactRamp)
    (hdown : Approximates 610 7 down m.exactRamp) :
    Close (18 * roundoff * toReal m.length) (m.length - up - down)
      (toReal m.length - 2 * m.exactRamp) := by
  have hL := h.length.approximates
  have hpos := hL.pos
  have hle := m.exactRamp_le
  have hramp := (moderate_exactRamp h).pos
  have hsmall := thousand_mul_roundoff_le hpos.le
  have hclose : ∀ {x : Float}, Approximates 610 7 x m.exactRamp →
      Close (7 * (roundoff * toReal m.length)) x m.exactRamp := by
    intro x hx
    refine (hx.close (by norm_num)).mono ?_
    have := mul_le_mul_of_nonneg_left hle roundoff_pos.le
    push_cast
    linarith
  have htwice : Moderate 1020 (2 * toReal m.length) :=
    hL.moderate.scaled (by norm_num) (by norm_num) (by norm_num)
  have hfirst := (Close.exact hL.isFinite).sub (hclose hup) (b := 2 * toReal m.length) (by
    rw [abs_of_nonneg (by linarith)]
    linarith) htwice
  have hsecond := hfirst.sub (hclose hdown) (b := 2 * toReal m.length) (by
    rw [abs_of_nonneg (by linarith)]
    linarith) htwice
  rw [sub_sub, ← two_mul] at hsecond
  exact hsecond.mono (le_of_eq (by ring))

/-- **The ways of a move** are those of exact arithmetic, up to a few roundings of the
length of the move. -/
theorem distances_accurate (h : m.IsOrdinary) :
    ∃ up level down, Trapezoid.distances m.length 0 0 m.cruise m.acceleration = (up, level, down) ∧
      Approximates 610 24 up m.exactRamp ∧ Approximates 610 24 down m.exactRamp ∧
        Close (18 * roundoff * toReal m.length) level (toReal m.length - 2 * m.exactRamp) := by
  have hL := h.length.approximates
  have hramp := approximates_rampLength h
  have hslow := hramp.of_sameNumber m.slowDown_sameNumber
  have hmeeting := approximates_meeting h
  have hsum := hramp.add hslow (by norm_num) (by norm_num)
  have hmoderate := moderate_exactRamp h
  have hhalf := half_pos hL.pos
  have hpow : 0 < (1 - roundoff) ^ 4 := pow_pos one_sub_roundoff_pos 4
  have hfit := toReal_lt_iff hL.isFinite hsum.isFinite
  unfold Trapezoid.distances
  dsimp only
  rw [m.speedUp_eq]
  split_ifs with hlt
  · have hnear : Near 4 (toReal m.length / 2) m.exactRamp := by
      rw [exactRamp, Trapezoid.rampWay, min_comm]
      refine near_min hhalf hramp.moderate.pos ?_
      have hscaled := mul_le_mul_of_nonneg_right (hfit.mp hlt).le hpow.le
      have hupper := hsum.near.upper
      norm_num at hupper
      linarith
    refine ⟨_, _, _, rfl, ?_, ?_, close_zero h hnear⟩
    · exact (hmeeting.trans hnear hmoderate).mono le_rfl (by norm_num)
    · exact (approximates_rest h hmeeting).trans hnear hmoderate
  · have hnear : Near 4 (toReal m.cruise * toReal m.cruise / (2 * toReal m.acceleration))
        m.exactRamp := by
      refine near_min hramp.moderate.pos hhalf ?_
      have hlower := hsum.near.lower
      norm_num at hlower
      have := not_lt.mp (fun hreal => hlt (hfit.mpr hreal))
      linarith
    have hup := hramp.trans hnear hmoderate
    have hdown := hslow.trans hnear hmoderate
    exact ⟨_, _, _, rfl, hup.mono le_rfl (by norm_num), hdown.mono le_rfl (by norm_num),
      close_rest h hup hdown⟩

/-! ### Times -/

/-- The time of the move in exact arithmetic. -/
noncomputable def exactSeconds (m : Move) : ℝ :=
  Trapezoid.seconds (toReal m.length) 0 0 (toReal m.cruise) (toReal m.acceleration)

/-- The time of a ramp in exact arithmetic. -/
noncomputable def exactRampSeconds (m : Move) : ℝ :=
  (√(toReal m.cruise * toReal m.cruise + 2 * toReal m.acceleration * m.exactRamp) -
    toReal m.cruise) / toReal m.acceleration

/-- The time at cruise speed all the way, and the time of coming up to it. -/
noncomputable def scale (m : Move) : ℝ :=
  toReal m.length / toReal m.cruise + toReal m.cruise / toReal m.acceleration

theorem exactSeconds_eq (h : m.IsOrdinary) : m.exactSeconds =
    (toReal m.length - 2 * m.exactRamp) / toReal m.cruise + m.exactRampSeconds +
      m.exactRampSeconds := by
  have hL := h.length.approximates.pos
  have hV := h.cruise.approximates.pos
  have hA := h.acceleration.approximates.pos
  rw [add_assoc, ← two_mul, exactSeconds, Trapezoid.seconds_eq hL hV hA]
  rfl

theorem moderate_scale (h : m.IsOrdinary) : Moderate 401 m.scale := by
  have hV := h.cruise.approximates.moderate
  exact (h.length.approximates.moderate.div hV).add (hV.div h.acceleration.approximates.moderate)

/-- The ramps fit into the way, so that the speed at most doubles on them. -/
theorem two_mul_exactRamp_le (h : m.IsOrdinary) :
    2 * toReal m.acceleration * m.exactRamp ≤ toReal m.cruise * toReal m.cruise := by
  have hle : m.exactRamp ≤ toReal m.cruise * toReal m.cruise / (2 * toReal m.acceleration) :=
    min_le_left _ _
  rw [le_div_iff₀ (mul_pos two_pos h.acceleration.approximates.pos)] at hle
  linarith

theorem exactRampSeconds_bounds (h : m.IsOrdinary) : 0 ≤ m.exactRampSeconds ∧
    m.exactRampSeconds ≤ toReal m.cruise / toReal m.acceleration := by
  have hA := h.acceleration.approximates.pos
  obtain ⟨hlow, hhigh⟩ := sqrt_ramp_bounds h.cruise.approximates.pos hA
    (moderate_exactRamp h).pos (two_mul_exactRamp_le h)
  exact ⟨div_nonneg (by linarith) hA.le, div_le_div_of_nonneg_right (by linarith) hA.le⟩

theorem close_rampSeconds (h : m.IsOrdinary) {d : Float} (hd : Approximates 610 24 d m.exactRamp) :
    Close (96 * (roundoff * m.scale)) (Trapezoid.rampSeconds d m.cruise m.acceleration)
      m.exactRampSeconds := by
  refine (rampSeconds_accurate h.cruise h.acceleration hd (two_mul_exactRamp_le h)).mono ?_
  have hcruise : 0 < toReal m.length / toReal m.cruise :=
    div_pos h.length.approximates.pos h.cruise.approximates.pos
  exact mul_le_mul_of_nonneg_left (mul_le_mul_of_nonneg_left (le_add_of_nonneg_left hcruise.le)
    roundoff_pos.le) (by norm_num)

theorem levelSeconds_bounds (h : m.IsOrdinary) :
    0 ≤ (toReal m.length - 2 * m.exactRamp) / toReal m.cruise ∧
      (toReal m.length - 2 * m.exactRamp) / toReal m.cruise ≤ toReal m.length / toReal m.cruise := by
  have hV := h.cruise.approximates.pos
  have hle := m.exactRamp_le
  have hpos := (moderate_exactRamp h).pos
  exact ⟨div_nonneg (by linarith) hV.le, div_le_div_of_nonneg_right (by linarith) hV.le⟩

theorem close_levelSeconds (h : m.IsOrdinary) {level : Float}
    (hlevel : Close (18 * roundoff * toReal m.length) level (toReal m.length - 2 * m.exactRamp)) :
    Close (20 * (roundoff * m.scale)) (level / m.cruise)
      ((toReal m.length - 2 * m.exactRamp) / toReal m.cruise) := by
  have hL := h.length.approximates.pos
  have hV := h.cruise.approximates
  have hsmall := thousand_mul_roundoff_le hL.le
  have hle := m.exactRamp_le
  have hpos := (moderate_exactRamp h).pos
  have hcruise : toReal m.length / toReal m.cruise ≤ m.scale :=
    le_add_of_nonneg_right (div_pos hV.pos h.acceleration.approximates.pos).le
  have htime := hlevel.div hV.isFinite hV.pos (b := 2 * m.scale) (by
    calc (|toReal m.length - 2 * m.exactRamp| + 18 * roundoff * toReal m.length) / toReal m.cruise
        ≤ 2 * toReal m.length / toReal m.cruise := by
          refine div_le_div_of_nonneg_right ?_ hV.pos.le
          rw [abs_of_nonneg (by linarith)]
          linarith
      _ = 2 * (toReal m.length / toReal m.cruise) := mul_div_assoc _ _ _
      _ ≤ 2 * m.scale := by linarith)
    ((moderate_scale h).scaled (by norm_num) (by norm_num) (by norm_num))
  refine htime.mono ?_
  have hscaled := mul_le_mul_of_nonneg_left hcruise roundoff_pos.le
  rw [mul_assoc, mul_div_assoc, mul_div_assoc]
  linarith

/-- **The time of a move is that of exact arithmetic**, up to `2 ^ -45` of the time at cruise
speed and the time of coming up to it. -/
theorem seconds_accurate (h : m.IsOrdinary) :
    Close (2 ^ (-45 : ℤ) * m.scale) m.seconds m.exactSeconds := by
  have husable : m.IsUsable :=
    ⟨h.length.isUsable.1, h.cruise.isUsable.2, h.acceleration.isUsable.2⟩
  obtain ⟨up, level, down, hdistances, hup, hdown, hlevel⟩ := distances_accurate h
  obtain ⟨hlevel0, hlevel1⟩ := levelSeconds_bounds h
  obtain ⟨hramp0, hramp1⟩ := exactRampSeconds_bounds h
  have hscale := moderate_scale h
  have hparts : toReal m.length / toReal m.cruise + toReal m.cruise / toReal m.acceleration =
      m.scale := rfl
  have hsmall := thousand_mul_roundoff_le hscale.pos.le
  have hfirst := (close_levelSeconds h hlevel).add (close_rampSeconds h hup) (b := 3 * m.scale) (by
    rw [abs_of_nonneg (by linarith)]
    linarith) (hscale.scaled (by norm_num) (by norm_num) (by norm_num))
  have hsum := hfirst.add (close_rampSeconds h hdown) (b := 4 * m.scale) (by
    rw [abs_of_nonneg (by linarith)]
    linarith) (hscale.scaled (by norm_num) (by norm_num) (by norm_num))
  rw [exactSeconds_eq h, husable.seconds_eq, profileSeconds, hdistances]
  refine hsum.mono ?_
  have htotal : (2 : ℝ) ^ (-45 : ℤ) = 256 * roundoff := by
    rw [roundoff_eq]
    norm_num
  rw [htotal]
  linarith [mul_pos roundoff_pos hscale.pos]

end Move

end PenPlotter
