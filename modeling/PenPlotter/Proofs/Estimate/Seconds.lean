import Mathlib
import PenPlotter.Estimate
import PenPlotter.Proofs.Binary64.Nonnegative

/-!
# The time of a move from rest to rest

Every move of an estimate starts and ends at rest, so its two ramps are alike.  Its
time is a number that is not negative, unless the way of a ramp is lost by overflow:
then the way that is left to cruise cannot be told.

## Main definitions

* `Move` — a way with a cruise speed and an acceleration, from rest to rest.
* `Move.rampLength` — the way on which it comes up to its cruise speed.
* `Move.IsLost` — that way is no number, or infinite where the whole way is infinite.
* `Move.IsIdle`, `Move.IsUniform`, `Move.profileSeconds` — the three ways in which a move is
  timed: not at all, at constant speed, and by its ramps and its cruise.

## Main results

* `Move.seconds_eq` — which of the three it is.
* `rampSeconds_isNonneg` — the time of one ramp is never negative.
* `Move.not_isLost_of_isFinite` — it takes a square or a length beyond all finite numbers.
* `Move.seconds_isNonneg` — **the time of a move is a number and not negative.**
* `Move.seconds_of_isLost` — where the way of its ramps is lost, it is no number.
-/

namespace PenPlotter

open Binary64

/-! ### Moves -/

/-- A move from rest to rest. -/
structure Move where
  length : Float
  cruise : Float
  acceleration : Float
  deriving DecidableEq, Repr

theorem isUsable_iff (x : Float) : Reading.isUsable x = true ↔ x.isFinite = true ∧ 0 < x := by
  rw [Reading.isUsable, Bool.and_eq_true, decide_eq_true_eq]

namespace Move

/-- The time that is counted for the move. -/
def seconds (v : Move) : Float := moveSeconds v.length v.cruise v.acceleration

/-- The move has a length, and rates that can be used. -/
structure IsUsable (v : Move) : Prop where
  length : 0 < v.length
  cruise : Reading.isUsable v.cruise = true
  acceleration : Reading.isUsable v.acceleration = true

/-- The way on which the move comes up from rest to its cruise speed. -/
def rampLength (v : Move) : Float := v.cruise * v.cruise / (2 * v.acceleration)

/-- The way of a ramp has overflowed, and with it the way that is left to cruise: it is
no number, or it is infinite where the whole way is infinite as well. -/
def IsLost (v : Move) : Prop :=
  v.rampLength.isNaN = true ∨ v.length.isInf = true ∧ v.rampLength.isInf = true

/-- A move without a length or a speed, which takes no time. -/
def IsIdle (v : Move) : Prop := v.length ≤ 0 ∨ v.cruise ≤ 0

/-- A move without a usable acceleration, which goes at constant speed. -/
def IsUniform (v : Move) : Prop := v.acceleration ≤ 0 ∨ v.acceleration.isFinite = false

/-- The time of the cruise and of the two ramps of a move. -/
def profileSeconds (v : Move) : Float :=
  let (speedUp, level, slowDown) := Trapezoid.distances v.length 0 0 v.cruise v.acceleration
  level / v.cruise + Trapezoid.rampSeconds speedUp v.cruise v.acceleration +
    Trapezoid.rampSeconds slowDown v.cruise v.acceleration

instance (v : Move) : Decidable v.IsIdle := inferInstanceAs (Decidable (_ ∨ _))

instance (v : Move) : Decidable v.IsUniform := inferInstanceAs (Decidable (_ ∨ _))

/-- **A move is timed by its profile, unless it has no length or no rate for that.** -/
theorem seconds_eq (v : Move) : v.seconds =
    if v.IsIdle then 0 else if v.IsUniform then v.length / v.cruise else v.profileSeconds := by
  have huniform : (v.acceleration ≤ 0 ∨ (!Rooted.isFinite v.acceleration) = true) ↔ v.IsUniform := by
    rw [Bool.not_eq_true']
    rfl
  unfold seconds moveSeconds Trapezoid.seconds
  rw [if_congr huniform rfl rfl]
  rfl

end Move

/-! ### Ramps -/

/-- The larger one of zero and anything else; zero is taken where the other one is no
number. -/
theorem larger_zero_isNonneg (x : Float) : IsNonneg (Trapezoid.larger x 0) := by
  unfold Trapezoid.larger
  split_ifs with h
  · obtain ⟨-, hnan⟩ := isNaN_of_le h
    rw [isNonneg_iff]
    exact ⟨hnan, (le_iff_value rfl hnan).mp h⟩
  · exact isNonneg_zero

/-- **The time of a ramp is never negative**, whatever it is computed from. -/
theorem rampSeconds_isNonneg (distance speed acceleration : Float) :
    IsNonneg (Trapezoid.rampSeconds distance speed acceleration) := by
  unfold Trapezoid.rampSeconds
  dsimp only
  split_ifs
  · exact isNonneg_zero
  · exact larger_zero_isNonneg _

/-- Twice a number that can be used is above zero: it may overflow, but not vanish. -/
theorem two_mul_pos {x : Float} (h : Reading.isUsable x = true) : 0 < 2 * x := by
  obtain ⟨hfinite, hpos⟩ := (isUsable_iff x).mp h
  have hvalue := (pos_iff_value (isNaN_of_lt hpos).2).mp hpos
  have htwo : value 2 = 2 := by decide +kernel
  obtain ⟨hnan, hmul⟩ := value_mul (x := 2) rfl hfinite
  rw [pos_iff_value hnan, hmul, htwo]
  calc 0 < value x := hvalue
    _ = nearest (value x) := (nearest_value hfinite).symm
    _ ≤ nearest (2 * value x) := nearest_mono (by linarith)

theorem not_le_zero {x : Float} (h : 0 < x) : ¬ x ≤ 0 := by
  obtain ⟨h0, hnan⟩ := isNaN_of_lt h
  rw [le_iff_value hnan h0, value_zero, not_le]
  exact (pos_iff_value hnan).mp h

namespace Move

/-- The way of a ramp is not negative, if it is a number. -/
theorem rampLength_isNonneg {v : Move} (h : v.IsUsable) (hnan : v.rampLength.isNaN = false) :
    IsNonneg v.rampLength := by
  obtain ⟨hfinite, hpos⟩ := (isUsable_iff v.cruise).mp h.cruise
  exact ((isNonneg_of_pos hpos).mul hfinite hpos).div_of_isNaN (two_mul_pos h.acceleration) hnan

/-- The way of speeding up, in the form that holds for any two rates at the ends. -/
theorem speedUp_eq (v : Move) :
    (v.cruise * v.cruise - 0 * 0) / (2 * v.acceleration) = v.rampLength := by
  have hzero : (0 : Float) * 0 = 0 := by decide
  rw [hzero, sub_zero_eq]
  rfl

/-- The way of slowing down is the same one, up to the sign of zero. -/
theorem slowDown_sameNumber (v : Move) :
    SameNumber ((0 * 0 - v.cruise * v.cruise) / (-2 * v.acceleration)) v.rampLength := by
  have hzero : (0 : Float) * 0 = 0 := by decide
  have hsub := (sameNumber_zero_sub (v.cruise * v.cruise)).div_left (-(2 * v.acceleration))
  rw [neg_div_neg_eq] at hsub
  rw [hzero, neg_mul_eq]
  exact hsub

theorem IsUsable.not_isIdle {v : Move} (h : v.IsUsable) : ¬ v.IsIdle := by
  obtain ⟨-, hcruise⟩ := (isUsable_iff v.cruise).mp h.cruise
  exact not_or.mpr ⟨not_le_zero h.length, not_le_zero hcruise⟩

theorem IsUsable.not_isUniform {v : Move} (h : v.IsUsable) : ¬ v.IsUniform := by
  obtain ⟨hfinite, hacceleration⟩ := (isUsable_iff v.acceleration).mp h.acceleration
  exact not_or.mpr ⟨not_le_zero hacceleration, ne_false_of_eq_true hfinite⟩

/-- A usable move is timed by its profile. -/
theorem IsUsable.seconds_eq {v : Move} (h : v.IsUsable) : v.seconds = v.profileSeconds := by
  rw [Move.seconds_eq, if_neg h.not_isIdle, if_neg h.not_isUniform]

/-- **The time of a move is that of a cruise and two ramps.**  If the ramps do not fit
into its way there is no cruise, and else the way of the cruise is what they leave. -/
theorem exists_cruise {v : Move} (h : v.IsUsable) :
    ∃ level ramp₁ ramp₂, IsNonneg ramp₁ ∧ IsNonneg ramp₂ ∧
      v.seconds = level / v.cruise + ramp₁ + ramp₂ ∧
      (v.length < v.rampLength + v.rampLength ∧ level = 0 ∨
        ¬ v.length < v.rampLength + v.rampLength ∧
          SameNumber level (v.length - v.rampLength - v.rampLength)) := by
  have hdown := v.slowDown_sameNumber
  have hfit : v.length < v.rampLength +
      (0 * 0 - v.cruise * v.cruise) / (-2 * v.acceleration) ↔
        v.length < v.rampLength + v.rampLength :=
    SameNumber.lt_iff (.refl _) ((SameNumber.refl _).add hdown)
  rw [h.seconds_eq]
  unfold profileSeconds Trapezoid.distances
  dsimp only
  rw [v.speedUp_eq]
  split_ifs with hlt
  · refine ⟨0, _, _, rampSeconds_isNonneg _ _ _, rampSeconds_isNonneg _ _ _, rfl, .inl ⟨?_, rfl⟩⟩
    exact hfit.mp hlt
  · refine ⟨_, _, _, rampSeconds_isNonneg _ _ _, rampSeconds_isNonneg _ _ _, rfl, .inr ⟨?_, ?_⟩⟩
    · rw [← hfit]
      exact hlt
    · exact (SameNumber.refl _).sub hdown

/-- Ramps that do not fit into the way of the move are not lost. -/
theorem not_isLost_of_lt {v : Move} (h : v.IsUsable) (hlt : v.length < v.rampLength + v.rampLength) :
    ¬ v.IsLost := by
  obtain ⟨hnan, hsum⟩ := isNaN_of_lt hlt
  rintro (hramp | ⟨hlength, -⟩)
  · rw [isNaN_add_left hramp] at hsum
    cases hsum
  · -- nothing is longer than an infinite way
    have hinfinity := (isInf_iff_of_isNonneg (isNonneg_of_pos h.length)).mp hlength
    have hvalue := (lt_iff_value hnan hsum).mp hlt
    rw [value_of_infinity hinfinity] at hvalue
    exact absurd hvalue (not_lt.mpr (value_le_overflow hsum))

/-- A finite way is not lost as long as the square of the cruise speed is finite. -/
theorem not_isLost_of_isFinite {v : Move} (h : v.IsUsable)
    (hsquare : (v.cruise * v.cruise).isFinite = true) (hlength : v.length.isFinite = true) :
    ¬ v.IsLost := by
  have htwice := two_mul_pos h.acceleration
  rintro (hramp | ⟨hinf, -⟩)
  · have hnan : v.rampLength.isNaN = false := by
      unfold rampLength
      rcases (isNonneg_of_pos htwice).isFinite_or with hfinite | hinfinity
      · have hvalue := (pos_iff_value (isNaN_of_lt htwice).2).mp htwice
        exact (value_div hsquare hfinite hvalue.ne').1
      · obtain ⟨s, hs⟩ := div_infinity hsquare hinfinity
        rw [hs]
        exact (value_ofParts_zero s).1
    rw [hnan] at hramp
    cases hramp
  · have hinfinity := (isInf_iff_of_isNonneg (isNonneg_of_pos h.length)).mp hinf
    rw [isFinite_eq, hinfinity] at hlength
    cases hlength

/-- **The time of a move is a number and not negative**, if the way of its ramps is not
lost. -/
theorem seconds_isNonneg {v : Move} (h : v.IsUsable) (hlost : ¬ v.IsLost) : IsNonneg v.seconds := by
  obtain ⟨hfinite, hpos⟩ := (isUsable_iff v.cruise).mp h.cruise
  obtain ⟨level, ramp₁, ramp₂, h₁, h₂, hseconds, hlevel⟩ := exists_cruise h
  obtain ⟨hnan, hinf⟩ := not_or.mp hlost
  have hramp := rampLength_isNonneg h (Bool.eq_false_iff.mpr hnan)
  have hcruise : IsNonneg level := by
    rcases hlevel with ⟨-, rfl⟩ | ⟨hfit, hsame⟩
    · exact isNonneg_zero
    · exact (sub_sub_isNonneg (isNonneg_of_pos h.length) hramp hfit hinf).congr hsame
  rw [hseconds]
  exact ((hcruise.div hfinite hpos).add h₁).add h₂

/-- **Where the way of its ramps is lost, the time of a move is no number.** -/
theorem seconds_of_isLost {v : Move} (h : v.IsUsable) (hlost : v.IsLost) :
    v.seconds.isNaN = true := by
  obtain ⟨level, ramp₁, ramp₂, -, -, hseconds, ⟨hlt, -⟩ | ⟨-, hsame⟩⟩ := exists_cruise h
  · exact absurd hlost (not_isLost_of_lt h hlt)
  · have hcruise : level.isNaN = true := by
      rw [hsame.isNaN_eq]
      by_cases hnan : v.rampLength.isNaN = true
      · exact isNaN_sub_left (isNaN_sub_right _ hnan) _
      · obtain ⟨hlength, hinf⟩ := hlost.resolve_left hnan
        have hramp := rampLength_isNonneg h (Bool.eq_false_iff.mpr hnan)
        refine isNaN_sub_left (isNaN_infinity_sub ?_ ?_) _
        · exact (isInf_iff_of_isNonneg (isNonneg_of_pos h.length)).mp hlength
        · exact (isInf_iff_of_isNonneg hramp).mp hinf
    rw [hseconds]
    exact isNaN_add_left (isNaN_add_left (isNaN_div_left hcruise _) _) _

end Move

end PenPlotter
