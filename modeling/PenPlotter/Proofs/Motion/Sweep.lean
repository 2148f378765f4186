import Mathlib
import PenPlotter.Proofs.Binary64.Approximation
import PenPlotter.Proofs.Motion.ArcRange

/-!
# The way an arc turns

Headings lie between zero and a full turn, the full turn included: added to a tiny angle
below zero it is rounded to itself.  So a heading that is moved on by a full turn has passed
every other one, and no rounding puts it back.  The sweep of an arc has the sign of its
winding therefore, and it leads to the direction of the point where the arc stops without
going round a second time.

## Main definitions

* `Trigonometry.HasAngles` — what is asked of the angles of vectors.
* `IsHeading` — a finite angle from zero up to a full turn.
* `Winding.Allows` — a sweep goes the way of the winding.
* `Arc.Leads` — a sweep leads from one heading to another.

## Main results

* `heading_isHeading` — the angle of a vector is a heading, also after rounding.
* `allows_angles`, `leads_angles` — which way, and how far, the angles of an arc lead.
* `Arc.sweep_follows` — **arcs turn the way they are told.**
-/

namespace PenPlotter

open Binary64

/-- Angles of vectors lie within half a turn of zero, also for vectors that are too long
for finite coordinates. -/
def Trigonometry.HasAngles [Trigonometry] : Prop :=
  ∀ y x : Float, y.isNaN = false → x.isNaN = false → (Trigonometry.atan2 y x).abs ≤ halfTurn

/-- A finite angle from zero up to a full turn. -/
structure IsHeading (angle : Float) : Prop where
  isFinite : angle.isFinite = true
  nonneg : 0 ≤ angle
  le_fullTurn : angle ≤ fullTurn

/-- The sweep goes the way of the winding, or nowhere. -/
def Winding.Allows : Winding → Float → Prop
  | .counterClockwise, sweep => 0 ≤ sweep
  | .clockwise, sweep => sweep ≤ 0

/-- The sweep leads from one heading to another: up to two roundings it is an angle
between them, so many full turns more, that is not longer than one full turn. -/
structure Arc.Leads (turns : ℤ) (start stop sweep : Float) : Prop where
  once : |toReal stop - toReal start + turns * toReal fullTurn| ≤ toReal fullTurn
  close : Close (2 ^ (-48 : ℤ)) sweep (toReal stop - toReal start + turns * toReal fullTurn)

/-! ### Headings -/

theorem moderate_sixteen : Moderate 1020 16 :=
  Moderate.mono (j := 4) ⟨by norm_num, by norm_num⟩ (by norm_num)

theorem two_roundings_le : roundoff * 16 + 0 + roundoff * 16 ≤ 2 ^ (-48 : ℤ) := by
  rw [roundoff_eq]
  norm_num

theorem toReal_fullTurn : 0 ≤ toReal fullTurn ∧ toReal fullTurn ≤ 8 := by
  have hnonneg : (0 : Float) ≤ fullTurn := by decide +kernel
  have hle : value fullTurn ≤ 2 ^ 3 := (le_abs_self _).trans within_fullTurn.abs_le
  rw [toReal_le_iff rfl within_fullTurn.isFinite, toReal_zero] at hnonneg
  refine ⟨hnonneg, ?_⟩
  unfold toReal
  norm_num at hle
  exact_mod_cast hle

namespace IsHeading

variable {start stop : Float}

theorem toReal_bounds (h : IsHeading start) : 0 ≤ toReal start ∧ toReal start ≤ toReal fullTurn := by
  have hnonneg := h.nonneg
  have hle := h.le_fullTurn
  rw [toReal_le_iff rfl h.isFinite, toReal_zero] at hnonneg
  rw [toReal_le_iff h.isFinite within_fullTurn.isFinite] at hle
  exact ⟨hnonneg, hle⟩

/-- A full turn more, up to one rounding. -/
theorem close_turned (h : IsHeading start) :
    Close (roundoff * 16) (start + fullTurn) (toReal start + toReal fullTurn) := by
  obtain ⟨hnonneg, hle⟩ := h.toReal_bounds
  obtain ⟨-, hturn⟩ := toReal_fullTurn
  have hclose := (Close.exact h.isFinite).add (.exact within_fullTurn.isFinite) (b := 16) (by
    rw [abs_of_nonneg (by linarith)]
    linarith) moderate_sixteen
  rwa [add_zero, zero_add] at hclose

/-- **A heading moved on by a full turn has passed all headings.** -/
theorem le_turned (hstart : IsHeading start) (hstop : IsHeading stop) :
    stop ≤ start + fullTurn := by
  have hturn := within_fullTurn.isFinite
  obtain ⟨hnan, hvalue⟩ := value_add hstart.isFinite hturn
  have hnonneg := (le_iff_value rfl (isNaN_of_isFinite hstart.isFinite)).mp hstart.nonneg
  have hle := (le_iff_value (isNaN_of_isFinite hstop.isFinite) (isNaN_of_isFinite hturn)).mp
    hstop.le_fullTurn
  rw [value_zero] at hnonneg
  rw [le_iff_value (isNaN_of_isFinite hstop.isFinite) hnan, hvalue]
  calc value stop ≤ value fullTurn := hle
    _ = nearest (value fullTurn) := (nearest_value hturn).symm
    _ ≤ nearest (value start + value fullTurn) := nearest_mono (by linarith)

end IsHeading

/-! ### The angles of an arc -/

section

variable {start stop : Float}

/-- **The sweep has the sign of its winding.** -/
theorem allows_angles (hstart : IsHeading start) (hstop : IsHeading stop) (winding : Winding) :
    winding.Allows ((Arc.angles start stop winding).2 - (Arc.angles start stop winding).1) := by
  have hnan := (value_sub hstop.isFinite hstart.isFinite).1
  cases winding with
  | clockwise =>
    unfold Arc.angles
    dsimp only
    split_ifs with hpos
    · exact sub_le_zero hstop.isFinite hstart.close_turned.isFinite (hstart.le_turned hstop)
    · exact (not_lt_iff_le rfl hnan).mp hpos
  | counterClockwise =>
    unfold Arc.angles
    dsimp only
    split_ifs with hneg
    · exact zero_le_sub hstop.close_turned.isFinite hstart.isFinite (hstop.le_turned hstart)
    · exact (not_lt_iff_le hnan rfl).mp hneg

theorem Arc.Leads.of_close {turns : ℤ} {sweep : Float} {e r : ℝ}
    (hexact : toReal stop - toReal start + turns * toReal fullTurn = r)
    (honce : |r| ≤ toReal fullTurn) (hclose : Close e sweep r) (herror : e ≤ 2 ^ (-48 : ℤ)) :
    Arc.Leads turns start stop sweep := by
  subst hexact
  exact ⟨honce, hclose.mono herror⟩

/-- The way from one heading straight to another. -/
theorem leads_sub (hstart : IsHeading start) (hstop : IsHeading stop) :
    Arc.Leads 0 start stop (stop - start) := by
  obtain ⟨hnonneg, hle⟩ := hstart.toReal_bounds
  obtain ⟨hnonneg', hle'⟩ := hstop.toReal_bounds
  obtain ⟨-, hturn⟩ := toReal_fullTurn
  have honce : |toReal stop - toReal start| ≤ toReal fullTurn :=
    abs_le.mpr ⟨by linarith, by linarith⟩
  have hclose := (Close.exact hstop.isFinite).sub (.exact hstart.isFinite) (b := 16)
    (by linarith) moderate_sixteen
  refine .of_close ?_ honce hclose ?_
  · rw [Int.cast_zero, zero_mul, add_zero]
  · linarith [two_roundings_le, roundoff_pos]

/-- The way on to a smaller heading, which lies a full turn ahead. -/
theorem leads_ahead (hstart : IsHeading start) (hstop : IsHeading stop) (h : stop < start) :
    Arc.Leads 1 start stop (stop + fullTurn - start) := by
  obtain ⟨hnonneg, hle⟩ := hstart.toReal_bounds
  obtain ⟨hnonneg', hle'⟩ := hstop.toReal_bounds
  obtain ⟨-, hturn⟩ := toReal_fullTurn
  rw [toReal_lt_iff hstop.isFinite hstart.isFinite] at h
  have honce : |toReal stop + toReal fullTurn - toReal start| ≤ toReal fullTurn :=
    abs_le.mpr ⟨by linarith, by linarith⟩
  have hclose := hstop.close_turned.sub (.exact hstart.isFinite) (b := 16)
    (by linarith [roundoff_le]) moderate_sixteen
  refine .of_close ?_ honce hclose two_roundings_le
  push_cast
  ring

/-- The way back to a larger heading, which lies a full turn behind. -/
theorem leads_behind (hstart : IsHeading start) (hstop : IsHeading stop) (h : start < stop) :
    Arc.Leads (-1) start stop (stop - (start + fullTurn)) := by
  obtain ⟨hnonneg, hle⟩ := hstart.toReal_bounds
  obtain ⟨hnonneg', hle'⟩ := hstop.toReal_bounds
  obtain ⟨-, hturn⟩ := toReal_fullTurn
  rw [toReal_lt_iff hstart.isFinite hstop.isFinite] at h
  have honce : |toReal stop - (toReal start + toReal fullTurn)| ≤ toReal fullTurn :=
    abs_le.mpr ⟨by linarith, by linarith⟩
  have hclose := (Close.exact hstop.isFinite).sub hstart.close_turned (b := 16)
    (by linarith [roundoff_le]) moderate_sixteen
  refine .of_close ?_ honce hclose ?_
  · push_cast
    ring
  · linarith [two_roundings_le]

/-- **The sweep leads from the one heading to the other**, at most once around. -/
theorem leads_angles (hstart : IsHeading start) (hstop : IsHeading stop) (winding : Winding) :
    ∃ turns, Arc.Leads turns start stop
      ((Arc.angles start stop winding).2 - (Arc.angles start stop winding).1) := by
  cases winding with
  | clockwise =>
    unfold Arc.angles
    dsimp only
    split_ifs with hpos
    · exact ⟨-1, leads_behind hstart hstop (lt_of_sub_pos hstop.isFinite hstart.isFinite hpos)⟩
    · exact ⟨0, leads_sub hstart hstop⟩
  | counterClockwise =>
    unfold Arc.angles
    dsimp only
    split_ifs with hneg
    · exact ⟨1, leads_ahead hstart hstop (lt_of_sub_neg hstop.isFinite hstart.isFinite hneg)⟩
    · exact ⟨0, leads_sub hstart hstop⟩

end

/-! ### Arcs -/

section

variable [Trigonometry]

/-- **The angle of a vector is a heading.**  An angle below zero takes at most half a turn
from the full one, and the rounded sum stays in between. -/
theorem heading_isHeading (htrig : Trigonometry.HasAngles) {dy dx : Float} (hy : dy.isNaN = false)
    (hx : dx.isNaN = false) : IsHeading (heading dy dx) := by
  have hangle := within_halfTurn.of_abs_le (htrig dy dx hy hx)
  have hturn := within_fullTurn.isFinite
  have hfour : 4 ≤ value fullTurn := by decide +kernel
  unfold heading
  dsimp only
  generalize Trigonometry.atan2 dy dx = angle at hangle ⊢
  have hnan := isNaN_of_isFinite hangle.isFinite
  obtain ⟨hlow, hhigh⟩ := abs_le.mp hangle.abs_le
  split_ifs with hneg
  · have hfinite := (within_fullTurn.add (hangle.mono (by norm_num)) (by norm_num)).isFinite
    obtain ⟨hsum, hvalue⟩ := value_add hturn hangle.isFinite
    rw [lt_iff_value hnan rfl, value_zero] at hneg
    refine ⟨hfinite, ?_, ?_⟩
    · rw [le_iff_value rfl hsum, value_zero, hvalue]
      exact nearest_nonneg (by linarith)
    · rw [le_iff_value hsum (isNaN_of_isFinite hturn), hvalue]
      calc nearest (value fullTurn + value angle) ≤ nearest (value fullTurn) :=
            nearest_mono (by linarith)
        _ = value fullTurn := nearest_value hturn
  · refine ⟨hangle.isFinite, (not_lt_iff_le hnan rfl).mp hneg, ?_⟩
    rw [le_iff_value hnan (isNaN_of_isFinite hturn)]
    linarith

namespace Arc

/-- **Arcs turn the way they are told.**  The sweep of an arc between finite points around a
finite centre is a number, not below zero if the arc is counter-clockwise and not above zero
if it is clockwise.  It leads from the heading of the start to the heading of the stop, at
most once around. -/
theorem sweep_follows (htrig : Trigonometry.HasAngles) {start stop center : Point}
    (hstart : start.IsFinite) (hstop : stop.IsFinite) (hcenter : center.IsFinite)
    (winding : Winding) :
    let sweep := (between start stop center winding).sweep
    sweep.isNaN = false ∧ winding.Allows sweep ∧
      ∃ turns, Leads turns (heading (start.y - center.y) (start.x - center.x))
        (heading (stop.y - center.y) (stop.x - center.x)) sweep := by
  have hheading : ∀ p : Point, p.IsFinite →
      IsHeading (heading (p.y - center.y) (p.x - center.x)) := by
    intro p hp
    exact heading_isHeading htrig (value_sub hp.y hcenter.y).1 (value_sub hp.x hcenter.x).1
  have hfrom := hheading start hstart
  have hto := hheading stop hstop
  obtain ⟨turns, hleads⟩ := leads_angles hfrom hto winding
  exact ⟨isNaN_of_isFinite hleads.close.isFinite, allows_angles hfrom hto winding, turns, hleads⟩

end Arc

end

/-- The angles of vectors along the axes. -/
@[reducible]
def axisTrigonometry : Trigonometry where
  sin := Float.sin
  cos := Float.cos
  atan2 y x :=
    if y == 0 then (if x < 0 then halfTurn else 0)
    else if 0 < y then 1.5707963267948966 else -1.5707963267948966

/-- From below the centre to its right, a quarter of a turn counter-clockwise and three
quarters clockwise: a full turn is added to the one heading and then to the other. -/
theorem Arc.sweep_follows_sample :
    (@Trigonometry.HasAngles axisTrigonometry ∧
      (⟨0, -10⟩ : Point).IsFinite ∧ (⟨10, 0⟩ : Point).IsFinite ∧ Point.origin.IsFinite) ∧
    (Winding.counterClockwise.Allows
        (@Arc.between axisTrigonometry ⟨0, -10⟩ ⟨10, 0⟩ Point.origin .counterClockwise).sweep ∧
      Winding.clockwise.Allows
        (@Arc.between axisTrigonometry ⟨0, -10⟩ ⟨10, 0⟩ Point.origin .clockwise).sweep) ∧
    ((@Arc.between axisTrigonometry ⟨0, -10⟩ ⟨10, 0⟩ Point.origin .counterClockwise).sweep =
        1.5707963267948966 ∧
      (@Arc.between axisTrigonometry ⟨0, -10⟩ ⟨10, 0⟩ Point.origin .clockwise).sweep =
        -4.71238898038469) := by
  have htrig : @Trigonometry.HasAngles axisTrigonometry := by
    intro y x _ _
    change Float.abs (if y == 0 then (if x < 0 then halfTurn else 0)
      else if 0 < y then 1.5707963267948966 else -1.5707963267948966) ≤ halfTurn
    split_ifs <;> decide +kernel
  have hstart : (⟨0, -10⟩ : Point).IsFinite := ⟨rfl, rfl⟩
  have hstop : (⟨10, 0⟩ : Point).IsFinite := ⟨rfl, rfl⟩
  have hcenter : Point.origin.IsFinite := ⟨rfl, rfl⟩
  have hfollows := @Arc.sweep_follows axisTrigonometry htrig _ _ _ hstart hstop hcenter
  refine ⟨⟨htrig, hstart, hstop, hcenter⟩, ⟨?_, ?_⟩, by decide +kernel⟩
  · exact (hfollows .counterClockwise).2.1
  · exact (hfollows .clockwise).2.1

end PenPlotter
