import Mathlib
import PenPlotter.Motion.Arc
import PenPlotter.Proofs.Binary64.Bounds

/-!
# Arcs stay in range

An arc with a finite length has a circle of moderate size: its radius is a root, and
roots of finite numbers are small.  So the points of an arc stay finite wherever its
centre is, as long as sines, cosines and angles are as small as they should be.

## Main definitions

* `Trigonometry.IsBounded` — what is asked of sines, cosines and angles.
* `Point.IsFinite` — a point with finite coordinates.

## Main results

* `within_angles` — the angles of an arc between finite points are moderate.
* `isFinite_of_length` — an arc with a finite length has a finite centre and a
  moderate radius.
* `point_isFinite` — **the points of an arc with a finite length are finite.**
-/

namespace PenPlotter

open Binary64

/-- A point with finite coordinates. -/
structure Point.IsFinite (p : Point) : Prop where
  x : p.x.isFinite = true
  y : p.y.isFinite = true

/-- Half a turn, `π`. -/
def halfTurn : Float := 3.141592653589793

/-- Sines and cosines of finite angles lie between minus one and one, and angles of
vectors lie within half a turn of zero, also for vectors that are too long for finite
coordinates. -/
structure Trigonometry.IsBounded [Trigonometry] : Prop where
  sin : ∀ angle, angle.isFinite = true → (Trigonometry.sin angle).abs ≤ 1
  cos : ∀ angle, angle.isFinite = true → (Trigonometry.cos angle).abs ≤ 1
  atan2 : ∀ y x, y.isNaN = false → x.isNaN = false → (Trigonometry.atan2 y x).abs ≤ halfTurn

/-! ### Bounds from comparisons -/

namespace Binary64

/-- What is not longer than a bounded number is bounded. -/
theorem Within.of_abs_le {k : ℕ} {x b : Float} (hb : Within k b) (h : x.abs ≤ b) : Within k x := by
  have hnan := isNaN_of_le h
  have hvalue := (le_iff_value hnan.1 hnan.2).mp h
  rw [value_abs] at hvalue
  have hle : |value x| ≤ |value b| := hvalue.trans (le_abs_self _)
  rw [isNaN_abs] at hnan
  refine ⟨(isFinite_iff_abs_lt x).mpr ⟨hnan.1, ?_⟩, hle.trans hb.abs_le⟩
  exact hle.trans_lt ((isFinite_iff_abs_lt b).mp hb.isFinite).2

theorem within_natCast {k : ℕ} (hk : k < 53) : Within k (Float.ofNat (2 ^ k)) := by
  obtain ⟨hfinite, hvalue⟩ := value_natCast (Nat.pow_lt_pow_right one_lt_two hk)
  refine ⟨hfinite, ?_⟩
  rw [hvalue]
  push_cast
  exact (abs_of_pos (by positivity)).le

theorem within_one : Within 0 1 := within_natCast (by norm_num)

theorem within_halfTurn : Within 2 halfTurn :=
  (within_natCast (by norm_num)).of_abs_le (by decide +kernel)

theorem within_fullTurn : Within 3 fullTurn :=
  (within_natCast (by norm_num)).of_abs_le (by decide +kernel)

end Binary64

/-! ### Angles -/

/-- A full turn more leaves angles moderate. -/
theorem within_angles {start stop : Float} (hstart : Within 4 start) (hstop : Within 4 stop)
    (winding : Winding) : Within 5 (Arc.angles start stop winding).1 ∧
      Within 5 (Arc.angles start stop winding).2 := by
  have hturn : Within 4 fullTurn := within_fullTurn.mono (by norm_num)
  cases winding with
  | clockwise =>
    refine ⟨?_, hstop.mono (by norm_num)⟩
    unfold Arc.angles
    dsimp only
    split_ifs
    · exact hstart.add hturn (by norm_num)
    · exact hstart.mono (by norm_num)
  | counterClockwise =>
    refine ⟨hstart.mono (by norm_num), ?_⟩
    unfold Arc.angles
    dsimp only
    split_ifs
    · exact hstop.add hturn (by norm_num)
    · exact hstop.mono (by norm_num)

section

variable [Trigonometry]

/-- The heading of a vector is moderate. -/
theorem within_heading (htrig : Trigonometry.IsBounded) {dy dx : Float} (hy : dy.isNaN = false)
    (hx : dx.isNaN = false) : Within 4 (heading dy dx) := by
  have hangle : Within 3 (Trigonometry.atan2 dy dx) :=
    (within_halfTurn.of_abs_le (htrig.atan2 dy dx hy hx)).mono (by norm_num)
  unfold heading
  dsimp only
  split_ifs
  · exact within_fullTurn.add hangle (by norm_num)
  · exact hangle.mono (by norm_num)

/-! ### Arcs -/

namespace Arc

variable {start stop center : Point} {winding : Winding}

/-- **An arc with a finite length has a finite centre and a moderate radius.** -/
theorem isFinite_of_length (h : (between start stop center winding).length.isFinite = true) :
    center.IsFinite ∧ Within 512 (between start stop center winding).radius := by
  obtain ⟨hsum, hradius⟩ := within_sqrt (isFinite_of_mul h).2
  obtain ⟨hx, hy⟩ := isFinite_of_add hsum
  refine ⟨⟨?_, ?_⟩, hradius⟩
  · exact (isFinite_of_sub (isFinite_of_mul hx).1).2
  · exact (isFinite_of_sub (isFinite_of_mul hy).1).2

/-- The angles of an arc between finite points are moderate, wherever it stops. -/
theorem within_between (htrig : Trigonometry.IsBounded) (hstart : start.IsFinite)
    (hstop : stop.IsFinite) (hcenter : center.IsFinite) (winding : Winding) :
    Within 5 (between start stop center winding).startAngle ∧
      Within 6 (between start stop center winding).sweep := by
  have hheading : ∀ p : Point, p.IsFinite → Within 4 (heading (p.y - center.y) (p.x - center.x)) := by
    intro p hp
    exact within_heading htrig (value_sub hp.y hcenter.y).1 (value_sub hp.x hcenter.x).1
  obtain ⟨hfrom, hto⟩ := within_angles (hheading start hstart) (hheading stop hstop) winding
  exact ⟨hfrom, hto.sub hfrom (by norm_num)⟩

/-- **The points of an arc with a finite length are finite.** -/
theorem point_isFinite (htrig : Trigonometry.IsBounded) (hstart : start.IsFinite)
    (hstop : stop.IsFinite) (h : (between start stop center winding).length.isFinite = true)
    {fraction : Float} (hfraction : Within 0 fraction) :
    ((between start stop center winding).point fraction).IsFinite := by
  obtain ⟨hcenter, hradius⟩ := isFinite_of_length h
  obtain ⟨hangle, hsweep⟩ := within_between htrig hstart hstop hcenter winding
  have hturned := (hangle.mono (by norm_num)).add (hsweep.mul hfraction (by norm_num)) (by norm_num)
  have hleg : ∀ {c : Float}, c.abs ≤ 1 →
      Within 969 (c * (between start stop center winding).radius) := by
    intro c hc
    exact ((within_one.of_abs_le hc).mul hradius (by norm_num)).mono (by norm_num)
  exact ⟨isFinite_add_small hcenter.x (hleg (htrig.cos _ hturned.isFinite)),
    isFinite_add_small hcenter.y (hleg (htrig.sin _ hturned.isFinite))⟩

end Arc

end

end PenPlotter
