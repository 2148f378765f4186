import Mathlib
import PenPlotter.Proofs.Binary64.Values

/-!
# Machine numbers that are not negative

Sums and quotients of numbers that are not negative are not negative, and neither are
differences of a larger and a smaller number, as long as no two infinities meet.

## Main definitions

* `IsNonneg x` — `x` is a number, and it is not below zero.

## Main results

* `IsNonneg.add`, `IsNonneg.mul`, `IsNonneg.div` — arithmetic.
* `zero_le_sub`, `lt_of_sub_neg` — the sign of a difference and the order of its operands.
* `sub_sub_isNonneg` — **a number from which two equal parts are taken** that fit into it.
* `abs_sub_pos` — the distance of two different numbers is above zero.
-/

namespace PenPlotter
namespace Binary64

open Float.Model
open Float.Model.UnpackedFloat (Sign)

/-- It is a number, and it is not below zero. -/
def IsNonneg (x : Float) : Prop := x.isNaN = false ∧ ¬ x < 0

@[simp] theorem value_zero : value 0 = 0 := rfl

theorem isNonneg_iff (x : Float) : IsNonneg x ↔ x.isNaN = false ∧ 0 ≤ value x := by
  refine and_congr_right ?_
  intro hx
  rw [lt_iff_value hx rfl, value_zero, not_lt]

/-- The sign of zero does not count. -/
theorem IsNonneg.congr {x y : Float} (hx : IsNonneg x) (h : SameNumber y x) : IsNonneg y := by
  refine ⟨h.isNaN_eq.trans hx.1, ?_⟩
  rw [h.lt_iff (.refl 0)]
  exact hx.2

theorem isNonneg_zero : IsNonneg 0 := by
  rw [isNonneg_iff]
  exact ⟨rfl, le_rfl⟩

/-- A number is above zero if its value is. -/
theorem pos_iff_value {x : Float} (hx : x.isNaN = false) : 0 < x ↔ 0 < value x :=
  lt_iff_value rfl hx

theorem isNonneg_of_pos {x : Float} (h : 0 < x) : IsNonneg x := by
  have hx := (isNaN_of_lt h).2
  rw [isNonneg_iff]
  exact ⟨hx, ((pos_iff_value hx).mp h).le⟩

/-! ### Infinity -/

/-- A number that is not negative is finite or infinite. -/
theorem IsNonneg.isFinite_or {x : Float} (h : IsNonneg x) :
    x.isFinite = true ∨ parts x = .infinity .positive := by
  obtain ⟨hx, hvalue⟩ := (isNonneg_iff x).mp h
  rw [isNaN_eq] at hx
  rw [isFinite_eq]
  unfold value at hvalue
  cases hu : parts x with
  | notANumber => rw [hu] at hx; cases hx
  | infinity s =>
    cases s with
    | positive => exact .inr rfl
    | negative =>
      rw [hu] at hvalue
      simp [partsValue, Sign.apply] at hvalue
      exact absurd overflow_pos (not_lt.mpr hvalue)
  | zero s => exact .inl rfl
  | finite s m e hm => exact .inl rfl

theorem value_of_infinity {x : Float} (h : parts x = .infinity .positive) : value x = overflow := by
  rw [value, h]
  simp [partsValue, Sign.apply]

theorem isInf_iff_of_isNonneg {x : Float} (h : IsNonneg x) :
    x.isInf = true ↔ parts x = .infinity .positive := by
  rw [isInf_eq]
  constructor
  · intro hinf
    rcases h.isFinite_or with hfinite | hx
    · rcases parts_of_isFinite hfinite with ⟨s, hu⟩ | ⟨s, m, e, hm, hu⟩ <;> rw [hu] at hinf <;>
        cases hinf
    · exact hx
  · intro hx
    rw [hx]
    rfl

/-- The finite numbers lie below the first power of two beyond them. -/
theorem value_lt_of_isFinite {x : Float} (hx : x.isFinite = true) : value x < overflow := by
  rcases parts_of_isFinite hx with ⟨s, hu⟩ | ⟨s, m, e, hm, hu⟩
  · rw [value_of_zero hu]
    exact overflow_pos
  · have hlt := (canonical_of_parts hu).value_lt
    have hm' : (0 : ℚ) < m * 2 ^ e := by positivity
    rw [value_of_finite hu]
    cases s <;> simp [Sign.apply] <;> linarith

theorem value_le_overflow {x : Float} (hx : x.isNaN = false) : value x ≤ overflow := by
  by_cases hfinite : x.isFinite = true
  · exact (value_lt_of_isFinite hfinite).le
  · have hpos := overflow_pos
    rw [isNaN_eq] at hx
    rw [isFinite_eq] at hfinite
    unfold value
    cases hu : parts x with
    | notANumber => rw [hu] at hx; cases hx
    | infinity s =>
      cases s with
      | positive => simp [partsValue, Sign.apply]
      | negative =>
        simp only [partsValue, Sign.apply]
        push_cast
        linarith
    | _ => rw [hu] at hfinite; exact absurd rfl hfinite

theorem IsNonneg.isFinite_of_value_lt {x : Float} (h : IsNonneg x) (hlt : value x < overflow) :
    x.isFinite = true := by
  rcases h.isFinite_or with hx | hx
  · exact hx
  · rw [value_of_infinity hx] at hlt
    exact absurd hlt (lt_irrefl _)

/-- Nothing that is added to infinity changes it. -/
theorem infinity_add {x y : Float} (hx : parts x = .infinity .positive) (hy : IsNonneg y) :
    x + y = x := by
  have hsum : UnpackedFloat.add Format.binary64 (.infinity .positive) (parts y) =
      .infinity .positive := by
    rcases hy.isFinite_or with hfinite | hinf
    · rcases parts_of_isFinite hfinite with ⟨s, hv⟩ | ⟨s, m, e, hm, hv⟩ <;> rw [hv] <;> rfl
    · rw [hinf]
      rfl
  rw [add_eq, hx, hsum, ← hx, ofParts_parts]

theorem add_comm_eq (x y : Float) : x + y = y + x := by
  rw [add_eq, add_eq]
  congr 1
  cases parts x with
  | notANumber => cases parts y <;> rfl
  | infinity s => cases parts y with
    | infinity t => cases s <;> cases t <;> rfl
    | _ => rfl
  | zero s => cases parts y with
    | zero t => cases s <;> cases t <;> rfl
    | _ => rfl
  | finite s m e hm => cases parts y with
    | finite t n f hn => simp only [UnpackedFloat.add, min_comm f e, add_comm]
    | _ => rfl

theorem infinity_sub {x y : Float} (hx : parts x = .infinity .positive) (hy : y.isFinite = true) :
    x - y = x := by
  have hdifference : UnpackedFloat.sub Format.binary64 (.infinity .positive) (parts y) =
      .infinity .positive := by
    rcases parts_of_isFinite hy with ⟨s, hv⟩ | ⟨s, m, e, hm, hv⟩ <;> rw [hv] <;> rfl
  rw [sub_eq, hx, hdifference, ← hx, ofParts_parts]

/-- Infinity taken from infinity is no number. -/
theorem isNaN_infinity_sub {x y : Float} (hx : parts x = .infinity .positive)
    (hy : parts y = .infinity .positive) : (x - y).isNaN = true := by
  rw [sub_eq, hx, hy]
  exact isNaN_ofParts_notANumber

/-- A number above zero is finite or infinite, with a positive sign. -/
theorem parts_of_pos {x : Float} (h : 0 < x) :
    parts x = .infinity .positive ∨ ∃ m e hm, parts x = .finite .positive m e hm := by
  have hvalue := (pos_iff_value (isNaN_of_lt h).2).mp h
  rcases (isNonneg_of_pos h).isFinite_or with hx | hx
  · rcases parts_of_isFinite hx with ⟨s, hu⟩ | ⟨s, m, e, hm, hu⟩
    · rw [value_of_zero hu] at hvalue
      exact absurd hvalue (lt_irrefl 0)
    · cases s with
      | positive => exact .inr ⟨m, e, hm, hu⟩
      | negative =>
        have hm' : (0 : ℚ) < m * 2 ^ e := by positivity
        rw [value_of_finite hu] at hvalue
        simp only [Sign.apply] at hvalue
        push_cast at hvalue
        linarith
  · exact .inl hx

/-! ### Arithmetic -/

theorem IsNonneg.value_nonneg {x : Float} (h : IsNonneg x) : 0 ≤ value x := ((isNonneg_iff x).mp h).2

theorem isNonneg_of_value {x : Float} {v : ℚ} (h : x.isNaN = false ∧ value x = nearest v)
    (hv : 0 ≤ v) : IsNonneg x := by
  rw [isNonneg_iff, h.2]
  exact ⟨h.1, nearest_nonneg hv⟩

theorem IsNonneg.add {x y : Float} (hx : IsNonneg x) (hy : IsNonneg y) : IsNonneg (x + y) := by
  rcases hx.isFinite_or with hxf | hxi
  · rcases hy.isFinite_or with hyf | hyi
    · exact isNonneg_of_value (value_add hxf hyf) (add_nonneg hx.value_nonneg hy.value_nonneg)
    · rw [add_comm_eq, infinity_add hyi hx]
      exact hy
  · rw [infinity_add hxi hy]
    exact hx

/-- A finite number above zero scales infinity to infinity. -/
theorem infinity_mul_div {x y : Float} (hx : parts x = .infinity .positive) (hy : y.isFinite = true)
    (hpos : 0 < y) : x * y = x ∧ x / y = x := by
  rw [isFinite_eq] at hy
  rw [mul_eq, div_eq, hx]
  rcases parts_of_pos hpos with hv | ⟨n, f, hn, hv⟩
  · rw [hv] at hy
    cases hy
  · have hself : ofParts (.infinity .positive) = x := (congrArg ofParts hx.symm).trans (ofParts_parts x)
    rw [hv]
    exact ⟨hself, hself⟩

/-- A product with a finite number above zero. -/
theorem IsNonneg.mul {x y : Float} (hx : IsNonneg x) (hy : y.isFinite = true) (hpos : 0 < y) :
    IsNonneg (x * y) := by
  rcases hx.isFinite_or with hxf | hxi
  · exact isNonneg_of_value (value_mul hxf hy)
      (mul_nonneg hx.value_nonneg (isNonneg_of_pos hpos).value_nonneg)
  · rw [(infinity_mul_div hxi hy hpos).1]
    exact hx

/-- A quotient by a finite number above zero. -/
theorem IsNonneg.div {x y : Float} (hx : IsNonneg x) (hy : y.isFinite = true) (hpos : 0 < y) :
    IsNonneg (x / y) := by
  rcases hx.isFinite_or with hxf | hxi
  · have hvalue := (pos_iff_value (isNaN_of_lt hpos).2).mp hpos
    exact isNonneg_of_value (value_div hxf hy hvalue.ne') (div_nonneg hx.value_nonneg hvalue.le)
  · rw [(infinity_mul_div hxi hy hpos).2]
    exact hx

/-- A finite number over infinity is a zero. -/
theorem div_infinity {x y : Float} (hx : x.isFinite = true) (hy : parts y = .infinity .positive) :
    ∃ s, x / y = ofParts (.zero s) := by
  rw [div_eq, hy]
  rcases parts_of_isFinite hx with ⟨s, hu⟩ | ⟨s, m, e, hm, hu⟩ <;> rw [hu] <;> exact ⟨_, rfl⟩

/-- A quotient by a number above zero is not negative, unless it is that of two
infinities. -/
theorem IsNonneg.div_of_isNaN {x y : Float} (hx : IsNonneg x) (hpos : 0 < y)
    (h : (x / y).isNaN = false) : IsNonneg (x / y) := by
  rcases (isNonneg_of_pos hpos).isFinite_or with hy | hy
  · exact hx.div hy hpos
  · rcases hx.isFinite_or with hxf | hxi
    · obtain ⟨s, hs⟩ := div_infinity hxf hy
      rw [hs, isNonneg_iff, (value_ofParts_zero s).2]
      exact ⟨(value_ofParts_zero s).1, le_rfl⟩
    · rw [div_eq, hxi, hy] at h
      cases h

/-- A smaller number taken from a larger one. -/
theorem isNonneg_sub {x y : Float} (hx : x.isFinite = true) (hy : y.isFinite = true)
    (h : value y ≤ value x) : IsNonneg (x - y) :=
  isNonneg_of_value (value_sub hx hy) (sub_nonneg.mpr h)

/-- A difference is not rounded across zero. -/
theorem zero_le_sub {x y : Float} (hx : x.isFinite = true) (hy : y.isFinite = true)
    (h : y ≤ x) : 0 ≤ x - y := by
  rw [le_iff_value (isNaN_of_isFinite hy) (isNaN_of_isFinite hx)] at h
  obtain ⟨hnan, hneg⟩ := isNonneg_sub hx hy h
  exact (not_lt_iff_le hnan rfl).mp hneg

theorem sub_le_zero {x y : Float} (hx : x.isFinite = true) (hy : y.isFinite = true)
    (h : x ≤ y) : x - y ≤ 0 := by
  obtain ⟨hnan, hvalue⟩ := value_sub hx hy
  rw [le_iff_value (isNaN_of_isFinite hx) (isNaN_of_isFinite hy)] at h
  rw [le_iff_value hnan rfl, value_zero, hvalue, ← nearest_zero]
  exact nearest_mono (sub_nonpos.mpr h)

/-- So the sign of a difference tells which number is the larger one. -/
theorem lt_of_sub_neg {x y : Float} (hx : x.isFinite = true) (hy : y.isFinite = true)
    (h : x - y < 0) : x < y := by
  have hnan := (value_sub hx hy).1
  by_contra hle
  rw [not_lt_iff_le (isNaN_of_isFinite hx) (isNaN_of_isFinite hy)] at hle
  exact (not_lt_iff_le hnan rfl).mpr (zero_le_sub hx hy hle) h

theorem lt_of_sub_pos {x y : Float} (hx : x.isFinite = true) (hy : y.isFinite = true)
    (h : 0 < x - y) : y < x := by
  have hnan := (value_sub hx hy).1
  by_contra hle
  rw [not_lt_iff_le (isNaN_of_isFinite hy) (isNaN_of_isFinite hx)] at hle
  exact (not_lt_iff_le rfl hnan).mpr (sub_le_zero hx hy hle) h

/-! ### Two equal parts -/

/-- Twice a number is exact, if it does not overflow. -/
theorem value_add_self {x : Float} (hx : x.isFinite = true) (hpos : 0 ≤ value x) :
    value (x + x) = min (2 * value x) overflow := by
  rw [(value_add hx hx).2, ← two_mul, nearest_of_nonneg (by linarith)]
  congr 1
  rcases parts_of_isFinite hx with ⟨s, hu⟩ | ⟨s, m, e, hm, hu⟩
  · rw [value_of_zero hu, mul_zero, roundedValue_zero]
  · have hc := canonical_of_parts hu
    have hge := hc.ge
    have hm' : (0 : ℚ) < m * 2 ^ e := by positivity
    have hvalue := value_of_finite hu
    cases s with
    | negative =>
      simp only [Sign.apply] at hvalue
      push_cast at hvalue
      linarith
    | positive =>
      have hdouble : 2 * value x = m * 2 ^ (e + 1) := by
        rw [hvalue, zpow_add_one₀ two_ne_zero]
        simp only [Sign.apply]
        push_cast
        ring
      rw [hdouble]
      exact roundedValue_of_multiple hc.lt (by omega)

/-- A part fits twice into a number that its double does not exceed. -/
theorem two_mul_value_le {x y : Float} (hx : x.isFinite = true) (hy : IsNonneg y) (h : ¬ x < y + y) :
    y.isFinite = true ∧ 2 * value y ≤ value x := by
  have hlt := value_lt_of_isFinite hx
  rw [lt_iff_value (isNaN_of_isFinite hx) (hy.add hy).1, not_lt] at h
  rcases hy.isFinite_or with hyf | hyi
  · rw [value_add_self hyf hy.value_nonneg] at h
    refine ⟨hyf, (min_le_iff.mp h).resolve_right (not_le.mpr hlt)⟩
  · rw [infinity_add hyi hy, value_of_infinity hyi] at h
    exact absurd h (not_le.mpr hlt)

/-- **A number from which two equal parts are taken** that fit into it is not negative.
What is left by the first part is at least the second one, also when it was rounded. -/
theorem sub_sub_isNonneg {x y : Float} (hx : IsNonneg x) (hy : IsNonneg y) (h : ¬ x < y + y)
    (hinf : ¬ (x.isInf = true ∧ y.isInf = true)) : IsNonneg (x - y - y) := by
  rcases hx.isFinite_or with hxf | hxi
  · obtain ⟨hyf, htwice⟩ := two_mul_value_le hxf hy h
    have hy0 := hy.value_nonneg
    obtain ⟨hnan, hvalue⟩ := value_sub hxf hyf
    have hle : value y ≤ value (x - y) := by
      rw [hvalue]
      calc value y = nearest (value y) := (nearest_value hyf).symm
        _ ≤ nearest (value x - value y) := nearest_mono (by linarith)
    have hlt : value (x - y) < overflow := by
      refine lt_of_le_of_lt ?_ (value_lt_of_isFinite hxf)
      rw [hvalue]
      calc nearest (value x - value y) ≤ nearest (value x) := nearest_mono (by linarith)
        _ = value x := nearest_value hxf
    have hrest : IsNonneg (x - y) := by
      rw [isNonneg_iff]
      exact ⟨hnan, hy0.trans hle⟩
    exact isNonneg_sub (hrest.isFinite_of_value_lt hlt) hyf hle
  · have hyf : y.isFinite = true := by
      refine hy.isFinite_or.resolve_right ?_
      intro hyi
      exact hinf ⟨(isInf_iff_of_isNonneg hx).mpr hxi, (isInf_iff_of_isNonneg hy).mpr hyi⟩
    rw [infinity_sub hxi hyf, infinity_sub hxi hyf]
    exact hx

/-! ### Distances -/

@[simp] theorem parts_abs (x : Float) : parts x.abs = (parts x).abs := by
  rw [abs_eq]
  cases hu : parts x with
  | notANumber => rfl
  | infinity s => cases s <;> rfl
  | zero s => cases s <;> rfl
  | finite s m e hm => exact parts_ofParts_finite .positive hm (canonical_of_parts hu)

@[simp] theorem isNaN_abs (x : Float) : x.abs.isNaN = x.isNaN := by
  rw [isNaN_eq, isNaN_eq, parts_abs]
  cases parts x <;> rfl

theorem value_abs (x : Float) : value x.abs = |value x| := by
  have hpos := overflow_pos
  unfold value
  rw [parts_abs]
  cases parts x with
  | notANumber => simp [UnpackedFloat.abs, partsValue]
  | infinity s => cases s <;> simp [UnpackedFloat.abs, partsValue, Sign.apply, abs_of_pos hpos]
  | zero s => simp [UnpackedFloat.abs, partsValue]
  | finite s m e hm =>
    have hm' : (0 : ℚ) < m * 2 ^ e := by positivity
    cases s <;> simp [UnpackedFloat.abs, partsValue, Sign.apply, abs_of_pos hm']

theorem abs_nearest (x : ℚ) : |nearest x| = nearest |x| := by
  rcases le_total 0 x with h | h
  · rw [abs_of_nonneg h, abs_of_nonneg (nearest_nonneg h)]
  · have hneg := nearest_nonneg (neg_nonneg.mpr h)
    rw [abs_of_nonpos h, ← abs_neg, ← nearest_neg, abs_of_nonneg hneg]

/-- All finite numbers are multiples of the least one above zero. -/
theorem exists_multiple {x : Float} (hx : x.isFinite = true) :
    ∃ k : ℤ, value x = k * 2 ^ (-1074 : ℤ) := by
  rcases parts_of_isFinite hx with ⟨s, hu⟩ | ⟨s, m, e, hm, hu⟩
  · refine ⟨0, ?_⟩
    rw [value_of_zero hu, Int.cast_zero, zero_mul]
  · obtain ⟨j, hj⟩ := Int.eq_ofNat_of_zero_le (sub_nonneg.mpr (canonical_of_parts hu).ge)
    refine ⟨s.apply 1 * (m * 2 ^ j), ?_⟩
    rw [value_of_finite hu, show e = j + -1074 by omega, zpow_add₀ two_ne_zero, zpow_natCast]
    generalize (2 : ℚ) ^ (-1074 : ℤ) = least
    push_cast
    ring

/-- A difference does not vanish by rounding. -/
theorem nearest_pos_of_multiple {k : ℤ} (hk : k ≠ 0) : 0 < nearest |(k : ℚ) * 2 ^ (-1074 : ℤ)| := by
  have hpos : (0 : ℚ) < 2 ^ (-1074 : ℤ) := by positivity
  have hone : (1 : ℚ) ≤ |(k : ℚ)| := by exact_mod_cast Int.one_le_abs hk
  have hleast : nearest (2 ^ (-1074 : ℤ)) = 2 ^ (-1074 : ℤ) := by
    have hle : ((1 : ℕ) : ℚ) * 2 ^ (-1074 : ℤ) ≤ overflow := by
      have hc : Canonical 1 (-1074) := ⟨by norm_num, le_rfl, by norm_num, .inr rfl⟩
      exact hc.value_lt.le
    simpa using nearest_of_multiple (by norm_num) le_rfl hle
  calc (0 : ℚ) < 2 ^ (-1074 : ℤ) := hpos
    _ = nearest (2 ^ (-1074 : ℤ)) := hleast.symm
    _ ≤ nearest |(k : ℚ) * 2 ^ (-1074 : ℤ)| := by
        refine nearest_mono ?_
        rw [abs_mul, abs_of_pos hpos]
        exact le_mul_of_one_le_left hpos.le hone

/-- **The distance of two different numbers is above zero.** -/
theorem abs_sub_pos {x y : Float} (hx : x.isNaN = false) (hy : y.isNaN = false)
    (h : ¬ (x == y) = true) : 0 < (x - y).abs := by
  by_cases hfinite : x.isFinite = true ∧ y.isFinite = true
  · obtain ⟨hxf, hyf⟩ := hfinite
    obtain ⟨hnan, hvalue⟩ := value_sub hxf hyf
    obtain ⟨k, hk⟩ := exists_multiple hxf
    obtain ⟨l, hl⟩ := exists_multiple hyf
    have hne : k - l ≠ 0 := by
      intro hkl
      refine h ((beq_iff_value hx hy).mpr ?_)
      rw [hk, hl, sub_eq_zero.mp hkl]
    have hdifference : value x - value y = (k - l : ℤ) * 2 ^ (-1074 : ℤ) := by
      rw [hk, hl, Int.cast_sub, sub_mul]
    rw [pos_iff_value ((isNaN_abs _).trans hnan), value_abs, hvalue, abs_nearest, hdifference]
    exact nearest_pos_of_multiple hne
  · -- with an infinity on one side, or two different ones, the difference is infinite
    have hinfinite : ∃ s, x - y = ofParts (.infinity s) := by
      rw [isNaN_eq] at hx hy
      rw [isFinite_eq, isFinite_eq] at hfinite
      rw [beq_eq] at h
      rw [sub_eq]
      cases hu : parts x with
      | notANumber => rw [hu] at hx; cases hx
      | infinity s =>
        cases hv : parts y with
        | notANumber => rw [hv] at hy; cases hy
        | infinity t =>
          rw [hu, hv] at h
          cases s <;> cases t
          · exact absurd rfl h
          · exact ⟨_, rfl⟩
          · exact ⟨_, rfl⟩
          · exact absurd rfl h
        | zero t => exact ⟨_, rfl⟩
        | finite t n f hn => exact ⟨_, rfl⟩
      | _ =>
        cases hv : parts y with
        | notANumber => rw [hv] at hy; cases hy
        | infinity t => exact ⟨_, rfl⟩
        | _ =>
          rw [hu, hv] at hfinite
          exact absurd ⟨rfl, rfl⟩ hfinite
    obtain ⟨s, hs⟩ := hinfinite
    rw [hs]
    cases s <;> decide

end Binary64
end PenPlotter
