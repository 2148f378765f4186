import Mathlib
import PenPlotter.Proofs.Binary64.Rounding
import PenPlotter.Toolpath.Compile

/-!
# The number of strokes of an arc

An arc has at least one stroke and at most the limit, whatever its length is: no
number at all, infinite, huge, or so close above an integer that it is rounded up.

## Main results

* `toNat_toUInt64_bounds` — a length between one and the limit, rounded down.
* `arcStrokes_bounds` — **an arc has between one stroke and the limit.**
-/

namespace PenPlotter

open Binary64 Float.Model
open Float.Model.UnpackedFloat (Sign ExtendedMantissa Accuracy)

/-! ### Rounding down -/

theorem mantissa_shiftRight (em : ExtendedMantissa) (k : ℕ) :
    (em >>> k).mantissa = em.mantissa / 2 ^ k := by
  induction k with
  | zero => rw [pow_zero, Nat.div_one]; rfl
  | succ k ih =>
    rw [pow_succ, ← Nat.div_div_eq_div_mul, ← ih]
    rfl

/-- A positive number with a fraction loses the digits of its fraction. -/
theorem toNat_toUInt64_of_finite {x : Float} {m k : ℕ} {hm : 0 < m}
    (h : parts x = .finite .positive m (-k) hm) (hlt : m / 2 ^ k < 2 ^ 64) :
    x.toUInt64.toNat = m / 2 ^ k := by
  have hround : UnpackedFloat.roundToInt .positive m (-k) = (m / 2 ^ k : ℕ) := by
    unfold UnpackedFloat.roundToInt UnpackedFloat.decreaseExponent
    dsimp only
    rw [Int.toNat_of_nonpos (by omega), shiftToExponent_eq _ (k := k) _ (by omega)]
    exact congrArg Nat.cast (mantissa_shiftRight _ _)
  show (UInt64.ofNatClamp ((parts x).toInt 0 (UInt64.size - 1)).toNat).toNat = _
  rw [h, UnpackedFloat.toInt, hround, Int.toNat_natCast, UInt64.ofNatClamp_eq_ofNat _ hlt,
    UInt64.toNat_ofNat', Nat.mod_eq_of_lt hlt]

/-! ### Lengths between one and the limit -/

theorem parts_one : parts 1 = .finite .positive (2 ^ 52) (-52) (by decide) := rfl

theorem parts_limit : parts (Float.ofNat arcStrokeLimit) =
    .finite .positive (10000 * 2 ^ 39) (-39) (by decide) := rfl

/-- A finite number above one is positive, and its last digit counts at least the
last digit of one. -/
theorem parts_of_one_lt {x : Float} (h : 1 < x) (hx : x.isFinite = true) :
    ∃ m e hm, parts x = .finite .positive m e hm ∧ -52 ≤ e := by
  rw [lt_iff, parts_one] at h
  rw [isFinite_eq] at hx
  cases hu : parts x with
  | notANumber => rw [hu] at hx; cases hx
  | infinity s => rw [hu] at hx; cases hx
  | zero s => rw [hu] at h; cases h
  | finite s m e hm =>
    rw [hu] at h
    cases s with
    | negative => cases h
    | positive =>
      refine ⟨m, e, hm, rfl, ?_⟩
      -- with an exponent below that of one the number would be below one
      by_contra he
      have hcompare : compare (-52) e = .gt := Int.compare_eq_gt.mpr (not_le.mp he)
      unfold UnpackedFloat.lt UnpackedFloat.compare at h
      rw [hcompare] at h
      cases h

/-- A positive number that is not above the limit has its last digit below the units,
and its mantissa is bounded where the exponents agree. -/
theorem exponent_of_not_limit_lt {x : Float} {m : ℕ} {e : ℤ} {hm : 0 < m}
    (hu : parts x = .finite .positive m e hm) (h : ¬ Float.ofNat arcStrokeLimit < x) :
    e < -39 ∨ e = -39 ∧ m ≤ 10000 * 2 ^ 39 := by
  rw [lt_iff, parts_limit, hu] at h
  rcases lt_trichotomy e (-39) with he | rfl | he
  · exact .inl he
  · refine .inr ⟨rfl, ?_⟩
    by_contra hlt
    apply h
    have hcompare : compare (10000 * 2 ^ 39) m = .lt := Nat.compare_eq_lt.mpr (not_le.mp hlt)
    unfold UnpackedFloat.lt UnpackedFloat.compare
    rw [hcompare]
    rfl
  · have hcompare : compare (-39) e = .lt := Int.compare_eq_lt.mpr he
    unfold UnpackedFloat.lt UnpackedFloat.compare at h
    rw [hcompare] at h
    exact absurd rfl h

/-- A finite length above one and not above the limit is rounded down into that
range. -/
theorem toNat_toUInt64_bounds {x : Float} (h1 : 1 < x) (hlimit : ¬ Float.ofNat arcStrokeLimit < x)
    (hx : x.isFinite = true) : 1 ≤ x.toUInt64.toNat ∧ x.toUInt64.toNat ≤ arcStrokeLimit := by
  obtain ⟨m, e, hm, hu, he⟩ := parts_of_one_lt h1 hx
  have hbound := exponent_of_not_limit_lt hu hlimit
  have hc := canonical_of_parts hu
  have hlo : 2 ^ 52 ≤ m := hc.normal.resolve_right (by omega)
  have hhi := hc.lt
  obtain ⟨k, rfl⟩ : ∃ k : ℕ, e = -k := ⟨(-e).toNat, by omega⟩
  have hone : 1 ≤ m / 2 ^ k := by
    rw [Nat.one_le_div_iff (by positivity)]
    exact (Nat.pow_le_pow_right (by decide) (by omega)).trans hlo
  have hmax : m / 2 ^ k ≤ arcStrokeLimit := by
    rcases hbound with hk | ⟨hk, hle⟩
    · -- fifty-three bits with forty of them behind the point are fewer than the limit
      have hpow : 2 ^ 40 ≤ 2 ^ k := Nat.pow_le_pow_right (by decide) (by omega)
      calc m / 2 ^ k ≤ m / 2 ^ 40 := Nat.div_le_div_left hpow (by decide)
        _ ≤ 2 ^ 53 / 2 ^ 40 := Nat.div_le_div_right hhi.le
        _ ≤ arcStrokeLimit := by decide
    · obtain rfl : k = 39 := by omega
      calc m / 2 ^ 39 ≤ 10000 * 2 ^ 39 / 2 ^ 39 := Nat.div_le_div_right hle
        _ = arcStrokeLimit := by decide
  rw [toNat_toUInt64_of_finite hu (hmax.trans_lt (by decide))]
  exact ⟨hone, hmax⟩

/-! ### Strokes -/

/-- **An arc has between one stroke and the limit**, also if its length is no number
or is so long that the limit cuts it off. -/
theorem arcStrokes_bounds (length : Float) :
    1 ≤ arcStrokes length ∧ arcStrokes length ≤ arcStrokeLimit := by
  unfold arcStrokes
  split_ifs with hlong hone
  · exact ⟨by decide, le_refl _⟩
  · rw [Bool.and_eq_true, decide_eq_true_eq] at hone
    have hlimit : ¬ Float.ofNat arcStrokeLimit < length := by
      intro h
      apply hlong
      rw [isLongArc, hone.1, decide_eq_true h]
      rfl
    obtain ⟨hlo, hhi⟩ := toNat_toUInt64_bounds hone.2 hlimit hone.1
    unfold leastNotBelow
    dsimp only
    split_ifs with hup
    · -- the limit itself is not below the length, so what is rounded up is less
      have hne : length.toUInt64.toNat ≠ arcStrokeLimit := by
        intro heq
        exact hlimit (heq ▸ hup)
      omega
    · exact ⟨hlo, hhi⟩
  · exact ⟨le_refl _, by decide⟩

end PenPlotter
