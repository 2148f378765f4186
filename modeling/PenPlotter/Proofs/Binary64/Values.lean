import Mathlib
import PenPlotter.Proofs.Binary64.Decimal
import PenPlotter.Proofs.Binary64.Nearest
import PenPlotter.Proofs.Binary64.SameNumber

/-!
# The values of machine numbers

Machine numbers are compared by their values, and a sum, difference, product or
quotient of finite ones has the value nearest to the exact one.

An infinity is given the first power of two beyond the finite numbers for its value,
so that the order of all numbers is the order of rational numbers.

## Main definitions

* `value` — the rational number that a machine number stands for.

## Main results

* `lt_iff_value`, `le_iff_value`, `beq_iff_value` — numbers are ordered by their values.
* `value_ofParts_rounded` — rounded parts have the rounded value.
* `value_add`, `value_sub`, `value_mul`, `value_div` — **arithmetic is exact up to one
  rounding.**
* `isNaN_add_left` and its like — what is no number spoils what is computed from it.
-/

namespace PenPlotter
namespace Binary64

open Float.Model
open Float.Model.UnpackedFloat (Sign)

/-! ### Values -/

/-- The rational number that parts stand for. -/
def partsValue : UnpackedFloat → ℚ
  | .notANumber => 0
  | .infinity s => s.apply 1 * overflow
  | .zero _ => 0
  | .finite s m e _ => s.apply m * 2 ^ e

/-- The rational number that a machine number stands for; an infinity stands for the
first power of two beyond the finite numbers. -/
def value (x : Float) : ℚ := partsValue (parts x)

@[simp] theorem partsValue_neg (u : UnpackedFloat) : partsValue u.neg = -partsValue u := by
  cases u <;> simp [partsValue, UnpackedFloat.neg, neg_apply_sign]

@[simp] theorem value_neg (x : Float) : value (-x) = -value x := by
  unfold value
  rw [parts_neg, partsValue_neg]

theorem two_zpow_eq_overflow : (2 : ℚ) ^ (53 : ℤ) * 2 ^ (971 : ℤ) = overflow := by
  rw [overflow_eq, ← zpow_add₀ two_ne_zero, ← zpow_natCast]
  rfl

theorem Canonical.value_lt {m : ℕ} {e : ℤ} (hc : Canonical m e) : (m : ℚ) * 2 ^ e < overflow := by
  have hm : (m : ℚ) < 2 ^ (53 : ℤ) := by exact_mod_cast hc.lt
  calc (m : ℚ) * 2 ^ e < 2 ^ (53 : ℤ) * 2 ^ e := by gcongr
    _ ≤ 2 ^ (53 : ℤ) * 2 ^ (971 : ℤ) := by
        have := hc.le
        gcongr
        norm_num
    _ = overflow := two_zpow_eq_overflow

/-- Of two positive numbers the one with the larger exponent is larger. -/
theorem Canonical.lt_of_exponent_lt {m n : ℕ} {e f : ℤ} (hc : Canonical m e) (hd : Canonical n f)
    (h : e < f) : (m : ℚ) * 2 ^ e < n * 2 ^ f := by
  have hge := hc.ge
  have hm : (m : ℚ) < 2 ^ 53 := by exact_mod_cast hc.lt
  have hn : (2 : ℚ) ^ 52 ≤ n := by exact_mod_cast hd.normal.resolve_right (by omega)
  calc (m : ℚ) * 2 ^ e < 2 ^ 53 * 2 ^ e := by gcongr
    _ = 2 ^ 52 * 2 ^ (e + 1) := by rw [zpow_add_one₀ two_ne_zero]; ring
    _ ≤ 2 ^ 52 * 2 ^ f := by gcongr <;> [norm_num; omega]
    _ ≤ n * 2 ^ f := by gcongr

/-- Positive numbers are compared by their exponents, and then by their mantissas. -/
theorem compares_canonical {m n : ℕ} {e f : ℤ} (hc : Canonical m e) (hd : Canonical n f) :
    ((compare e f).then (compare m n)).Compares ((m : ℚ) * 2 ^ e) (n * 2 ^ f) := by
  rcases lt_trichotomy e f with h | rfl | h
  · rw [Int.compare_eq_lt.mpr h]
    exact hc.lt_of_exponent_lt hd h
  · have hpos : (0 : ℚ) < 2 ^ e := by positivity
    rw [Int.compare_eq_eq.mpr rfl]
    rcases lt_trichotomy m n with h | rfl | h
    · rw [Nat.compare_eq_lt.mpr h]
      exact mul_lt_mul_of_pos_right (by exact_mod_cast h) hpos
    · rw [Nat.compare_eq_eq.mpr rfl]
      exact rfl
    · rw [Nat.compare_eq_gt.mpr h]
      exact mul_lt_mul_of_pos_right (by exact_mod_cast h) hpos
  · rw [Int.compare_eq_gt.mpr h]
    exact hd.lt_of_exponent_lt hc h

theorem compares_neg {o : Ordering} {a b : ℚ} (h : o.Compares a b) : o.swap.Compares (-a) (-b) := by
  cases o
  · exact neg_lt_neg h
  · exact congrArg Neg.neg h
  · exact neg_lt_neg h

/-- What is no number apart, machine numbers are compared by their values. -/
theorem compare_parts {x y : Float} (hx : x.isNaN = false) (hy : y.isNaN = false) :
    ∃ o, (parts x).compare (parts y) = some o ∧ o.Compares (value x) (value y) := by
  have hpos := overflow_pos
  have hbounds : ∀ {x : Float} {s m e hm}, parts x = .finite s m e hm →
      (0 : ℚ) < m * 2 ^ e ∧ (m : ℚ) * 2 ^ e < overflow := by
    intro x s m e hm h
    exact ⟨by positivity, (canonical_of_parts h).value_lt⟩
  unfold value
  rw [isNaN_eq] at hx hy
  cases hu : parts x with
  | notANumber => rw [hu] at hx; cases hx
  | infinity s =>
    cases hv : parts y with
    | notANumber => rw [hv] at hy; cases hy
    | infinity t =>
      cases s <;> cases t
      · exact ⟨.eq, rfl, rfl⟩
      · refine ⟨.lt, rfl, ?_⟩
        simp [partsValue, Sign.apply]
        linarith
      · refine ⟨.gt, rfl, ?_⟩
        simp [partsValue, Sign.apply]
        linarith
      · exact ⟨.eq, rfl, rfl⟩
    | zero t => cases s <;> refine ⟨_, rfl, ?_⟩ <;> simp [partsValue, Sign.apply, hpos]
    | finite t n f hn =>
      have hv := hbounds hv
      cases s <;> cases t <;> refine ⟨_, rfl, ?_⟩ <;> simp [partsValue, Sign.apply] <;> linarith
  | zero s =>
    cases hv : parts y with
    | notANumber => rw [hv] at hy; cases hy
    | infinity t => cases t <;> refine ⟨_, rfl, ?_⟩ <;> simp [partsValue, Sign.apply, hpos]
    | zero t => exact ⟨_, rfl, rfl⟩
    | finite t n f hn =>
      have hv := hbounds hv
      cases t <;> refine ⟨_, rfl, ?_⟩ <;> simp [partsValue, Sign.apply] <;> linarith
  | finite s m e hm =>
    have hm' := hbounds hu
    cases hv : parts y with
    | notANumber => rw [hv] at hy; cases hy
    | infinity t =>
      cases s <;> cases t <;> refine ⟨_, rfl, ?_⟩ <;> simp [partsValue, Sign.apply] <;> linarith
    | zero t => cases s <;> refine ⟨_, rfl, ?_⟩ <;> simp [partsValue, Sign.apply] <;> linarith
    | finite t n f hn =>
      have hv' := hbounds hv
      have hcompare := compares_canonical (canonical_of_parts hu) (canonical_of_parts hv)
      cases s <;> cases t <;> refine ⟨_, rfl, ?_⟩ <;> simp [partsValue, Sign.apply] 
      · simpa using compares_neg hcompare
      · linarith
      · linarith
      · exact hcompare

theorem le_iff (x y : Float) : x ≤ y ↔ (parts x).le (parts y) = true := decide_eq_true_iff

/-- **Numbers are ordered by their values.** -/
theorem lt_iff_value {x y : Float} (hx : x.isNaN = false) (hy : y.isNaN = false) :
    x < y ↔ value x < value y := by
  obtain ⟨o, hcompare, ho⟩ := compare_parts hx hy
  rw [lt_iff, UnpackedFloat.lt, hcompare, ← ho.eq_lt]
  cases o <;> decide

theorem le_iff_value {x y : Float} (hx : x.isNaN = false) (hy : y.isNaN = false) :
    x ≤ y ↔ value x ≤ value y := by
  obtain ⟨o, hcompare, ho⟩ := compare_parts hx hy
  rw [le_iff, UnpackedFloat.le, hcompare, ← ho.ne_gt]
  cases o <;> decide

/-- The order is total but for what is no number. -/
theorem not_lt_iff_le {x y : Float} (hx : x.isNaN = false) (hy : y.isNaN = false) :
    ¬ x < y ↔ y ≤ x := by
  rw [lt_iff_value hx hy, le_iff_value hy hx, not_lt]

theorem beq_iff_value {x y : Float} (hx : x.isNaN = false) (hy : y.isNaN = false) :
    (x == y) = true ↔ value x = value y := by
  obtain ⟨o, hcompare, ho⟩ := compare_parts hx hy
  rw [beq_eq, UnpackedFloat.beq, hcompare, ← ho.eq_eq]
  cases o <;> decide

/-- What is no number is below nothing, and nothing is below it. -/
theorem isNaN_of_lt {x y : Float} (h : x < y) : x.isNaN = false ∧ y.isNaN = false := by
  rw [lt_iff, UnpackedFloat.lt] at h
  rw [isNaN_eq, isNaN_eq]
  cases hu : parts x with
  | notANumber => rw [hu] at h; cases h
  | _ =>
    cases hv : parts y with
    | notANumber => rw [hu, hv] at h; cases h
    | _ => exact ⟨rfl, rfl⟩

theorem isNaN_of_le {x y : Float} (h : x ≤ y) : x.isNaN = false ∧ y.isNaN = false := by
  rw [le_iff, UnpackedFloat.le] at h
  rw [isNaN_eq, isNaN_eq]
  cases hu : parts x with
  | notANumber => rw [hu] at h; cases h
  | _ =>
    cases hv : parts y with
    | notANumber => rw [hu, hv] at h; cases h
    | _ => exact ⟨rfl, rfl⟩

/-! ### Values of rounded parts -/

theorem value_ofParts_zero (s : Sign) :
    (ofParts (.zero s)).isNaN = false ∧ value (ofParts (.zero s)) = 0 := by
  cases s <;> exact ⟨rfl, rfl⟩

/-- A finite number with an exponent that is too large becomes infinite. -/
theorem parts_ofParts_of_large (s : Sign) {m : ℕ} {e : ℤ} (hm : 0 < m) (he : 971 < e) :
    parts (ofParts (.finite s m e hm)) = .infinity s := by
  show UnpackedFloat.unpack Format.binary64 (UnpackedFloat.pack Format.binary64 _) = _
  unfold UnpackedFloat.pack
  simp only [show ((Format.binary64.exponentBias : ℕ) : ℤ) = 1023 from rfl,
    show ((Format.binary64.mantissaBitsWithoutImplicit : ℕ) : ℤ) = 52 from rfl]
  rw [if_pos (by show 2048 ≤ _; omega)]
  unfold UnpackedFloat.packedInfinity
  rw [unpack_packComponents, if_pos rfl]
  exact if_pos rfl

/-- A mantissa of fifty-three bits has its own value, up to the overflow. -/
theorem value_ofParts_finite (s : Sign) {m : ℕ} {e : ℤ} (hm : 0 < m) (hlt : m < 2 ^ 53)
    (he : -1074 ≤ e) (hnormal : 2 ^ 52 ≤ m ∨ e = -1074) :
    (ofParts (.finite s m e hm)).isNaN = false ∧
      value (ofParts (.finite s m e hm)) = s.apply 1 * min ((m : ℚ) * 2 ^ e) overflow := by
  rw [isNaN_eq, value]
  by_cases hle : e ≤ 971
  · have hc : Canonical m e := ⟨hlt, he, hle, hnormal⟩
    rw [parts_ofParts_finite s hm hc, min_eq_left hc.value_lt.le]
    refine ⟨rfl, ?_⟩
    cases s <;> simp [partsValue, Sign.apply]
  · have hlarge : overflow ≤ m * 2 ^ e := by
      have hm' : (2 : ℚ) ^ 52 ≤ m := by exact_mod_cast hnormal.resolve_right (by omega)
      calc overflow = 2 ^ 52 * 2 ^ (971 + 1 : ℤ) := by
            rw [← two_zpow_eq_overflow, zpow_add_one₀ two_ne_zero, zpow_ofNat]
            ring
        _ ≤ 2 ^ 52 * 2 ^ e := by gcongr <;> [norm_num; omega]
        _ ≤ m * 2 ^ e := by gcongr
    rw [parts_ofParts_of_large s hm (by omega), min_eq_right hlarge]
    exact ⟨rfl, rfl⟩

/-- Rounded parts have the rounded value. -/
theorem value_ofParts_rounded (s : Sign) {x : ℚ} (hx : 0 < x) :
    (ofParts (rounded s x)).isNaN = false ∧
      value (ofParts (rounded s x)) = s.apply 1 * nearest x := by
  have hmin : -1074 ≤ lastPlace x := le_max_right _ _
  have hnonneg : 0 ≤ nearestEven (x / 2 ^ lastPlace x) :=
    (Int.floor_nonneg.mpr (by positivity)).trans (floor_le_nearestEven _)
  have hle := nearestEven_scaled_le hx
  have hge := le_nearestEven_scaled hx
  have hvalue : nearest x =
      min (((nearestEven (x / 2 ^ lastPlace x)).toNat : ℚ) * 2 ^ lastPlace x) overflow := by
    rw [nearest_of_nonneg hx.le, roundedValue]
    congr 2
    exact_mod_cast (Int.toNat_of_nonneg hnonneg).symm
  rw [hvalue]
  unfold rounded
  generalize nearestEven (x / 2 ^ lastPlace x) = k at *
  obtain ⟨n, rfl⟩ := Int.eq_ofNat_of_zero_le hnonneg
  simp only [Int.toNat_natCast]
  split_ifs with hzero hlt
  · subst hzero
    rw [Nat.cast_zero, zero_mul, min_eq_left overflow_pos.le, mul_zero]
    exact value_ofParts_zero s
  · exact value_ofParts_finite s _ hlt hmin (by omega)
  · -- the mantissa was rounded up to a power of two
    have hn : n = 2 ^ 53 := by omega
    have hcarry : ((2 ^ 53 : ℕ) : ℚ) * 2 ^ lastPlace x = (2 ^ 52 : ℕ) * 2 ^ (lastPlace x + 1) := by
      rw [zpow_add_one₀ two_ne_zero]
      push_cast
      ring
    subst hn
    rw [hcarry]
    exact value_ofParts_finite s (by decide) (by norm_num) (by omega) (.inl le_rfl)

/-- A positive number that is rounded has the nearest value. -/
theorem value_ofParts_positive {x : ℚ} (hx : 0 < x) :
    (ofParts (rounded .positive x)).isNaN = false ∧
      value (ofParts (rounded .positive x)) = nearest x := by
  obtain ⟨hnan, hvalue⟩ := value_ofParts_rounded .positive hx
  exact ⟨hnan, by simpa [Sign.apply] using hvalue⟩

/-! ### Arithmetic -/

theorem apply_cast (s : Sign) (n : ℕ) : ((s.apply n : ℤ) : ℚ) = s.apply 1 * n := by
  cases s <;> simp [Sign.apply]

theorem value_of_zero {x : Float} {s : Sign} (h : parts x = .zero s) : value x = 0 := by
  rw [value, h]
  rfl

theorem value_of_finite {x : Float} {s : Sign} {m : ℕ} {e : ℤ} {hm : 0 < m}
    (h : parts x = .finite s m e hm) : value x = s.apply 1 * (m * 2 ^ e) := by
  rw [value, h, partsValue, apply_cast, mul_assoc]

theorem nearest_apply (s : Sign) (x : ℚ) : nearest (s.apply 1 * x) = s.apply 1 * nearest x := by
  cases s <;> simp [Sign.apply, nearest_neg]

/-- The value of a finite number needs no rounding. -/
theorem nearest_value {x : Float} (hx : x.isFinite = true) : nearest (value x) = value x := by
  rcases parts_of_isFinite hx with ⟨s, hu⟩ | ⟨s, m, e, hm, hu⟩
  · rw [value_of_zero hu, nearest_zero]
  · have hc := canonical_of_parts hu
    rw [value_of_finite hu, nearest_apply, nearest_of_multiple hc.lt hc.ge hc.value_lt.le]

theorem value_normalize (n e : ℤ) (z : Sign) :
    (ofParts (UnpackedFloat.normalize Format.binary64 n e z)).isNaN = false ∧
      value (ofParts (UnpackedFloat.normalize Format.binary64 n e z)) = nearest (n * 2 ^ e) := by
  unfold UnpackedFloat.normalize
  rcases lt_trichotomy n 0 with h | rfl | h
  · obtain ⟨k, hk⟩ := Int.eq_ofNat_of_zero_le (neg_nonneg.mpr h.le)
    have hn : n = -k := by omega
    have hpos : 0 < k := by omega
    rw [Int.compare_eq_lt.mpr h, hk]
    dsimp only
    rw [Int.toNat_natCast, round_eq_rounded _ hpos, hn]
    have hrounded := value_ofParts_rounded .negative (x := k * 2 ^ e) (by positivity)
    refine ⟨hrounded.1, hrounded.2.trans ?_⟩
    simp [Sign.apply, nearest_neg]
  · rw [Int.compare_eq_eq.mpr rfl, Int.cast_zero, zero_mul, nearest_zero]
    exact value_ofParts_zero z
  · obtain ⟨k, rfl⟩ := Int.eq_ofNat_of_zero_le h.le
    have hpos : 0 < k := by omega
    rw [Int.compare_eq_gt.mpr h]
    dsimp only
    rw [Int.toNat_natCast, round_eq_rounded _ hpos]
    exact value_ofParts_positive (by positivity)

theorem decreaseExponent_value (m : ℕ) {e p : ℤ} (h : p ≤ e) :
    ((UnpackedFloat.decreaseExponent m e p).1 : ℚ) * 2 ^ p = m * 2 ^ e := by
  obtain ⟨k, hk⟩ := Int.eq_ofNat_of_zero_le (sub_nonneg.mpr h)
  have he : e = k + p := by omega
  unfold UnpackedFloat.decreaseExponent
  dsimp only
  rw [hk, Int.toNat_natCast, Nat.shiftLeft_eq, he, zpow_add₀ two_ne_zero, zpow_natCast]
  push_cast
  ring

theorem isNaN_of_isFinite {x : Float} (h : x.isFinite = true) : x.isNaN = false := by
  rw [isNaN_eq]
  rcases parts_of_isFinite h with ⟨s, hu⟩ | ⟨s, m, e, hm, hu⟩ <;> rw [hu] <;> rfl

/-- **A sum of finite numbers is the exact sum, rounded to the nearest.** -/
theorem value_add {x y : Float} (hx : x.isFinite = true) (hy : y.isFinite = true) :
    (x + y).isNaN = false ∧ value (x + y) = nearest (value x + value y) := by
  rcases parts_of_isFinite hx with ⟨s, hu⟩ | ⟨s, m, e, hm, hu⟩ <;>
    rcases parts_of_isFinite hy with ⟨t, hv⟩ | ⟨t, n, f, hn, hv⟩
  · rw [add_eq, hu, hv, value_of_zero hu, value_of_zero hv, add_zero, nearest_zero]
    cases s <;> cases t <;> exact ⟨rfl, rfl⟩
  · have hsum : x + y = y := by
      rw [add_eq, hu, hv]
      exact (congrArg ofParts hv.symm).trans (ofParts_parts y)
    rw [hsum, value_of_zero hu, zero_add, nearest_value hy]
    exact ⟨isNaN_of_isFinite hy, rfl⟩
  · have hsum : x + y = x := by
      rw [add_eq, hu, hv]
      exact (congrArg ofParts hu.symm).trans (ofParts_parts x)
    rw [hsum, value_of_zero hv, add_zero, nearest_value hx]
    exact ⟨isNaN_of_isFinite hx, rfl⟩
  · -- both mantissas are taken at the smaller exponent
    have hsum : value x + value y =
        ((s.apply (UnpackedFloat.decreaseExponent m e (min e f)).1 +
          t.apply (UnpackedFloat.decreaseExponent n f (min e f)).1 : ℤ) : ℚ) * 2 ^ min e f := by
      rw [value_of_finite hu, value_of_finite hv, Int.cast_add, apply_cast, apply_cast, add_mul,
        mul_assoc, mul_assoc, decreaseExponent_value m (min_le_left e f),
        decreaseExponent_value n (min_le_right e f)]
    rw [hsum, add_eq, hu, hv]
    exact value_normalize _ _ _

/-- **A difference of finite numbers is the exact one, rounded to the nearest.** -/
theorem value_sub {x y : Float} (hx : x.isFinite = true) (hy : y.isFinite = true) :
    (x - y).isNaN = false ∧ value (x - y) = nearest (value x - value y) := by
  rw [sub_eq_add, sub_eq_add_neg, ← value_neg]
  exact value_add hx ((isFinite_neg y).trans hy)

theorem apply_mul (s t : Sign) : (s * t).apply 1 = s.apply 1 * t.apply 1 := by
  cases s <;> cases t <;> rfl

theorem apply_div (s t : Sign) : (s / t).apply 1 * t.apply 1 = s.apply 1 := by
  cases s <;> cases t <;> rfl

/-- **A product of finite numbers is the exact one, rounded to the nearest.** -/
theorem value_mul {x y : Float} (hx : x.isFinite = true) (hy : y.isFinite = true) :
    (x * y).isNaN = false ∧ value (x * y) = nearest (value x * value y) := by
  rw [mul_eq]
  rcases parts_of_isFinite hx with ⟨s, hu⟩ | ⟨s, m, e, hm, hu⟩ <;>
    rcases parts_of_isFinite hy with ⟨t, hv⟩ | ⟨t, n, f, hn, hv⟩ <;> rw [hu, hv]
  · rw [value_of_zero hu, zero_mul, nearest_zero]
    exact value_ofParts_zero (s * t)
  · rw [value_of_zero hu, zero_mul, nearest_zero]
    exact value_ofParts_zero (s * t)
  · rw [value_of_zero hv, mul_zero, nearest_zero]
    exact value_ofParts_zero (s * t)
  · have hproduct : value x * value y = (s * t).apply 1 * (m * 2 ^ e * (n * 2 ^ f)) := by
      rw [value_of_finite hu, value_of_finite hv, apply_mul]
      push_cast
      ring
    rw [hproduct, nearest_apply, mul_eq_rounded_of_canonical s t hm hn (canonical_of_parts hu)
      (canonical_of_parts hv)]
    exact value_ofParts_rounded _ (by positivity)

/-- **A quotient of finite numbers is the exact one, rounded to the nearest.** -/
theorem value_div {x y : Float} (hx : x.isFinite = true) (hy : y.isFinite = true)
    (hzero : value y ≠ 0) :
    (x / y).isNaN = false ∧ value (x / y) = nearest (value x / value y) := by
  rw [div_eq]
  rcases parts_of_isFinite hy with ⟨t, hv⟩ | ⟨t, n, f, hn, hv⟩
  · exact absurd (value_of_zero hv) hzero
  · rcases parts_of_isFinite hx with ⟨s, hu⟩ | ⟨s, m, e, hm, hu⟩ <;> rw [hu, hv]
    · rw [value_of_zero hu, zero_div, nearest_zero]
      exact value_ofParts_zero (s / t)
    · have hquotient : value x / value y = (s / t).apply 1 * (m * 2 ^ e / (n * 2 ^ f)) := by
        have hy := value_of_finite hv
        rw [hy] at hzero ⊢
        rw [div_eq_iff hzero, value_of_finite hu, ← apply_div s t]
        push_cast
        field_simp
      rw [hquotient, nearest_apply, div_eq_rounded s t hm hn]
      exact value_ofParts_rounded _ (by positivity)

/-! ### What is no number -/

theorem parts_of_isNaN {x : Float} (h : x.isNaN = true) : parts x = .notANumber := by
  rwa [isNaN_eq, UnpackedFloat.isNaN_iff] at h

theorem isNaN_ofParts_notANumber : (ofParts .notANumber).isNaN = true := by decide

theorem isNaN_add_left {x : Float} (h : x.isNaN = true) (y : Float) : (x + y).isNaN = true := by
  rw [add_eq, parts_of_isNaN h]
  exact isNaN_ofParts_notANumber

theorem isNaN_add_right (x : Float) {y : Float} (h : y.isNaN = true) : (x + y).isNaN = true := by
  rw [add_eq, parts_of_isNaN h]
  cases parts x <;> exact isNaN_ofParts_notANumber

theorem isNaN_sub_left {x : Float} (h : x.isNaN = true) (y : Float) : (x - y).isNaN = true := by
  rw [sub_eq, parts_of_isNaN h]
  exact isNaN_ofParts_notANumber

theorem isNaN_sub_right (x : Float) {y : Float} (h : y.isNaN = true) : (x - y).isNaN = true := by
  rw [sub_eq, parts_of_isNaN h]
  cases parts x <;> exact isNaN_ofParts_notANumber

theorem isNaN_mul_left {x : Float} (h : x.isNaN = true) (y : Float) : (x * y).isNaN = true := by
  rw [mul_eq, parts_of_isNaN h]
  exact isNaN_ofParts_notANumber

theorem isNaN_div_left {x : Float} (h : x.isNaN = true) (y : Float) : (x / y).isNaN = true := by
  rw [div_eq, parts_of_isNaN h]
  exact isNaN_ofParts_notANumber

end Binary64
end PenPlotter
