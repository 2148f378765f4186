import Mathlib
import PenPlotter.Proofs.Binary64.Nonnegative

/-!
# Bounds on machine numbers

A computation with machine numbers stays finite as long as powers of two that bound
its operands allow it.  Once it is not finite it never becomes so again through sums,
products and roots, so a finite result speaks for all that went into it.

## Main definitions

* `Within k x` — `x` is finite, and at most `2 ^ k` away from zero.
* `Spans n x` — `x` is finite, and at most `n` times `2 ^ 971` away from zero.
* `Brackets m e r t n` — `r` and the root of `m * 2 ^ e` lie in the same unit.

## Main results

* `isFinite_iff_abs_lt` — the finite numbers are those below the overflow.
* `Within.add`, `Within.sub`, `Within.mul` — bounds of sums, differences and products.
* `Spans.add` — the same for sums of many numbers.
* `isFinite_of_add` and its like — a finite result has finite operands.
* `isFinite_add_small` — **a finite number has room for a small one.**
* `sqrt_eq_rounded` — what a root is rounded from.
* `within_sqrt` — a finite root is small.
-/

namespace PenPlotter
namespace Binary64

open Float.Model
open Float.Model.UnpackedFloat (Sign Accuracy)

/-- A finite number that is at most `2 ^ k` away from zero. -/
structure Within (k : ℕ) (x : Float) : Prop where
  isFinite : x.isFinite = true
  abs_le : |value x| ≤ 2 ^ k

/-! ### Finite numbers -/

/-- **The finite numbers are those below the overflow**, on both sides. -/
theorem isFinite_iff_abs_lt (x : Float) :
    x.isFinite = true ↔ x.isNaN = false ∧ |value x| < overflow := by
  constructor
  · intro hx
    have hneg := value_lt_of_isFinite ((isFinite_neg x).trans hx)
    rw [value_neg] at hneg
    refine ⟨isNaN_of_isFinite hx, abs_lt.mpr ⟨by linarith, value_lt_of_isFinite hx⟩⟩
  · rintro ⟨hnan, hlt⟩
    rw [isNaN_eq] at hnan
    rw [isFinite_eq]
    unfold value at hlt
    cases hu : parts x with
    | notANumber => rw [hu] at hnan; cases hnan
    | infinity s =>
      rw [hu] at hlt
      have hpos := overflow_pos
      cases s <;> simp [partsValue, Sign.apply, abs_of_pos hpos] at hlt
    | zero s => rfl
    | finite s m e hm => rfl

theorem nearest_two_pow {k : ℕ} (hk : k < 1024) : nearest (2 ^ k) = 2 ^ k ∧ 2 ^ k < overflow := by
  have hlt : (2 : ℚ) ^ k < overflow := by
    rw [overflow_eq]
    exact pow_lt_pow_right₀ one_lt_two hk
  refine ⟨?_, hlt⟩
  have h := nearest_of_multiple (n := 1) (k := k) (by norm_num) (by omega)
    (by rw [Nat.cast_one, one_mul, zpow_natCast]; exact hlt.le)
  rwa [Nat.cast_one, one_mul, zpow_natCast] at h

/-- What is rounded once is bounded by the machine numbers that bound it before. -/
theorem bounded_of_value {x : Float} {v b : ℚ} (h : x.isNaN = false ∧ value x = nearest v)
    (hv : |v| ≤ b) (hexact : nearest b = b) (hlt : b < overflow) :
    x.isFinite = true ∧ |value x| ≤ b := by
  have hle : |value x| ≤ b := by
    rw [h.2, abs_nearest, ← hexact]
    exact nearest_mono hv
  exact ⟨(isFinite_iff_abs_lt x).mpr ⟨h.1, hle.trans_lt hlt⟩, hle⟩

theorem within_of_value {k : ℕ} (hk : k < 1024) {x : Float} {v : ℚ}
    (h : x.isNaN = false ∧ value x = nearest v) (hv : |v| ≤ 2 ^ k) : Within k x := by
  obtain ⟨hexact, hlt⟩ := nearest_two_pow hk
  obtain ⟨hfinite, hle⟩ := bounded_of_value h hv hexact hlt
  exact ⟨hfinite, hle⟩

theorem Within.mono {j k : ℕ} {x : Float} (h : Within j x) (hjk : j ≤ k) : Within k x :=
  ⟨h.isFinite, h.abs_le.trans (pow_le_pow_right₀ one_le_two hjk)⟩

theorem Within.neg {k : ℕ} {x : Float} (h : Within k x) : Within k (-x) where
  isFinite := (isFinite_neg x).trans h.isFinite
  abs_le := by
    rw [value_neg, abs_neg]
    exact h.abs_le

theorem Within.add {k : ℕ} {x y : Float} (hx : Within k x) (hy : Within k y) (hk : k < 1023) :
    Within (k + 1) (x + y) := by
  refine within_of_value (by omega) (value_add hx.isFinite hy.isFinite) ?_
  calc |value x + value y| ≤ |value x| + |value y| := abs_add_le _ _
    _ ≤ 2 ^ k + 2 ^ k := add_le_add hx.abs_le hy.abs_le
    _ = 2 ^ (k + 1) := by rw [pow_succ, mul_two]

theorem Within.sub {k : ℕ} {x y : Float} (hx : Within k x) (hy : Within k y) (hk : k < 1023) :
    Within (k + 1) (x - y) := by
  rw [sub_eq_add]
  exact hx.add hy.neg hk

theorem Within.mul {j k : ℕ} {x y : Float} (hx : Within j x) (hy : Within k y) (h : j + k < 1024) :
    Within (j + k) (x * y) := by
  refine within_of_value h (value_mul hx.isFinite hy.isFinite) ?_
  rw [abs_mul, pow_add]
  exact mul_le_mul hx.abs_le hy.abs_le (abs_nonneg _) (by positivity)

/-! ### Sums of many numbers -/

/-- A finite number that is at most `n` times `2 ^ 971` away from zero.  The largest finite
numbers are `2 ^ 971` apart, so that a sum cannot be rounded beyond a multiple of it. -/
structure Spans (n : ℕ) (x : Float) : Prop where
  isFinite : x.isFinite = true
  abs_le : |value x| ≤ n * 2 ^ (971 : ℤ)

theorem spans_zero : Spans 0 0 := ⟨rfl, by simp⟩

theorem Spans.mono {m n : ℕ} {x : Float} (h : Spans m x) (hmn : m ≤ n) : Spans n x := by
  refine ⟨h.isFinite, h.abs_le.trans ?_⟩
  gcongr

theorem Within.spans {x : Float} (h : Within 971 x) : Spans 1 x := by
  refine ⟨h.isFinite, h.abs_le.trans_eq ?_⟩
  rw [Nat.cast_one, one_mul]
  exact (zpow_natCast 2 971).symm

/-- **Spans add up**, as long as there are fewer than `2 ^ 53` of them. -/
theorem Spans.add {m n : ℕ} {x y : Float} (hx : Spans m x) (hy : Spans n y) (h : m + n < 2 ^ 53) :
    Spans (m + n) (x + y) := by
  have hlt : ((m + n : ℕ) : ℚ) * 2 ^ (971 : ℤ) < overflow := by
    rw [← two_zpow_eq_overflow]
    refine mul_lt_mul_of_pos_right ?_ (by positivity)
    exact_mod_cast h
  have hsum : |value x + value y| ≤ ((m + n : ℕ) : ℚ) * 2 ^ (971 : ℤ) := by
    rw [Nat.cast_add, add_mul]
    exact (abs_add_le _ _).trans (add_le_add hx.abs_le hy.abs_le)
  obtain ⟨hfinite, hle⟩ := bounded_of_value (value_add hx.isFinite hy.isFinite) hsum
    (nearest_of_multiple h (by norm_num) hlt.le) hlt
  exact ⟨hfinite, hle⟩

/-! ### Quotients of natural numbers -/

/-- A natural number of at most fifty-three bits is a machine number. -/
theorem value_natCast {n : ℕ} (hn : n < 2 ^ 53) :
    (Float.ofNat n).isFinite = true ∧ value (Float.ofNat n) = n := by
  rcases Nat.eq_zero_or_pos n with rfl | hpos
  · exact ⟨rfl, rfl⟩
  · have hlt : (n : ℚ) < overflow := by
      rw [overflow_eq]
      calc (n : ℚ) < 2 ^ 53 := by exact_mod_cast hn
        _ < 2 ^ 1024 := pow_lt_pow_right₀ one_lt_two (by norm_num)
    have hexact : nearest n = n := by
      simpa using nearest_of_multiple (n := n) (k := 0) hn (by norm_num) (by simpa using hlt.le)
    have hrounded : Float.ofNat n = ofParts (rounded .positive n) := by
      have h := toFloat_eq_rounded (d := ⟨n, 0⟩) hpos.ne' (by simp) (by simp)
      rwa [show Decimal.value ⟨n, 0⟩ = (n : ℚ) by simp [Decimal.value]] at h
    obtain ⟨hnan, hvalue⟩ := value_ofParts_positive (x := n) (by exact_mod_cast hpos)
    rw [← hrounded, hexact] at hvalue
    rw [← hrounded] at hnan
    refine ⟨(isFinite_iff_abs_lt _).mpr ⟨hnan, ?_⟩, hvalue⟩
    rwa [hvalue, abs_of_nonneg (by positivity)]

/-- A part of a whole is at most one. -/
theorem within_div_natCast {m n : ℕ} (h : m < n) (hn : n < 2 ^ 53) :
    Within 0 (Float.ofNat m / Float.ofNat n) := by
  obtain ⟨hm, hmvalue⟩ := value_natCast (h.trans hn)
  obtain ⟨hn, hnvalue⟩ := value_natCast hn
  have hpos : (0 : ℚ) < n := by exact_mod_cast Nat.zero_lt_of_lt h
  refine within_of_value (by norm_num) (value_div hm hn (by rw [hnvalue]; exact hpos.ne')) ?_
  rw [hmvalue, hnvalue, abs_of_nonneg (by positivity), pow_zero, div_le_one hpos]
  exact_mod_cast h.le

/-! ### Finite results -/

theorem isFinite_ofParts_infinity (s : Sign) : (ofParts (.infinity s)).isFinite = false := by
  cases s <;> rfl

theorem isFinite_ofParts_notANumber : (ofParts .notANumber).isFinite = false := rfl

/-- **A finite sum has finite summands.** -/
theorem isFinite_of_add {x y : Float} (h : (x + y).isFinite = true) :
    x.isFinite = true ∧ y.isFinite = true := by
  rw [add_eq] at h
  rw [isFinite_eq, isFinite_eq]
  cases hu : parts x <;> cases hv : parts y <;> rw [hu, hv] at h <;>
    first
    | exact ⟨rfl, rfl⟩
    | simp only [UnpackedFloat.add, isFinite_ofParts_infinity, isFinite_ofParts_notANumber,
        Bool.false_eq_true, apply_ite ofParts, apply_ite Float.isFinite, ite_self] at h

theorem isFinite_of_sub {x y : Float} (h : (x - y).isFinite = true) :
    x.isFinite = true ∧ y.isFinite = true := by
  rw [sub_eq_add] at h
  obtain ⟨hx, hy⟩ := isFinite_of_add h
  exact ⟨hx, (isFinite_neg y).symm.trans hy⟩

/-- A finite product has finite factors. -/
theorem isFinite_of_mul {x y : Float} (h : (x * y).isFinite = true) :
    x.isFinite = true ∧ y.isFinite = true := by
  rw [mul_eq] at h
  rw [isFinite_eq, isFinite_eq]
  cases hu : parts x <;> cases hv : parts y <;> rw [hu, hv] at h <;>
    first
    | exact ⟨rfl, rfl⟩
    | simp only [UnpackedFloat.mul, isFinite_ofParts_infinity, isFinite_ofParts_notANumber,
        Bool.false_eq_true] at h

/-! ### Room for a small number -/

/-- Half a last place below the overflow a number is not rounded up to it. -/
theorem roundedValue_lt_overflow {v : ℚ} (hv : 0 < v) (h : v < (2 ^ 53 - 1 / 2) * 2 ^ (971 : ℤ)) :
    roundedValue v < overflow := by
  have hpos : ∀ k : ℤ, (0 : ℚ) < 2 ^ k := fun k => by positivity
  have hover := two_zpow_eq_overflow
  have hplace : lastPlace v ≤ 971 := by
    have hlt : v < (2 : ℚ) ^ (1024 : ℤ) := by
      refine h.trans ?_
      rw [show (1024 : ℤ) = 53 + 971 by norm_num, zpow_add₀ two_ne_zero]
      refine mul_lt_mul_of_pos_right ?_ (hpos 971)
      norm_num
    have hlog : Int.log 2 v < 1024 :=
      (Int.lt_zpow_iff_log_lt (b := 2) one_lt_two hv).mp (by exact_mod_cast hlt)
    unfold lastPlace
    omega
  unfold roundedValue
  rcases hplace.lt_or_eq with hlt | heq
  · have hle := nearestEven_scaled_le hv
    calc (nearestEven (v / 2 ^ lastPlace v) : ℚ) * 2 ^ lastPlace v
        ≤ 2 ^ (53 : ℤ) * 2 ^ lastPlace v := by gcongr; exact_mod_cast hle
      _ < 2 ^ (53 : ℤ) * 2 ^ (971 : ℤ) := by gcongr; norm_num
      _ = overflow := hover
  · -- with the last place of the largest number, the mantissa is not rounded up to 54 bits
    have hscaled : v / 2 ^ (971 : ℤ) < 2 ^ 53 - 1 / 2 := (div_lt_iff₀ (hpos 971)).mpr h
    have hmantissa : nearestEven (v / 2 ^ (971 : ℤ)) < 2 ^ 53 := by
      generalize v / (2 : ℚ) ^ (971 : ℤ) = w at hscaled
      have hfloor : ⌊w⌋ < 2 ^ 53 := Int.floor_lt.mpr (by push_cast; linarith)
      rcases (Int.le_sub_one_of_lt hfloor).lt_or_eq with hlt | heq
      · have hle := nearestEven_le w
        omega
      · have hfract : Int.fract w < 1 / 2 := by
          rw [← Int.self_sub_floor, heq]
          push_cast
          linarith
        rw [nearestEven, if_pos hfract]
        exact hfloor
    rw [heq, ← hover]
    refine mul_lt_mul_of_pos_right ?_ (hpos 971)
    exact_mod_cast hmantissa

/-- The finite numbers end a whole last place below the overflow. -/
theorem abs_value_le {x : Float} (hx : x.isFinite = true) :
    |value x| ≤ (2 ^ 53 - 1) * 2 ^ (971 : ℤ) := by
  rcases parts_of_isFinite hx with ⟨s, hu⟩ | ⟨s, m, e, hm, hu⟩
  · rw [value_of_zero hu, abs_zero]
    norm_num
  · have hc := canonical_of_parts hu
    have hle := hc.le
    have hmantissa : (m : ℚ) ≤ 2 ^ 53 - 1 := by
      rw [le_sub_iff_add_le]
      exact_mod_cast hc.lt
    have habs : |value x| = m * 2 ^ e := by
      have hpos : (0 : ℚ) < m * 2 ^ e := by positivity
      rw [value_of_finite hu]
      cases s <;> simp [Sign.apply, abs_of_pos hpos]
    rw [habs]
    calc (m : ℚ) * 2 ^ e ≤ m * 2 ^ (971 : ℤ) := by gcongr; norm_num
      _ ≤ (2 ^ 53 - 1) * 2 ^ (971 : ℤ) := by gcongr

/-- **A finite number has room for a small one**: the sum is not rounded up to
infinity. -/
theorem isFinite_add_small {x y : Float} (hx : x.isFinite = true) (hy : Within 969 y) :
    (x + y).isFinite = true := by
  obtain ⟨hnan, hvalue⟩ := value_add hx hy.isFinite
  have hsum : |value x + value y| < (2 ^ 53 - 1 / 2) * 2 ^ (971 : ℤ) := by
    have hsmall : (2 : ℚ) ^ 969 < 1 / 2 * 2 ^ (971 : ℤ) := by
      have hpos : (0 : ℚ) < 2 ^ 969 := by positivity
      have hfour : (2 : ℚ) ^ (971 : ℤ) = 2 ^ 969 * 2 ^ 2 := by
        rw [← pow_add]
        exact zpow_natCast 2 971
      rw [hfour]
      generalize (2 : ℚ) ^ 969 = a at hpos ⊢
      linarith
    calc |value x + value y| ≤ |value x| + |value y| := abs_add_le _ _
      _ ≤ (2 ^ 53 - 1) * 2 ^ (971 : ℤ) + 2 ^ 969 := add_le_add (abs_value_le hx) hy.abs_le
      _ < (2 ^ 53 - 1) * 2 ^ (971 : ℤ) + 1 / 2 * 2 ^ (971 : ℤ) := by gcongr
      _ = (2 ^ 53 - 1 / 2) * 2 ^ (971 : ℤ) := by ring
  refine (isFinite_iff_abs_lt _).mpr ⟨hnan, ?_⟩
  rw [hvalue, abs_nearest]
  rcases (abs_nonneg (value x + value y)).eq_or_lt with hzero | hpos
  · rw [← hzero, nearest_zero]
    exact overflow_pos
  · rw [nearest_of_nonneg hpos.le]
    exact (min_le_left _ _).trans_lt (roundedValue_lt_overflow hpos hsum)

/-! ### Roots -/

/-- The accuracy of an integer root, as a fraction of the unit that it leaves. -/
theorem exists_locates_root (N : ℕ) :
    ∃ f : ℚ, 0 ≤ f ∧ f < 1 ∧ Locates (if N - N.sqrt * N.sqrt = 0 then .exact
      else .inexact (if N - N.sqrt * N.sqrt ≤ N.sqrt then .lt else .gt)) f := by
  split_ifs
  · exact ⟨0, by norm_num, by norm_num, rfl⟩
  · exact ⟨1 / 4, by norm_num, by norm_num, by norm_num [Locates]⟩
  · exact ⟨3 / 4, by norm_num, by norm_num, by norm_num [Locates]⟩

/-- In units of the place `t`, both `r` and the root of `m * 2 ^ e` lie between the integer `n`
and the next one, and `r` has no unit smaller than that. -/
structure Brackets (m : ℕ) (e : ℤ) (r : ℚ) (t : ℤ) (n : ℕ) : Prop where
  place : 2 * t ≤ e
  unit : t ≤ lastPlace r
  pos : 0 < r
  le : (n : ℚ) * 2 ^ t ≤ r
  lt : r < (n + 1) * 2 ^ t
  sq_le : ((n : ℚ) * 2 ^ t) ^ 2 ≤ m * 2 ^ e
  lt_sq : (m : ℚ) * 2 ^ e < ((n + 1) * 2 ^ t) ^ 2

/-- A radicand of twice the digits of a mantissa has a root with all its digits. -/
theorem le_log2_sqrt {m k : ℕ} (hm : 0 < m) (h : 104 ≤ m.log2 + k) :
    52 ≤ (m * 2 ^ k).sqrt.log2 := by
  have hN : 2 ^ 52 * 2 ^ 52 ≤ m * 2 ^ k := by
    calc 2 ^ 52 * 2 ^ 52 = 2 ^ 104 := by norm_num
      _ ≤ 2 ^ (m.log2 + k) := Nat.pow_le_pow_right (by decide) h
      _ = 2 ^ m.log2 * 2 ^ k := pow_add _ _ _
      _ ≤ m * 2 ^ k := Nat.mul_le_mul_right _ (Nat.log2_self_le hm.ne')
  have hroot : 2 ^ 52 ≤ (m * 2 ^ k).sqrt := Nat.le_sqrt.mpr hN
  exact (Nat.le_log2 (by omega)).mpr hroot

/-- A number between an integer root and the next integer, in units of the root. -/
theorem brackets_root {m k : ℕ} {e t : ℤ} {f : ℚ} (hm : 0 < m) (hk : e - 2 * t = k) (hf : 0 ≤ f)
    (hf1 : f < 1) (hunit : t ≤ lastPlace (((m * 2 ^ k).sqrt + f) * 2 ^ t)) :
    Brackets m e (((m * 2 ^ k).sqrt + f) * 2 ^ t) t (m * 2 ^ k).sqrt := by
  have hscaled : ((m * 2 ^ k : ℕ) : ℚ) * (2 ^ t * 2 ^ t) = m * 2 ^ e := by
    have he : e = k + (t + t) := by omega
    rw [he, zpow_add₀ two_ne_zero, zpow_add₀ two_ne_zero, zpow_natCast]
    push_cast
    ring
  have hroot : 1 ≤ (m * 2 ^ k).sqrt := Nat.le_sqrt.mpr (Nat.mul_pos hm (by positivity))
  generalize m * 2 ^ k = N at *
  have hpos : (1 : ℚ) ≤ N.sqrt := by exact_mod_cast hroot
  have hplace : (0 : ℚ) < 2 ^ t := by positivity
  refine ⟨by omega, hunit, by positivity, ?_, ?_, ?_, ?_⟩
  · exact mul_le_mul_of_nonneg_right (by linarith) hplace.le
  · exact mul_lt_mul_of_pos_right (by linarith) hplace
  · have hsquare : ((N.sqrt : ℚ) * N.sqrt) ≤ N := by exact_mod_cast Nat.sqrt_le N
    calc ((N.sqrt : ℚ) * 2 ^ t) ^ 2 = N.sqrt * N.sqrt * (2 ^ t * 2 ^ t) := by ring
      _ ≤ N * (2 ^ t * 2 ^ t) := by gcongr
      _ = m * 2 ^ e := hscaled
  · have hsquare : (N : ℚ) < (N.sqrt + 1) * (N.sqrt + 1) := by exact_mod_cast Nat.lt_succ_sqrt N
    calc (m : ℚ) * 2 ^ e = N * (2 ^ t * 2 ^ t) := hscaled.symm
      _ < (N.sqrt + 1) * (N.sqrt + 1) * (2 ^ t * 2 ^ t) := by gcongr
      _ = ((N.sqrt + 1) * 2 ^ t) ^ 2 := by ring

/-- The root of a positive number is rounded once, from a number that lies in the same unit
as the root. -/
theorem sqrt_eq_rounded {m : ℕ} (hm : 0 < m) (e : ℤ) :
    ∃ (r : ℚ) (t : ℤ) (n : ℕ), Brackets m e r t n ∧
      UnpackedFloat.sqrt Format.binary64 (.finite .positive m e hm) = rounded .positive r := by
  let t := min (e / 2) (Format.binary64.targetExponent ((totalExponent m e + 1) / 2))
  have hte : 2 * t ≤ e := by
    have := min_le_left (e / 2) (Format.binary64.targetExponent ((totalExponent m e + 1) / 2))
    omega
  obtain ⟨k, hk⟩ := Int.eq_ofNat_of_zero_le (sub_nonneg.mpr hte)
  obtain ⟨f, hf, hf1, hlocates⟩ := exists_locates_root (m * 2 ^ k)
  have hroot : 1 ≤ (m * 2 ^ k).sqrt := Nat.le_sqrt.mpr (Nat.mul_pos hm (by positivity))
  let r : ℚ := ((m * 2 ^ k).sqrt + f) * 2 ^ t
  have hfraction : r / 2 ^ t - (m * 2 ^ k).sqrt = f := by
    rw [mul_div_cancel_right₀ _ (by positivity), add_sub_cancel_left]
  rw [← hfraction] at hlocates
  have hunit : t ≤ lastPlace r := by
    have htarget : t ≤ max ((totalExponent m e + 1) / 2 - 53) (-1074) := min_le_right _ _
    unfold lastPlace
    rw [log_eq (by omega) hlocates]
    rcases le_max_iff.mp htarget with h | h
    · have hlog := le_log2_sqrt (k := k) hm (by unfold totalExponent at h; omega)
      omega
    · exact h.trans (le_max_right _ _)
  have hbrackets := brackets_root hm hk hf hf1 hunit
  have hshift : m <<< (e - 2 * t).toNat = m * 2 ^ k := by
    rw [hk, Int.toNat_natCast, Nat.shiftLeft_eq]
  refine ⟨r, t, (m * 2 ^ k).sqrt, hbrackets, ?_⟩
  rw [← roundWithAccuracy_eq_rounded _ hbrackets.pos hlocates hunit, ← hshift]
  rfl

/-- Less than one unit above the integer root of a number below the overflow. -/
theorem Brackets.lt_two_pow {m n : ℕ} {e t : ℤ} {r : ℚ} (h : Brackets m e r t n)
    (hc : Canonical m e) : r < 2 ^ 512 := by
  have hle := hc.le
  have hte := h.place
  obtain ⟨k, hk⟩ := Int.eq_ofNat_of_zero_le (show 0 ≤ 512 - t by omega)
  have hpower : (2 : ℚ) ^ 512 = (2 ^ k : ℕ) * 2 ^ t := by
    rw [Nat.cast_pow, Nat.cast_ofNat, ← zpow_natCast, ← zpow_natCast, ← zpow_add₀ two_ne_zero, ← hk]
    norm_num
  have hroot : (n : ℚ) * 2 ^ t < 2 ^ 512 := by
    refine lt_of_pow_lt_pow_left₀ 2 (by positivity) (h.sq_le.trans_lt ?_)
    rw [← pow_mul, ← overflow_eq]
    exact hc.value_lt
  rw [hpower] at hroot ⊢
  -- both are multiples of the unit
  have hn : n < 2 ^ k := by exact_mod_cast lt_of_mul_lt_mul_right hroot (by positivity)
  refine h.lt.trans_le (mul_le_mul_of_nonneg_right ?_ (by positivity))
  exact_mod_cast hn

/-- **A finite root is small**, and it is the root of a finite number. -/
theorem within_sqrt {x : Float} (h : x.sqrt.isFinite = true) :
    x.isFinite = true ∧ Within 512 x.sqrt := by
  have hsqrt : x.sqrt = ofParts (UnpackedFloat.sqrt Format.binary64 (parts x)) := rfl
  rw [hsqrt] at h ⊢
  rw [isFinite_eq]
  cases hu : parts x with
  | notANumber => rw [hu] at h; cases h
  | infinity s => rw [hu] at h; cases s <;> cases h
  | zero s =>
    refine ⟨rfl, by rwa [hu] at h, ?_⟩
    rw [show UnpackedFloat.sqrt Format.binary64 (.zero s) = .zero s from rfl,
      (value_ofParts_zero s).2, abs_zero]
    positivity
  | finite s m e hm =>
    cases s with
    | negative =>
      -- there is no root of a negative number
      rw [hu, show UnpackedFloat.sqrt Format.binary64 (.finite .negative m e hm) = .notANumber from rfl,
        isFinite_ofParts_notANumber] at h
      cases h
    | positive =>
      obtain ⟨r, t, n, hbrackets, hrounded⟩ := sqrt_eq_rounded hm e
      rw [hrounded]
      refine ⟨rfl, within_of_value (by norm_num) (value_ofParts_positive hbrackets.pos) ?_⟩
      rw [abs_of_pos hbrackets.pos]
      exact (hbrackets.lt_two_pow (canonical_of_parts hu)).le

end Binary64
end PenPlotter
