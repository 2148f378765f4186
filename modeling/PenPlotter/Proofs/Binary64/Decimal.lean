import Mathlib
import PenPlotter.Proofs.Binary64.Rounding

/-!
# Decimals as machine numbers

A decimal is read by one rounding of its value, also where a short cut through a
table of powers of ten is taken.  So two decimals with one value are read as one
number, and all the digits of a machine number are read as that number.

## Main definitions

* `Decimal.value` — the exact value of a decimal.
* `powerMantissa`, `powerExponent` — the parts of a power of ten.

## Main results

* `toFloat_eq_rounded` — **the machine number of a decimal is its rounded value.**
* `exact_toFloat` — all the digits of a magnitude are read back.
-/

namespace PenPlotter

/-- The exact value of a decimal. -/
def Decimal.value (d : Decimal) : ℚ := d.coefficient * 10 ^ d.exponent

namespace Binary64

open Float.Model
open Float.Model.UnpackedFloat (Sign)

/-! ### Integers -/

/-- An integer is rounded once. -/
theorem round_eq_rounded (s : Sign) {m : ℕ} (hm : 0 < m) (e : ℤ) :
    UnpackedFloat.round Format.binary64 s m e = rounded s (m * 2 ^ e) := by
  have htarget : Format.binary64.targetExponent (totalExponent m e) =
      lastPlace (m * 2 ^ e) := by
    rw [targetExponent_eq]
    unfold totalExponent lastPlace
    rw [log_eq hm.ne' (locates_scaled m e)]
    congr 1
    ring
  unfold UnpackedFloat.round UnpackedFloat.decreaseExponent
  dsimp only
  rw [htarget]
  refine roundWithAccuracy_eq_rounded _ (by positivity) ?_ (by omega)
  rw [locates_exact, Nat.shiftLeft_eq, zpow_sub₀ two_ne_zero, zpow_natCast]
  push_cast
  field_simp
  ring

/-- An integer of at most fifty-three bits is a machine number. -/
theorem canonical_of_lt {m : ℕ} (hm : 0 < m) (hlt : m < 2 ^ 53) :
    Canonical (m * 2 ^ (52 - m.log2)) (m.log2 - 52) := by
  have hlog := (Nat.log2_lt hm.ne').mpr hlt
  have hlo : 2 ^ m.log2 ≤ m := Nat.log2_self_le hm.ne'
  have hhi : m < 2 ^ (m.log2 + 1) := Nat.lt_log2_self
  have hpow : 2 ^ m.log2 * 2 ^ (52 - m.log2) = 2 ^ 52 := by
    rw [← pow_add]
    congr 1
    omega
  have hscale : 0 < 2 ^ (52 - m.log2) := by positivity
  refine ⟨?_, by omega, by omega, .inl ?_⟩
  · calc m * 2 ^ (52 - m.log2) < 2 ^ (m.log2 + 1) * 2 ^ (52 - m.log2) := by gcongr
      _ = 2 ^ 53 := by rw [pow_succ, mul_right_comm, hpow]; norm_num
  · calc 2 ^ 52 = 2 ^ m.log2 * 2 ^ (52 - m.log2) := hpow.symm
      _ ≤ m * 2 ^ (52 - m.log2) := by gcongr

theorem value_of_lt {m : ℕ} (hlt : m.log2 < 53) :
    ((m * 2 ^ (52 - m.log2) : ℕ) : ℚ) * 2 ^ ((m.log2 : ℤ) - 52) = m := by
  push_cast
  rw [← zpow_natCast, mul_assoc, ← zpow_add₀ two_ne_zero,
    show ((52 - m.log2 : ℕ) : ℤ) + (m.log2 - 52) = 0 by omega, zpow_zero, mul_one]

theorem parts_toFloat {m : ℕ} (hm : 0 < m) (hlt : m < 2 ^ 53) :
    parts m.toUInt64.toFloat =
      .finite .positive (m * 2 ^ (52 - m.log2)) (m.log2 - 52) (by positivity) := by
  have hnat : m.toUInt64.toNat = m := by
    rw [Nat.toUInt64_eq, UInt64.toNat_ofNat']
    omega
  have hround : m.toUInt64.toFloat = ofParts (UnpackedFloat.round Format.binary64 .positive m 0) := by
    show ofParts (UnpackedFloat.normalize Format.binary64 (m.toUInt64.toNat : ℤ) 0 .positive) = _
    rw [hnat]
    unfold UnpackedFloat.normalize
    rw [Int.compare_eq_gt.mpr (by omega), Int.toNat_natCast]
  have hc := canonical_of_lt hm hlt
  rw [hround, round_eq_rounded _ hm, zpow_zero, mul_one,
    ← value_of_lt ((Nat.log2_lt hm.ne').mpr hlt), rounded_of_canonical _ (by positivity) hc,
    parts_ofParts_finite _ _ hc]

/-! ### Powers of ten -/

/-- The mantissa of a power of ten in the table. -/
def powerMantissa (k : ℕ) : ℕ := 5 ^ k * 2 ^ (52 - (5 ^ k).log2)

/-- The exponent of a power of ten in the table. -/
def powerExponent (k : ℕ) : ℤ := k + (5 ^ k).log2 - 52

theorem powerMantissa_pos (k : ℕ) : 0 < powerMantissa k := by
  unfold powerMantissa
  positivity

theorem five_pow_lt {k : ℕ} (hk : k ≤ 22) : 5 ^ k < 2 ^ 53 :=
  calc 5 ^ k ≤ 5 ^ 22 := Nat.pow_le_pow_right (by omega) hk
    _ < 2 ^ 53 := by norm_num

theorem power_value {k : ℕ} (hk : k ≤ 22) :
    (powerMantissa k : ℚ) * 2 ^ powerExponent k = 10 ^ k := by
  have hvalue := value_of_lt ((Nat.log2_lt (by positivity)).mpr (five_pow_lt hk))
  unfold powerMantissa powerExponent
  rw [add_sub_assoc, zpow_add₀ two_ne_zero, mul_left_comm, hvalue, zpow_natCast]
  push_cast
  rw [← mul_pow]
  norm_num

/-- Every entry of the table is an exact power of ten. -/
theorem power_eq : ∀ k : Fin Float.exactlyRepresentablePowersOfTen.size,
    Float.exactlyRepresentablePowersOfTen[k] =
      ofParts (.finite .positive (powerMantissa k) (powerExponent k) (powerMantissa_pos k)) := by
  decide +kernel

theorem parts_power {k : ℕ} (hk : k < 23) (h : k < Float.exactlyRepresentablePowersOfTen.size) :
    parts Float.exactlyRepresentablePowersOfTen[k] =
      .finite .positive (powerMantissa k) (powerExponent k) (powerMantissa_pos k) := by
  have hlt : 5 ^ k < 2 ^ 53 := five_pow_lt (by omega)
  have hlog := (Nat.log2_lt (by positivity)).mpr hlt
  have hc := canonical_of_lt (by positivity) hlt
  have hcanonical : Canonical (powerMantissa k) (powerExponent k) := by
    unfold powerExponent
    exact ⟨hc.lt, by omega, by omega, .inl (hc.normal.resolve_right (by omega))⟩
  exact (congrArg parts (power_eq ⟨k, h⟩)).trans (parts_ofParts_finite _ _ hcanonical)

/-! ### Decimals -/

/-- The short cut for few digits and a small power of ten rounds once as well. -/
theorem ofScientific_of_small {c k : ℕ} (hc : 0 < c) (hlt : c < 2 ^ 53) (hk : k ≤ 22)
    (below : Bool) :
    Float.ofScientific c below k =
      ofParts (rounded .positive (if below then c / 10 ^ k else c * 10 ^ k)) := by
  have hvalue := value_of_lt ((Nat.log2_lt hc.ne').mpr hlt)
  have hpower := power_value hk
  have hnormal : 2 ^ 52 ≤ c * 2 ^ (52 - c.log2) :=
    (canonical_of_lt hc hlt).normal.resolve_right (by have := Nat.zero_le c.log2; omega)
  unfold Float.ofScientific
  rw [dif_pos ⟨hlt, hk⟩]
  dsimp only
  cases below with
  | true =>
    rw [if_pos rfl, if_pos rfl, div_eq, parts_toFloat hc hlt, parts_power (by omega), div_eq_rounded,
      hvalue, hpower]
    rfl
  | false =>
    rw [if_neg Bool.false_ne_true, if_neg Bool.false_ne_true, mul_eq, parts_toFloat hc hlt,
      parts_power (by omega), mul_eq_rounded, hvalue, hpower]
    · rfl
    · exact hnormal.trans (Nat.le_mul_of_pos_right _ (powerMantissa_pos k))

/-- Many digits or a large power of ten are multiplied out, and rounded once, unless the
power is so large or so small that there is nothing to round. -/
theorem ofScientific_of_large {c : ℕ} (hc : 0 < c) {e : ℤ} (hhigh : e ≤ 2048)
    (hlow : -(2048 + (c.log2 : ℤ)) ≤ e) :
    UnpackedFloat.ofScientific Format.binary64 c e = rounded .positive (c * 10 ^ e) := by
  unfold UnpackedFloat.ofScientific
  rw [dif_neg hc.ne', if_neg (by norm_num; omega), if_neg (by norm_num; omega)]
  split_ifs with hsign
  · -- the digits are shifted up before they are multiplied, so that none is lost
    obtain ⟨k, rfl⟩ := Int.eq_ofNat_of_zero_le hsign
    have hvalue : ((c <<< 53 : ℕ) : ℚ) * 2 ^ (-53 : ℤ) * ((10 ^ k : ℕ) * 2 ^ (0 : ℤ)) =
        c * 10 ^ (k : ℤ) := by
      rw [Nat.shiftLeft_eq, zpow_neg, zpow_natCast, zpow_zero]
      push_cast
      field_simp
    rw [← hvalue]
    refine mul_eq_rounded _ _ _ _ ?_
    calc 2 ^ 52 ≤ c * 2 ^ 53 := by omega
      _ = c <<< 53 := (Nat.shiftLeft_eq _ _).symm
      _ ≤ c <<< 53 * 10 ^ k := Nat.le_mul_of_pos_right _ (by positivity)
  · obtain ⟨k, hk⟩ := Int.eq_ofNat_of_zero_le (by omega : 0 ≤ -e)
    rw [div_eq_rounded, hk, Int.toNat_natCast, ← neg_neg e, hk, zpow_neg, zpow_natCast, zpow_zero,
      mul_one, mul_one, div_eq_mul_inv]
    push_cast
    rfl

/-- **The machine number of a decimal is its rounded value**, whichever way it is
computed. -/
theorem toFloat_eq_rounded {d : Decimal} (hc : d.coefficient ≠ 0) (hhigh : d.exponent ≤ 2048)
    (hlow : -(2048 + (d.coefficient.log2 : ℤ)) ≤ d.exponent) :
    d.toFloat = ofParts (rounded .positive d.value) := by
  obtain ⟨c, e⟩ := d
  unfold Decimal.toFloat Decimal.value
  dsimp only at hc hhigh hlow ⊢
  have hc : 0 < c := Nat.pos_of_ne_zero hc
  by_cases hsmall : c < 2 ^ 53 ∧ e.natAbs ≤ 22
  · -- the short cut through the table of powers
    rw [ofScientific_of_small hc hsmall.1 hsmall.2]
    congr 2
    by_cases hsign : e < 0
    · rw [if_pos (decide_eq_true hsign), div_eq_mul_inv, ← zpow_natCast, ← zpow_neg,
        Int.ofNat_natAbs_of_nonpos hsign.le, neg_neg]
    · rw [if_neg (by simpa using hsign), ← zpow_natCast, Int.natAbs_of_nonneg (by omega)]
  · -- the exact way, with the sign of the exponent put back
    unfold Float.ofScientific
    rw [dif_neg hsmall]
    have hexponent : (if decide (e < 0) then Int.negOfNat e.natAbs else Int.ofNat e.natAbs) = e := by
      by_cases hsign : e < 0
      · rw [if_pos (decide_eq_true hsign), Int.negOfNat_eq, Int.ofNat_eq_natCast]
        omega
      · rw [if_neg (by simpa using hsign), Int.ofNat_eq_natCast]
        omega
    dsimp only
    rw [hexponent]
    exact congrArg ofParts (ofScientific_of_large hc hhigh hlow)

/-- No digits but zeros are read as zero. -/
theorem zero_ofScientific (below : Bool) (k : ℕ) : Float.ofScientific 0 below k = 0 := by
  have hsmall : ∀ (k : Fin 23) (below : Bool), Float.ofScientific 0 below k = 0 := by decide +kernel
  by_cases hk : k ≤ 22
  · exact hsmall ⟨k, by omega⟩ below
  · have hlarge : ¬ ((0 : ℕ) < 2 ^ 53 ∧ k ≤ 22) := by
      intro h
      exact hk h.2
    unfold Float.ofScientific
    rw [dif_neg hlarge]
    rfl

theorem exact_eq (x : Magnitude) : x.exact =
    if x.exponent < 0 then ⟨x.mantissa * 5 ^ x.exponent.natAbs, x.exponent⟩
    else ⟨x.mantissa * 2 ^ x.exponent.natAbs, 0⟩ := rfl

/-- All the digits of a magnitude have its value. -/
theorem exact_value (x : Magnitude) : x.exact.value = x.mantissa * 2 ^ x.exponent := by
  rw [exact_eq, Decimal.value]
  split_ifs with hsign
  · obtain ⟨k, hk⟩ := Int.eq_ofNat_of_zero_le (by omega : 0 ≤ -x.exponent)
    rw [← neg_neg x.exponent, hk, Int.natAbs_neg, Int.natAbs_natCast, zpow_neg, zpow_neg,
      zpow_natCast, zpow_natCast, show (10 : ℚ) = 5 * 2 by norm_num, mul_pow]
    push_cast
    field_simp
  · obtain ⟨k, hk⟩ := Int.eq_ofNat_of_zero_le (not_lt.mp hsign)
    rw [hk, Int.natAbs_natCast, zpow_natCast]
    push_cast
    rw [mul_one]

/-- All the digits of a machine number are read back as that number. -/
theorem exact_toFloat {m : ℕ} {e : ℤ} (hm : 0 < m) (hc : Canonical m e) :
    (Magnitude.exact ⟨m, e⟩).toFloat = ofParts (.finite .positive m e hm) := by
  have hge := hc.ge
  have hle := hc.le
  have hcoefficient : (Magnitude.exact ⟨m, e⟩).coefficient ≠ 0 := by
    rw [exact_eq]
    split_ifs <;> dsimp only <;> positivity
  have hexponent : (Magnitude.exact ⟨m, e⟩).exponent.natAbs ≤ 2048 := by
    rw [exact_eq]
    dsimp only
    split_ifs <;> dsimp only <;> omega
  rw [toFloat_eq_rounded hcoefficient (by omega) (by omega), exact_value, rounded_of_canonical _ hm hc]

end Binary64

theorem Decimal.toFloat_of_zero {d : Decimal} (h : d.coefficient = 0) : d.toFloat = 0 := by
  unfold toFloat
  rw [h, Binary64.zero_ofScientific]

end PenPlotter
