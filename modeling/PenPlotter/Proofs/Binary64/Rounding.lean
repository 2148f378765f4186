import Mathlib
import PenPlotter.Proofs.Binary64.Parts

/-!
# Rounding to a machine number

Products, quotients and decimals are rounded from an exact rational value.  The
machine keeps a mantissa of that value together with where the value lies above
it, and drops digits from the two until the mantissa fits.  What comes out depends
on the value alone.

## Main definitions

* `nearestEven x` — the integer nearest to `x`, the even one if there are two.
* `lastPlace x` — the power of two that the last digit of a machine number near
  `x` counts.
* `rounded s x` — the parts of the machine number nearest to `x`, with a sign.
* `Locates`, `Stands` — where an exact value lies above a mantissa.

## Main results

* `roundWithAccuracy_eq_rounded` — **the machine rounds the value to the nearest.**
* `mul_eq_rounded`, `div_eq_rounded` — so do a product and a quotient.
* `rounded_of_canonical` — a value that a machine number has is not changed.
-/

namespace PenPlotter
namespace Binary64

open Float.Model
open Float.Model.UnpackedFloat (Sign Accuracy ExtendedMantissa)

/-- The integer nearest to a number, and the even one halfway between two. -/
def nearestEven (x : ℚ) : ℤ :=
  if Int.fract x < 1 / 2 then ⌊x⌋ else if 1 / 2 < Int.fract x then ⌊x⌋ + 1 else ⌊x⌋ + ⌊x⌋ % 2

/-- The power of two that the last digit of a machine number near `x` counts. -/
def lastPlace (x : ℚ) : ℤ := max (Int.log 2 x - 52) (-1074)

/-- The parts of the machine number nearest to `x`, with a given sign.  A mantissa
that is rounded up to the next power of two loses its last digit, which is zero. -/
def rounded (s : Sign) (x : ℚ) : UnpackedFloat :=
  let n := (nearestEven (x / 2 ^ lastPlace x)).toNat
  if h : n = 0 then .zero s
  else if n < 2 ^ 53 then .finite s n (lastPlace x) (Nat.pos_of_ne_zero h)
  else .finite s (2 ^ 52) (lastPlace x + 1) (by decide)

/-! ### Mantissas with an accuracy -/

/-- The accuracy says where the fraction `f` lies against zero and one half. -/
def Locates : Accuracy → ℚ → Prop
  | .exact, f => f = 0
  | .inexact .lt, f => 0 < f ∧ f < 1 / 2
  | .inexact .eq, f => f = 1 / 2
  | .inexact .gt, f => 1 / 2 < f ∧ f < 1

/-- The mantissa and its two further bits stand for the value `y`. -/
def Stands (em : ExtendedMantissa) (y : ℚ) : Prop := Locates em.accuracy (y - em.mantissa)

@[simp] theorem locates_exact (f : ℚ) : Locates .exact f ↔ f = 0 := Iff.rfl

@[simp] theorem locates_lt (f : ℚ) : Locates (.inexact .lt) f ↔ 0 < f ∧ f < 1 / 2 := Iff.rfl

@[simp] theorem locates_eq (f : ℚ) : Locates (.inexact .eq) f ↔ f = 1 / 2 := Iff.rfl

@[simp] theorem locates_gt (f : ℚ) : Locates (.inexact .gt) f ↔ 1 / 2 < f ∧ f < 1 := Iff.rfl

theorem Locates.bounds {a : Accuracy} {f : ℚ} (h : Locates a f) : 0 ≤ f ∧ f < 1 := by
  rcases a with _ | _ | _ | _ <;> simp only [locates_exact, locates_lt, locates_eq, locates_gt] at h <;>
    constructor <;> linarith

/-- A mantissa is the exact scaled value of itself. -/
theorem locates_scaled (m : ℕ) (e : ℤ) : Locates .exact ((m * 2 ^ e : ℚ) / 2 ^ e - m) := by
  rw [locates_exact]
  field_simp
  ring

theorem Stands.floor {em : ExtendedMantissa} {y : ℚ} (h : Stands em y) :
    ⌊y⌋ = (em.mantissa : ℤ) := by
  obtain ⟨h0, h1⟩ := Locates.bounds h
  rw [Int.floor_eq_iff]
  push_cast
  constructor <;> linarith

theorem stands_ofMantissaAndAccuracy {m : ℕ} {a : Accuracy} {y : ℚ} (h : Locates a (y - m)) :
    Stands (ExtendedMantissa.ofMantissaAndAccuracy m a) y := by
  rcases a with _ | _ | _ | _ <;> exact h

/-- Rounding the mantissa by its two further bits rounds the value. -/
theorem Stands.roundedMantissa {em : ExtendedMantissa} {y : ℚ} (h : Stands em y) :
    (em.roundedMantissa : ℤ) = nearestEven y := by
  have hfract : Int.fract y = y - em.mantissa := by
    rw [Int.fract, h.floor, Int.cast_natCast]
  unfold nearestEven ExtendedMantissa.roundedMantissa
  rw [hfract, h.floor]
  unfold Stands at h
  generalize em.accuracy = a at h
  generalize y - (em.mantissa : ℚ) = f at h
  rcases a with _ | _ | _ | _ <;> simp only [Accuracy.roundToNearestEven]
  · rw [locates_exact] at h
    have hlt : f < 1 / 2 := by
      rw [h]
      norm_num
    rw [if_pos hlt]
  · rw [if_pos h.2]
  · -- halfway between two integers, the even one is taken
    rw [locates_eq] at h
    rw [h, if_neg (lt_irrefl _), if_neg (lt_irrefl _)]
    push_cast
    rfl
  · rw [if_neg (not_lt.mpr h.1.le), if_pos h.1]
    push_cast
    rfl

/-- Dropping a digit halves the value: the digit becomes the first further bit,
and what was below it is remembered in the second one. -/
theorem Stands.shiftRightOne {em : ExtendedMantissa} {y : ℚ} (h : Stands em y) :
    Stands em.shiftRightOne (y / 2) := by
  obtain ⟨m, r, s⟩ := em
  have hm : (m : ℚ) = 2 * (m / 2 : ℕ) + (m % 2 : ℕ) := by
    exact_mod_cast (Nat.div_add_mod m 2).symm
  unfold Stands at *
  simp only [ExtendedMantissa.shiftRightOne]
  generalize ((m / 2 : ℕ) : ℚ) = k at hm ⊢
  have h0 : ((0 : ℕ) != 0) = false := rfl
  have h1 : ((1 : ℕ) != 0) = true := rfl
  -- the digit dropped, the bit after it and the bit for the rest: eight cases
  rcases Nat.mod_two_eq_zero_or_one m with hp | hp <;> rw [hp] at hm ⊢ <;> push_cast at hm <;>
    rw [hm] at h <;> cases r <;> cases s <;>
    simp only [ExtendedMantissa.accuracy, h0, h1, Bool.or_false, Bool.or_true, locates_exact,
      locates_lt, locates_eq, locates_gt] at h ⊢ <;>
    first | linarith | constructor <;> linarith

theorem Stands.shiftRight {em : ExtendedMantissa} {y : ℚ} (h : Stands em y) (k : ℕ) :
    Stands (em >>> k) (y / 2 ^ k) := by
  induction k with
  | zero => rwa [pow_zero, div_one]
  | succ k ih =>
    rw [pow_succ, ← div_div]
    exact ih.shiftRightOne

/-! ### Where the last digit is -/

theorem targetExponent_eq (t : ℤ) : Format.binary64.targetExponent t = max (t - 53) (-1074) := rfl

theorem log_eq_of_bounds {x : ℚ} {k : ℤ} (hlo : (2 : ℚ) ^ k ≤ x) (hhi : x < (2 : ℚ) ^ (k + 1)) :
    Int.log 2 x = k := by
  have hx : 0 < x := lt_of_lt_of_le (by positivity) hlo
  have h1 := (Int.zpow_le_iff_le_log (b := 2) one_lt_two hx).mp (by exact_mod_cast hlo)
  have h2 := (Int.lt_zpow_iff_log_lt (b := 2) one_lt_two hx).mp (by exact_mod_cast hhi)
  omega

/-- The mantissa before rounding tells where the value has its first digit. -/
theorem log_eq {x : ℚ} {m : ℕ} {e : ℤ} {a : Accuracy} (hm : m ≠ 0)
    (h : Locates a (x / 2 ^ e - m)) : Int.log 2 x = m.log2 + e := by
  obtain ⟨h0, h1⟩ := h.bounds
  have hpos : (0 : ℚ) < 2 ^ e := by positivity
  have hlo : ((2 : ℚ) ^ m.log2) ≤ m := by exact_mod_cast Nat.log2_self_le hm
  have hhi : (m : ℚ) + 1 ≤ 2 ^ (m.log2 + 1) := by exact_mod_cast Nat.lt_log2_self
  apply log_eq_of_bounds
  · rw [zpow_add₀ two_ne_zero, zpow_natCast, ← le_div_iff₀ hpos]
    linarith
  · rw [add_right_comm, zpow_add₀ two_ne_zero, ← div_lt_iff₀ hpos]
    refine lt_of_lt_of_le (by linarith) (hhi.trans_eq ?_)
    rw [← zpow_natCast]
    push_cast
    rfl

/-- The exponent that the mantissa is shifted to is the last place of the value. -/
theorem targetExponent_of_locates {x : ℚ} {m : ℕ} {e : ℤ} {a : Accuracy} (hx : 0 < x)
    (h : Locates a (x / 2 ^ e - m)) (he : e ≤ lastPlace x) :
    Format.binary64.targetExponent (totalExponent m e) = lastPlace x := by
  rw [targetExponent_eq]
  unfold totalExponent lastPlace at *
  by_cases hm : m = 0
  · -- the value is below the last place of the mantissa, which is then the least one
    subst hm
    have hlt : x < (2 : ℚ) ^ e := by
      have := h.bounds.2
      rwa [Nat.cast_zero, sub_zero, div_lt_one (by positivity)] at this
    have := (Int.lt_zpow_iff_log_lt (b := 2) one_lt_two hx).mp (by exact_mod_cast hlt)
    rw [show Nat.log2 0 = 0 from rfl]
    push_cast
    omega
  · rw [log_eq hm h]
    congr 1
    ring

theorem scaled_lt {x : ℚ} (hx : 0 < x) : x / 2 ^ lastPlace x < 2 ^ 53 := by
  rw [div_lt_iff₀ (by positivity), ← zpow_natCast, ← zpow_add₀ two_ne_zero]
  have := (Int.lt_zpow_iff_log_lt (b := 2) one_lt_two hx (x := 53 + lastPlace x)).mpr
    (by unfold lastPlace; omega)
  exact_mod_cast this

/-! ### Rounding to the nearest -/

theorem nearestEven_le (x : ℚ) : nearestEven x ≤ ⌊x⌋ + 1 := by
  unfold nearestEven
  split_ifs <;> omega

@[simp] theorem nearestEven_natCast (n : ℕ) : nearestEven n = n := by
  unfold nearestEven
  rw [Int.fract_natCast, if_pos (by norm_num), Int.floor_natCast]

theorem shiftToExponent_eq (m : ℕ) {e t : ℤ} {k : ℕ} (a : Accuracy) (h : t - e = k) :
    UnpackedFloat.shiftToExponent m e a t =
      (ExtendedMantissa.ofMantissaAndAccuracy m a >>> k, t) := by
  unfold UnpackedFloat.shiftToExponent
  rw [h, Int.toNat_natCast]
  exact congrArg (Prod.mk _) (by omega)

/-- A rounded mantissa of fifty-three bits is not shifted again. -/
theorem shiftToTargetExponent_of_lt {n : ℕ} {e : ℤ} (hn : n < 2 ^ 53) (he : -1074 ≤ e) :
    UnpackedFloat.shiftToTargetExponent Format.binary64 n e .exact = (⟨n, false, false⟩, e) := by
  have hlog : n.log2 < 53 := by
    by_cases h0 : n = 0
    · subst h0; decide
    · exact (Nat.log2_lt h0).mpr hn
  unfold UnpackedFloat.shiftToTargetExponent UnpackedFloat.shiftToExponent totalExponent
  dsimp only
  rw [targetExponent_eq, Int.toNat_of_nonpos (by omega)]
  exact congrArg (Prod.mk _) (by omega)

/-- A mantissa that was rounded up to fifty-four bits loses the last one. -/
theorem shiftToTargetExponent_carry {e : ℤ} (he : -1074 ≤ e) :
    UnpackedFloat.shiftToTargetExponent Format.binary64 (2 ^ 53) e .exact =
      (⟨2 ^ 52, false, false⟩, e + 1) := by
  have hlog : (2 ^ 53 : ℕ).log2 = 53 := by decide
  unfold UnpackedFloat.shiftToTargetExponent totalExponent
  rw [targetExponent_eq, hlog, shiftToExponent_eq _ (k := 1) _ (by push_cast; omega)]
  exact congrArg (Prod.mk _) (by push_cast; omega)

/-- **The machine rounds the value to the nearest** one with the value's last
place, if the mantissa it is given has at least that many digits. -/
theorem roundWithAccuracy_eq_rounded (s : Sign) {x : ℚ} {m : ℕ} {e : ℤ} {a : Accuracy}
    (hx : 0 < x) (h : Locates a (x / 2 ^ e - m)) (he : e ≤ lastPlace x) :
    UnpackedFloat.roundWithAccuracy Format.binary64 s m e a = rounded s x := by
  obtain ⟨k, hk⟩ := Int.eq_ofNat_of_zero_le (sub_nonneg.mpr he)
  have hmin : -1074 ≤ lastPlace x := le_max_right _ _
  -- the first shift leaves the value over its last place
  have hstands : Stands (ExtendedMantissa.ofMantissaAndAccuracy m a >>> k) (x / 2 ^ lastPlace x) := by
    have := (stands_ofMantissaAndAccuracy h).shiftRight k
    rwa [div_div, ← zpow_natCast, ← zpow_add₀ two_ne_zero, ← hk, add_sub_cancel] at this
  have hround := hstands.roundedMantissa
  unfold UnpackedFloat.roundWithAccuracy rounded
  rw [UnpackedFloat.shiftToTargetExponent, targetExponent_of_locates hx h he,
    shiftToExponent_eq m a hk, ← hround, Int.toNat_natCast]
  dsimp only
  generalize (ExtendedMantissa.ofMantissaAndAccuracy m a >>> k).roundedMantissa = n at hround ⊢
  have hle : n ≤ 2 ^ 53 := by
    have h1 := nearestEven_le (x / 2 ^ lastPlace x)
    have h2 : ⌊x / 2 ^ lastPlace x⌋ < 2 ^ 53 := Int.floor_lt.mpr (by exact_mod_cast scaled_lt hx)
    rw [← hround] at h1
    exact_mod_cast h1.trans h2
  -- the second one takes back a carry into a further digit
  rcases hle.lt_or_eq with hlt | rfl
  · rw [shiftToTargetExponent_of_lt hlt hmin]
    split_ifs <;> rfl
  · rw [shiftToTargetExponent_carry hmin]
    rfl

/-! ### The operations -/

/-- A product is rounded once, if its exact mantissa is taken at or below the last
place. -/
theorem mul_eq_rounded_of_le (s t : Sign) {m n : ℕ} {e f : ℤ} (hm : 0 < m) (hn : 0 < n)
    (h : e + f ≤ lastPlace (m * 2 ^ e * (n * 2 ^ f))) :
    UnpackedFloat.mul Format.binary64 (.finite s m e hm) (.finite t n f hn) =
      rounded (s * t) (m * 2 ^ e * (n * 2 ^ f)) := by
  have hvalue : ((m : ℚ) * 2 ^ e * (n * 2 ^ f)) = (m * n : ℕ) * 2 ^ (e + f) := by
    rw [zpow_add₀ two_ne_zero]
    push_cast
    ring
  refine roundWithAccuracy_eq_rounded _ (by positivity) ?_ h
  rw [hvalue]
  exact locates_scaled _ _

/-- A product is rounded once, if the factors have digits enough between them. -/
theorem mul_eq_rounded (s t : Sign) {m n : ℕ} {e f : ℤ} (hm : 0 < m) (hn : 0 < n)
    (h : 2 ^ 52 ≤ m * n) :
    UnpackedFloat.mul Format.binary64 (.finite s m e hm) (.finite t n f hn) =
      rounded (s * t) (m * 2 ^ e * (n * 2 ^ f)) := by
  have hmn : m * n ≠ 0 := (Nat.mul_pos hm hn).ne'
  have hvalue : ((m : ℚ) * 2 ^ e * (n * 2 ^ f)) = (m * n : ℕ) * 2 ^ (e + f) := by
    rw [zpow_add₀ two_ne_zero]
    push_cast
    ring
  refine mul_eq_rounded_of_le s t hm hn ?_
  have hlog : 52 ≤ (m * n).log2 := (Nat.le_log2 hmn).mpr h
  unfold lastPlace
  rw [hvalue, log_eq hmn (locates_scaled _ _)]
  omega

/-- A product of machine numbers is rounded once: with few digits between them both
have the least exponent. -/
theorem mul_eq_rounded_of_canonical (s t : Sign) {m n : ℕ} {e f : ℤ} (hm : 0 < m) (hn : 0 < n)
    (hc : Canonical m e) (hd : Canonical n f) :
    UnpackedFloat.mul Format.binary64 (.finite s m e hm) (.finite t n f hn) =
      rounded (s * t) (m * 2 ^ e * (n * 2 ^ f)) := by
  by_cases h : 2 ^ 52 ≤ m * n
  · exact mul_eq_rounded s t hm hn h
  · have hm' : m < 2 ^ 52 := (Nat.le_mul_of_pos_right m hn).trans_lt (not_le.mp h)
    have hn' : n < 2 ^ 52 := (Nat.le_mul_of_pos_left n hm).trans_lt (not_le.mp h)
    have he : e = -1074 := hc.normal.resolve_left (not_le.mpr hm')
    have hf : f = -1074 := hd.normal.resolve_left (not_le.mpr hn')
    refine mul_eq_rounded_of_le s t hm hn ?_
    unfold lastPlace
    omega

theorem locates_accuracyOfFraction {num den : ℕ} (h : num < den) :
    Locates (UnpackedFloat.accuracyOfFraction num den) ((num : ℚ) / den) := by
  have hden : (0 : ℚ) < den := by exact_mod_cast Nat.zero_lt_of_lt h
  unfold UnpackedFloat.accuracyOfFraction
  split
  · next h0 => rw [locates_exact, h0, Nat.cast_zero, zero_div]
  · next h0 =>
    have hnum : (0 : ℚ) < num := by exact_mod_cast Nat.pos_of_ne_zero h0
    rcases lt_trichotomy (2 * num) den with hc | hc | hc
    · rw [Nat.compare_eq_lt.mpr hc, locates_lt, div_lt_iff₀ hden]
      have : (2 : ℚ) * num < den := by exact_mod_cast hc
      exact ⟨by positivity, by linarith⟩
    · rw [Nat.compare_eq_eq.mpr hc, locates_eq, div_eq_iff hden.ne']
      have : (2 : ℚ) * num = den := by exact_mod_cast hc
      linarith
    · rw [Nat.compare_eq_gt.mpr hc, locates_gt, lt_div_iff₀ hden, div_lt_one hden]
      have : (den : ℚ) < 2 * num := by exact_mod_cast hc
      exact ⟨by linarith, by exact_mod_cast h⟩

/-- The mantissa of a quotient is taken with at least the digits that stay. -/
theorem divisionExponent_le {m n : ℕ} {e f : ℤ} (hm : 0 < m) (hn : 0 < n) :
    Format.binary64.targetExponent (totalExponent m e - totalExponent n f) ≤
      lastPlace (m * 2 ^ e / (n * 2 ^ f)) := by
  have hmlo : (2 : ℚ) ^ m.log2 ≤ m := by exact_mod_cast Nat.log2_self_le hm.ne'
  have hnhi : (n : ℚ) < 2 ^ (n.log2 + 1) := by exact_mod_cast Nat.lt_log2_self
  have hx : (2 : ℚ) ^ (totalExponent m e - totalExponent n f - 1) ≤ m * 2 ^ e / (n * 2 ^ f) := by
    rw [le_div_iff₀ (by positivity)]
    calc (2 : ℚ) ^ (totalExponent m e - totalExponent n f - 1) * (n * 2 ^ f)
        ≤ 2 ^ (totalExponent m e - totalExponent n f - 1) * (2 ^ (n.log2 + 1) * 2 ^ f) := by
          gcongr
      _ = 2 ^ m.log2 * 2 ^ e := by
          have h2 : (2 : ℚ) ≠ 0 := two_ne_zero
          simp only [← zpow_natCast, ← zpow_add₀ h2, totalExponent]
          congr 1
          push_cast
          ring
      _ ≤ m * 2 ^ e := by gcongr
  have hlog := (Int.zpow_le_iff_le_log (b := 2) one_lt_two
    (lt_of_lt_of_le (by positivity) hx)).mp (by exact_mod_cast hx)
  rw [targetExponent_eq]
  unfold lastPlace
  omega

/-- A quotient is rounded once. -/
theorem div_eq_rounded (s t : Sign) {m n : ℕ} {e f : ℤ} (hm : 0 < m) (hn : 0 < n) :
    UnpackedFloat.div Format.binary64 (.finite s m e hm) (.finite t n f hn) =
      rounded (s / t) (m * 2 ^ e / (n * 2 ^ f)) := by
  have hplace := divisionExponent_le (e := e) (f := f) hm hn
  unfold UnpackedFloat.div UnpackedFloat.divCore
  dsimp only
  generalize Format.binary64.targetExponent (totalExponent m e - totalExponent n f) = p at hplace ⊢
  obtain ⟨k, hk⟩ := Int.eq_ofNat_of_zero_le (sub_nonneg.mpr (min_le_left (e - f) p))
  refine roundWithAccuracy_eq_rounded _ (by positivity) ?_ ((min_le_right _ _).trans hplace)
  rw [hk, Int.toNat_natCast, Nat.shiftLeft_eq]
  have hvalue : (m * 2 ^ e / (n * 2 ^ f) : ℚ) / 2 ^ min (e - f) p = (m * 2 ^ k : ℕ) / n := by
    rw [show min (e - f) p = e - f - k by omega, zpow_sub₀ two_ne_zero, zpow_sub₀ two_ne_zero,
      zpow_natCast]
    push_cast
    field_simp
  have hdiv : ((m * 2 ^ k : ℕ) : ℚ) / n - (m * 2 ^ k / n : ℕ) = (m * 2 ^ k % n : ℕ) / n := by
    have : ((m * 2 ^ k : ℕ) : ℚ) = n * (m * 2 ^ k / n : ℕ) + (m * 2 ^ k % n : ℕ) := by
      exact_mod_cast (Nat.div_add_mod _ _).symm
    rw [this]
    field_simp
    ring
  rw [hvalue, hdiv]
  exact locates_accuracyOfFraction (Nat.mod_lt _ hn)

/-! ### Values that need no rounding -/

theorem lastPlace_of_canonical {m : ℕ} {e : ℤ} (hm : 0 < m) (hc : Canonical m e) :
    lastPlace (m * 2 ^ e) = e := by
  have hlt := (Nat.log2_lt hm.ne').mpr hc.lt
  have hge := hc.ge
  unfold lastPlace
  rw [log_eq hm.ne' (locates_scaled m e)]
  rcases hc.normal with hn | hn
  · have := (Nat.le_log2 hm.ne').mpr hn
    omega
  · omega

/-- **A value that a machine number has is not changed** by rounding. -/
theorem rounded_of_canonical (s : Sign) {m : ℕ} {e : ℤ} (hm : 0 < m) (hc : Canonical m e) :
    rounded s (m * 2 ^ e) = .finite s m e hm := by
  unfold rounded
  rw [lastPlace_of_canonical hm hc, mul_div_cancel_right₀ _ (by positivity), nearestEven_natCast,
    Int.toNat_natCast]
  simp only [dif_neg hm.ne', if_pos hc.lt]

end Binary64
end PenPlotter
