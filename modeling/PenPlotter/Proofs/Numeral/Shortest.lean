import Mathlib
import PenPlotter.Proofs.Numeral.ReadBack
import PenPlotter.Proofs.Numeral.ShortestDecimal

/-!
# Numbers are written as their shortest numerals

The digits of a number are searched on grids of multiples of a power of ten, the coarsest
one first.  On a grid it is enough to try the two neighbours of the number.  The first grid
is so coarse that nothing of a coarser one is read, and the last one is so fine that a
neighbour is read on it for certain.

## Main definitions

* `Magnitude.below`, `Magnitude.above` — the neighbours of a magnitude on a grid.
* `Numeral.IsShortest` — the shortest numeral of a number.

## Main results

* `closest_of_onGrid?`, `not_reads_of_onGrid?` — what trying the neighbours finds.
* `shortest_coarsest` — the search finds what is nearest on the coarsest grid.
* `Numeral.IsShortest.unique` — there is one shortest numeral of a number.
* `write_isShortest` — **a finite number is written as its shortest numeral.**
-/

namespace PenPlotter

open Binary64 Float.Model
open Float.Model.UnpackedFloat (Sign)

/-! ### Ties -/

theorem Ties.roundsUp_up (quotient remainder denominator : ℕ) :
    Ties.up.roundsUp quotient remainder denominator = decide (denominator ≤ 2 * remainder) := by
  unfold Ties.roundsUp
  rcases lt_trichotomy (2 * remainder) denominator with h | h | h
  · rw [Nat.compare_eq_lt.mpr h]
    simpa using h
  · rw [Nat.compare_eq_eq.mpr h]
    simpa using h.ge
  · rw [Nat.compare_eq_gt.mpr h]
    simpa using h.le

theorem zpow_eq_div (b : ℚ) (hb : b ≠ 0) (k : ℤ) : b ^ k = b ^ k.toNat / b ^ (-k).toNat := by
  rw [eq_div_iff (by positivity), ← zpow_natCast, ← zpow_natCast, ← zpow_add₀ hb]
  congr 1
  omega

namespace Magnitude

/-- The exact value of a magnitude. -/
def value (x : Magnitude) : ℚ := x.mantissa * 2 ^ x.exponent

/-- The multiple of a power of ten below a magnitude, or equal to it. -/
def below (x : Magnitude) (e : ℤ) : Decimal := ⟨(x.ratio e).1 / (x.ratio e).2, e⟩

/-- The multiple of a power of ten above a magnitude. -/
def above (x : Magnitude) (e : ℤ) : Decimal := ⟨(x.ratio e).1 / (x.ratio e).2 + 1, e⟩

section Grid

variable (x : Magnitude) (e : ℤ)

theorem ratio_pos : 0 < (x.ratio e).2 := by
  show 0 < 2 ^ (-x.exponent).toNat * 10 ^ e.toNat
  positivity

/-- A magnitude in terms of a power of ten: a quotient and a part of one. -/
theorem value_eq_ratio : x.value = (((x.ratio e).1 / (x.ratio e).2 : ℕ) +
    ((x.ratio e).1 % (x.ratio e).2 : ℕ) / ((x.ratio e).2 : ℚ)) * 10 ^ e := by
  have hden : ((x.ratio e).2 : ℚ) ≠ 0 := by exact_mod_cast (x.ratio_pos e).ne'
  have hdivision : ((x.ratio e).1 : ℚ) =
      (x.ratio e).2 * ((x.ratio e).1 / (x.ratio e).2 : ℕ) + ((x.ratio e).1 % (x.ratio e).2 : ℕ) := by
    exact_mod_cast (Nat.div_add_mod _ _).symm
  have hratio : x.value = (x.ratio e).1 / (x.ratio e).2 * 10 ^ e := by
    show (x.mantissa : ℚ) * 2 ^ x.exponent =
      ((x.mantissa * 2 ^ x.exponent.toNat * 10 ^ (-e).toNat : ℕ) : ℚ) /
        ((2 ^ (-x.exponent).toNat * 10 ^ e.toNat : ℕ) : ℚ) * 10 ^ e
    rw [zpow_eq_div 2 two_ne_zero, zpow_eq_div 10 (by norm_num)]
    push_cast
    field_simp
  rw [hratio, hdivision]
  field_simp

theorem below_le : (x.below e).value ≤ x.value := by
  rw [x.value_eq_ratio e, below, Decimal.value]
  gcongr
  exact le_add_of_nonneg_right (by positivity)

theorem lt_above : x.value < (x.above e).value := by
  have hlt : (((x.ratio e).1 % (x.ratio e).2 : ℕ) : ℚ) / ((x.ratio e).2 : ℚ) < 1 := by
    have hpos := x.ratio_pos e
    rw [div_lt_one (by exact_mod_cast hpos)]
    exact_mod_cast Nat.mod_lt _ hpos
  rw [x.value_eq_ratio e, above, Decimal.value, Nat.cast_add, Nat.cast_one]
  gcongr

theorem above_eq : (x.above e).value = (x.below e).value + 10 ^ e := by
  simp [above, below, Decimal.value, add_mul]

/-- Whether a magnitude goes to its upper neighbour on a grid. -/
def GoesUp : Prop := Ties.up.roundsUp ((x.ratio e).1 / (x.ratio e).2)
  ((x.ratio e).1 % (x.ratio e).2) (x.ratio e).2 = true

theorem goesUp_iff :
    x.GoesUp e ↔ (x.above e).value - x.value ≤ x.value - (x.below e).value := by
  have hden : (0 : ℚ) < (x.ratio e).2 := by exact_mod_cast x.ratio_pos e
  have hunit : (0 : ℚ) < 10 ^ e := by positivity
  have hpart : x.value - (x.below e).value =
      ((x.ratio e).1 % (x.ratio e).2 : ℕ) / ((x.ratio e).2 : ℚ) * 10 ^ e := by
    rw [x.value_eq_ratio e, below, Decimal.value]
    ring
  rw [GoesUp, Ties.roundsUp_up, decide_eq_true_iff, above_eq, add_sub_right_comm, ← neg_sub, hpart,
    neg_add_le_iff_le_add, ← add_mul, le_mul_iff_one_le_left hunit, ← add_div, one_le_div hden]
  norm_cast
  omega

/-- The upper neighbour is taken if it is not farther away. -/
theorem above_nearer (h : x.GoesUp e) : Nearer x.value (x.above e).value (x.below e).value := by
  have hle := x.below_le e
  have hlt := x.lt_above e
  rw [goesUp_iff] at h
  unfold Nearer
  rw [abs_of_pos (by linarith), abs_of_nonpos (by linarith)]
  rcases h.lt_or_eq with h | h
  · exact .inl (by linarith)
  · exact .inr ⟨by linarith, by linarith⟩

/-- The lower neighbour is taken if it is nearer. -/
theorem below_nearer (h : ¬ x.GoesUp e) : Nearer x.value (x.below e).value (x.above e).value := by
  have hle := x.below_le e
  have hlt := x.lt_above e
  rw [goesUp_iff, not_le] at h
  left
  rw [abs_of_nonpos (by linarith), abs_of_pos (by linarith)]
  linarith

end Grid

/-- What is read on a grid lies beyond a neighbour that is read. -/
theorem neighbour_reads {x : Magnitude} (hself : Reads x.value x.value) {e : ℤ} {n : ℕ}
    (h : Reads x.value (n * 10 ^ e)) :
    (n * 10 ^ e ≤ (x.below e).value ∧ Reads x.value (x.below e).value) ∨
      ((x.above e).value ≤ n * 10 ^ e ∧ Reads x.value (x.above e).value) := by
  rcases le_or_gt n (x.below e).coefficient with hle | hlt
  · have hbelow : (n : ℚ) * 10 ^ e ≤ (x.below e).value := by
      unfold Decimal.value
      exact mul_le_mul_of_nonneg_right (by exact_mod_cast hle) (by positivity)
    exact .inl ⟨hbelow, h.between hself hbelow (x.below_le e)⟩
  · have habove : (x.above e).value ≤ n * 10 ^ e := by
      unfold Decimal.value
      exact mul_le_mul_of_nonneg_right (by exact_mod_cast hlt) (by positivity)
    exact .inr ⟨habove, hself.between h (x.lt_above e).le habove⟩

theorem onGrid?_eq (ties : Ties) (x : Magnitude) (reads : Decimal → Bool) (e : ℤ) :
    x.onGrid? ties reads e = match reads (x.below e), reads (x.above e) with
      | true, true =>
        some (if ties.roundsUp ((x.ratio e).1 / (x.ratio e).2)
          ((x.ratio e).1 % (x.ratio e).2) (x.ratio e).2 then x.above e else x.below e)
      | true, false => some (x.below e)
      | false, true => some (x.above e)
      | false, false => none := rfl

section Search

variable {x : Magnitude} {reads : Decimal → Bool} {e : ℤ}
  (hreads : ∀ d, reads d = true ↔ Reads x.value d.value) (hself : Reads x.value x.value)

include hreads hself

/-- A grid without a neighbour that is read has nothing that is read. -/
theorem not_reads_of_onGrid? (h : x.onGrid? .up reads e = none) (n : ℕ) :
    ¬ Reads x.value (n * 10 ^ e) := by
  intro hn
  rw [onGrid?_eq] at h
  split at h <;> try cases h
  next hbelow habove =>
    rcases neighbour_reads hself hn with ⟨-, hread⟩ | ⟨-, hread⟩
    · simp [(hreads _).mpr hread] at hbelow
    · simp [(hreads _).mpr hread] at habove

/-- What is found on a grid is nearest of what is read there. -/
theorem closest_of_onGrid? {d : Decimal} (h : x.onGrid? .up reads e = some d) (n : ℕ)
    (hn : Reads x.value (n * 10 ^ e)) : Nearer x.value d.value (n * 10 ^ e) := by
  have hle := x.below_le e
  have hlt := x.lt_above e
  have hneighbour := neighbour_reads hself hn
  rw [onGrid?_eq] at h
  split at h
  · -- both neighbours are read, and the nearer one is taken
    cases h
    split_ifs with hup
    · rcases hneighbour with ⟨hn, -⟩ | ⟨hn, -⟩
      · exact (x.above_nearer e hup).trans (nearer_below hn hle)
      · exact nearer_above hlt.le hn
    · rcases hneighbour with ⟨hn, -⟩ | ⟨hn, -⟩
      · exact nearer_below hn hle
      · exact (x.below_nearer e hup).trans (nearer_above hlt.le hn)
  · next habove =>
    cases h
    rcases hneighbour with ⟨hn, -⟩ | ⟨-, hread⟩
    · exact nearer_below hn hle
    · simp [(hreads _).mpr hread] at habove
  · next hbelow _ =>
    cases h
    rcases hneighbour with ⟨-, hread⟩ | ⟨hn, -⟩
    · simp [(hreads _).mpr hread] at hbelow
    · exact nearer_above hlt.le hn
  · cases h

end Search

/-! ### All grids -/

/-- What is found was found on one of the grids, and nothing was on the grid before it. -/
theorem exists_grid {ties : Ties} {x : Magnitude} {reads : Decimal → Bool} {count : ℕ} {e : ℤ}
    {d : Decimal} (h : x.onGrids? ties reads count e = some d) :
    x.onGrid? ties reads d.exponent = some d ∧
      (d.exponent = e ∨ x.onGrid? ties reads (d.exponent + 1) = none) := by
  induction count generalizing e with
  | zero => cases h
  | succ count ih =>
    unfold onGrids? at h
    cases hgrid : x.onGrid? ties reads e with
    | some d' =>
      rw [hgrid] at h
      cases h
      obtain ⟨-, rfl⟩ := onGrid?_reads hgrid
      exact ⟨hgrid, .inl rfl⟩
    | none =>
      rw [hgrid] at h
      obtain ⟨hfound, hbefore⟩ := ih h
      refine ⟨hfound, .inr ?_⟩
      rcases hbefore with hbefore | hbefore
      · rwa [hbefore, sub_add_cancel]
      · exact hbefore

/-- If nothing is found, the last of the grids has nothing. -/
theorem onGrid?_last {ties : Ties} {x : Magnitude} {reads : Decimal → Bool} {count : ℕ} {e : ℤ}
    (h : x.onGrids? ties reads (count + 1) e = none) :
    x.onGrid? ties reads (e - count) = none := by
  induction count generalizing e with
  | zero =>
    unfold onGrids? at h
    cases hgrid : x.onGrid? ties reads e with
    | some d => rw [hgrid] at h; cases h
    | none => simpa using hgrid
  | succ count ih =>
    unfold onGrids? at h
    cases hgrid : x.onGrid? ties reads e with
    | some d => rw [hgrid] at h; cases h
    | none =>
      rw [hgrid] at h
      have hlast := ih h
      rwa [sub_sub, add_comm, ← Nat.cast_add_one] at hlast

/-! ### Powers of two and of ten -/

/-- A power of ten is above a power of two if their exponents are, with some room to
spare. -/
theorem two_zpow_le_ten_zpow {a b : ℤ} (hpos : 28 * a ≤ 93 * b) (hneg : 59 * a ≤ 196 * b) :
    (2 : ℚ) ^ a ≤ 10 ^ b := by
  have hten : (1 : ℚ) ≤ 10 := by norm_num
  rcases le_or_gt 0 a with h | h
  · rw [← pow_le_pow_iff_left₀ (by positivity) (by positivity) (by norm_num : 93 ≠ 0)]
    calc ((2 : ℚ) ^ a) ^ 93 = (2 ^ 93) ^ a := by
          rw [← zpow_natCast, ← zpow_natCast, ← zpow_mul, ← zpow_mul, mul_comm]
      _ ≤ (10 ^ 28) ^ a := zpow_le_zpow_left₀ h (by norm_num) (by norm_num)
      _ = 10 ^ (28 * a) := by rw [← zpow_natCast, ← zpow_mul]; rfl
      _ ≤ 10 ^ (93 * b) := zpow_le_zpow_right₀ hten hpos
      _ = (10 ^ b) ^ 93 := by rw [← zpow_natCast, ← zpow_mul, mul_comm]; rfl
  · obtain ⟨n, rfl⟩ : ∃ n : ℕ, a = -n := ⟨a.natAbs, by omega⟩
    rw [← pow_le_pow_iff_left₀ (by positivity) (by positivity) (by norm_num : 196 ≠ 0)]
    calc ((2 : ℚ) ^ (-n : ℤ)) ^ 196 = ((2 ^ 196) ^ n)⁻¹ := by
          rw [zpow_neg, zpow_natCast, inv_pow, ← pow_mul, ← pow_mul, mul_comm]
      _ ≤ ((10 ^ 59) ^ n)⁻¹ := by
          gcongr
          norm_num
      _ = 10 ^ (59 * -n : ℤ) := by
          rw [← pow_mul, ← zpow_natCast, ← zpow_neg]
          push_cast
          rw [mul_neg]
      _ ≤ 10 ^ (196 * b) := zpow_le_zpow_right₀ hten hneg
      _ = (10 ^ b) ^ 196 := by rw [← zpow_natCast, ← zpow_mul, mul_comm]; rfl

theorem ten_zpow_le_two_zpow {a b : ℤ} (hpos : 93 * a ≤ 28 * b) (hneg : 196 * a ≤ 59 * b) :
    (10 : ℚ) ^ a ≤ 2 ^ b := by
  have hinv := two_zpow_le_ten_zpow (a := -b) (b := -a) (by omega) (by omega)
  rw [zpow_neg, zpow_neg] at hinv
  exact (inv_le_inv₀ (by positivity) (by positivity)).mp hinv

section Canonical

variable {m : ℕ} {k : ℤ}

theorem decimalBound_eq : decimalBound ⟨m, k⟩ = ((m.log2 : ℤ) + 1 + k) * 30103 / 100000 + 2 := rfl

/-- The first grid is so coarse that nothing of a coarser one is read. -/
theorem not_reads_of_decimalBound (hm : 0 < m) (hc : Canonical m k) (n : ℕ) :
    ¬ Reads (m * 2 ^ k) (n * 10 ^ (decimalBound ⟨m, k⟩ + 1)) := by
  intro h
  have hlog := (Nat.log2_lt hm.ne').mpr hc.lt
  have hge := hc.ge
  have hle := hc.le
  have hbound : (2 : ℚ) ^ ((m.log2 : ℤ) + 1 + k) ≤ 10 ^ decimalBound ⟨m, k⟩ := by
    rw [decimalBound_eq]
    exact two_zpow_le_ten_zpow (by omega) (by omega)
  have hvalue : (m : ℚ) * 2 ^ k < 2 ^ ((m.log2 : ℤ) + 1 + k) := by
    have hm' : (m : ℚ) < 2 ^ ((m.log2 : ℤ) + 1) := by exact_mod_cast Nat.lt_log2_self
    rw [zpow_add₀ two_ne_zero]
    gcongr
  have hpos : (0 : ℚ) < n * 10 ^ (decimalBound ⟨m, k⟩ + 1) := h.pos (by positivity)
  have hn : (1 : ℚ) ≤ n := by
    have hn : n ≠ 0 := by
      rintro rfl
      simp at hpos
    exact_mod_cast Nat.one_le_iff_ne_zero.mpr hn
  -- a multiple of the next power of ten is more than twice the number
  have hfar : 10 * (m * 2 ^ k : ℚ) ≤ n * 10 ^ (decimalBound ⟨m, k⟩ + 1) :=
    calc 10 * (m * 2 ^ k : ℚ) ≤ 1 * (10 ^ decimalBound ⟨m, k⟩ * 10) := by linarith
      _ ≤ n * (10 ^ decimalBound ⟨m, k⟩ * 10) := by gcongr
      _ = n * 10 ^ (decimalBound ⟨m, k⟩ + 1) := by rw [zpow_add_one₀ (by norm_num)]
  obtain ⟨-, hnear⟩ := abs_le.mp (h.abs_sub_le hm hc)
  have hunit : (2 : ℚ) ^ k ≤ m * 2 ^ k := by
    have hone : (1 : ℚ) ≤ m := by exact_mod_cast hm
    exact le_mul_of_one_le_left (by positivity) hone
  have hv : (0 : ℚ) < m * 2 ^ k := by positivity
  linarith

/-- The last grid is so fine that the multiple above the number is read. -/
theorem above_reads (hm : 0 < m) (hc : Canonical m k) :
    Reads (m * 2 ^ k) (above ⟨m, k⟩ (decimalBound ⟨m, k⟩ - 21)).value := by
  have hlog := (Nat.log2_lt hm.ne').mpr hc.lt
  have hge := hc.ge
  have hle := hc.le
  have hunit : (10 : ℚ) ^ (decimalBound ⟨m, k⟩ - 21) ≤ 2 ^ (k - 2) := by
    rw [decimalBound_eq]
    exact ten_zpow_le_two_zpow (by omega) (by omega)
  have hquarter : (2 : ℚ) ^ (k - 2) = 1 / 4 * 2 ^ k := by
    rw [zpow_sub₀ two_ne_zero]
    norm_num
    ring
  have hpos : (0 : ℚ) < 2 ^ k := by positivity
  have hbelow : (below ⟨m, k⟩ (decimalBound ⟨m, k⟩ - 21)).value ≤ m * 2 ^ k := below_le _ _
  refine reads_of_lt hm hc (lt_above ⟨m, k⟩ _).le ?_
  rw [above_eq]
  linarith

theorem value_positive (hm : 0 < m) (hc : Canonical m k) :
    (ofParts (.finite .positive m k hm)).isNaN = false ∧
      Binary64.value (ofParts (.finite .positive m k hm)) = m * 2 ^ k := by
  have hparts := parts_ofParts_finite .positive hm hc
  rw [value_of_finite hparts, isNaN_eq, hparts]
  exact ⟨rfl, by simp [Sign.apply]⟩

/-- **The search finds what is nearest on the coarsest grid.** -/
theorem shortest_coarsest (hm : 0 < m) (hc : Canonical m k) :
    Coarsest (m * 2 ^ k) (shortest .up ⟨m, k⟩) := by
  obtain ⟨hnan, hvalue⟩ := value_positive hm hc
  have hpos : (0 : ℚ) < m * 2 ^ k := by positivity
  have hreads : ∀ d : Decimal, decide (d.toFloat = (exact ⟨m, k⟩).toFloat) = true ↔
      Reads (value ⟨m, k⟩) d.value := by
    intro d
    rw [decide_eq_true_iff, exact_toFloat hm hc, toFloat_eq_iff hnan (hvalue ▸ hpos.ne'), hvalue]
    rfl
  have hself : Reads (value ⟨m, k⟩) (value ⟨m, k⟩) := reads_self hc
  unfold shortest
  rw [if_neg hm.ne']
  dsimp only
  cases hgrids : onGrids? .up ⟨m, k⟩ (fun d => d.toFloat = (exact ⟨m, k⟩).toFloat) 22
      (decimalBound ⟨m, k⟩) with
  | none =>
    have hnone := not_reads_of_onGrid? hreads hself (onGrid?_last hgrids)
    exact absurd (above_reads hm hc) (hnone _)
  | some d =>
    obtain ⟨hgrid, hbefore⟩ := exists_grid hgrids
    refine ⟨(hreads d).mp (onGrid?_reads hgrid).1, closest_of_onGrid? hreads hself hgrid, ?_⟩
    rcases hbefore with hfirst | hnone
    · rw [Option.getD_some, hfirst]
      exact not_reads_of_decimalBound hm hc
    · exact not_reads_of_onGrid? hreads hself hnone

/-- **The decimal that is found is the shortest one.** -/
theorem shortest_isShortest (hm : 0 < m) (hc : Canonical m k) :
    (shortest .up ⟨m, k⟩).IsShortest (ofParts (.finite .positive m k hm)) := by
  obtain ⟨hnan, hvalue⟩ := value_positive hm hc
  have hpos : (0 : ℚ) < m * 2 ^ k := by positivity
  refine ⟨(shortest_toFloat .up hm hc).1, ?_⟩
  intro d' hd'
  rw [toFloat_eq_iff hnan (hvalue ▸ hpos.ne')] at hd'
  rw [hvalue] at hd' ⊢
  exact (shortest_coarsest hm hc).best hm hc hd'

end Canonical

end Magnitude

/-! ### Numerals -/

namespace Numeral

/-- The shortest numeral of a number: the digits of the shortest decimal of its distance
from zero, behind a minus sign if the sign bit is set. -/
def IsShortest (x : Float) (t : Text) : Prop :=
  ∃ d : Decimal, d.IsShortest x.abs ∧ t = if isNegative x then '-' :: d.toText else d.toText

theorem value_abs_pos {x : Float} (hx : x.isFinite = true) (hzero : (x == 0) = false) :
    0 < Binary64.value x.abs := by
  have hne : Binary64.value x ≠ 0 := by
    intro h
    rw [← value_zero, ← beq_iff_value (isNaN_of_isFinite hx) rfl, hzero] at h
    cases h
  rw [value_abs]
  exact abs_pos.mpr hne

/-- There is one shortest numeral of a finite number other than zero. -/
theorem IsShortest.unique {x : Float} {t u : Text} (hx : x.isFinite = true)
    (hzero : (x == 0) = false) (ht : IsShortest x t) (hu : IsShortest x u) : t = u := by
  obtain ⟨d, hd, rfl⟩ := ht
  obtain ⟨d', hd', rfl⟩ := hu
  have hnan := (isNaN_abs x).trans (isNaN_of_isFinite hx)
  rw [hd.unique hnan (value_abs_pos hx hzero) hd']

/-- **A finite number other than zero is written as its shortest numeral.** -/
theorem write_isShortest {x : Float} (hx : x.isFinite = true) (hzero : (x == 0) = false) :
    IsShortest x (write x) := by
  rcases parts_of_isFinite hx with ⟨s, hu⟩ | ⟨s, m, e, hm, hu⟩
  · have hvalue := value_abs_pos hx hzero
    rw [value_abs, value_of_zero hu, abs_zero] at hvalue
    exact absurd hvalue (lt_irrefl 0)
  · refine ⟨(Magnitude.ofFloat x).shortest .up, ?_, write_of_isFinite hx⟩
    rw [ofFloat_of_finite hu, abs_eq, hu]
    exact Magnitude.shortest_isShortest hm (canonical_of_parts hu)

end Numeral
end PenPlotter
