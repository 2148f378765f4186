import Mathlib
import PenPlotter.Proofs.Binary64.Parts

/-!
# Machine numbers up to the sign of zero

Two machine numbers are *the same number* if they compare as equal, so that the
two zeros are one number, or if neither is a number at all.  Sums, differences
and products of the same numbers are the same numbers, and a change of sign goes
through them.  A quotient can tell the two zeros apart, so there is no such rule
for quotients.

## Main definitions

* `SameNumber x y` — the numbers agree, the sign of zero not counting.

## Main results

* `sameNumber_iff` — the same by parts: equal, or zeros.
* `SameNumber.add`, `SameNumber.sub`, `SameNumber.mul` — arithmetic respects it.
* `neg_mul_eq`, `sameNumber_neg_add` — a change of sign goes through arithmetic.
-/

namespace PenPlotter
namespace Binary64

open Float.Model
open Float.Model.UnpackedFloat (Sign)

/-- The two machine numbers agree as numbers: the sign of zero does not count, and
what is no number agrees with what is no number. -/
def SameNumber (x y : Float) : Prop := (x == y) = true ∨ x.isNaN = true ∧ y.isNaN = true

/-! ### The relation on parts -/

/-- Equal parts, or the parts of two zeros. -/
inductive SameParts : UnpackedFloat → UnpackedFloat → Prop
  | refl (u : UnpackedFloat) : SameParts u u
  | zero (s t : Sign) : SameParts (.zero s) (.zero t)

theorem sameNumber_iff (x y : Float) : SameNumber x y ↔ SameParts (parts x) (parts y) := by
  unfold SameNumber
  rw [beq_eq, isNaN_eq, isNaN_eq, UnpackedFloat.isNaN_iff, UnpackedFloat.isNaN_iff,
    UnpackedFloat.beq_iff_ne_notANumber_and_eq]
  constructor
  · rintro (⟨-, -, h | ⟨hx, hy⟩ | ⟨hx, hy⟩⟩ | ⟨hx, hy⟩)
    · rw [h]; exact .refl _
    · rw [hx, hy]; exact .zero _ _
    · rw [hx, hy]; exact .zero _ _
    · rw [hx, hy]; exact .refl _
  · generalize parts x = u, parts y = v
    rintro (_ | ⟨s, t⟩)
    · by_cases h : u = .notANumber
      · exact .inr ⟨h, h⟩
      · exact .inl ⟨h, h, .inl rfl⟩
    · cases s <;> cases t <;> simp

theorem sameNumber_ofParts {u v : UnpackedFloat} (h : SameParts u v) :
    SameNumber (ofParts u) (ofParts v) := by
  rw [sameNumber_iff]
  cases h with
  | refl => exact .refl _
  | zero s t => cases s <;> cases t <;> exact .zero _ _

theorem SameParts.symm {u v : UnpackedFloat} (h : SameParts u v) : SameParts v u := by
  cases h <;> constructor

theorem SameParts.trans {u v w : UnpackedFloat} (huv : SameParts u v) (hvw : SameParts v w) :
    SameParts u w := by
  cases huv <;> cases hvw <;> constructor

theorem SameParts.add {u u' v v' : UnpackedFloat} (hu : SameParts u u') (hv : SameParts v v') :
    SameParts (UnpackedFloat.add Format.binary64 u v) (UnpackedFloat.add Format.binary64 u' v') := by
  -- a zero that is added to a zero, or to anything else: only the sign of a zero can differ
  cases hu with
  | refl =>
    cases hv with
    | refl => exact .refl _
    | zero s t => cases u <;> simp only [UnpackedFloat.add] <;> (try split_ifs) <;> constructor
  | zero s t =>
    cases hv with
    | refl => cases v <;> simp only [UnpackedFloat.add] <;> (try split_ifs) <;> constructor
    | zero s' t' => simp only [UnpackedFloat.add]; split_ifs <;> constructor

theorem SameParts.mul {u u' v v' : UnpackedFloat} (hu : SameParts u u') (hv : SameParts v v') :
    SameParts (UnpackedFloat.mul Format.binary64 u v) (UnpackedFloat.mul Format.binary64 u' v') := by
  cases hu with
  | refl =>
    cases hv with
    | refl => exact .refl _
    | zero s t => cases u <;> constructor
  | zero s t =>
    cases hv with
    | refl => cases v <;> constructor
    | zero s' t' => constructor

theorem SameParts.div_left {u u' : UnpackedFloat} (h : SameParts u u') (v : UnpackedFloat) :
    SameParts (UnpackedFloat.div Format.binary64 u v) (UnpackedFloat.div Format.binary64 u' v) := by
  cases h with
  | refl => exact .refl _
  | zero s t => cases v <;> constructor

theorem SameParts.neg {u v : UnpackedFloat} (h : SameParts u v) : SameParts u.neg v.neg := by
  cases h <;> constructor

theorem SameParts.abs_eq {u v : UnpackedFloat} (h : SameParts u v) : u.abs = v.abs := by
  cases h <;> rfl

theorem SameParts.isNaN_eq {u v : UnpackedFloat} (h : SameParts u v) : u.isNaN = v.isNaN := by
  cases h <;> rfl

theorem SameParts.compare_eq {u u' v v' : UnpackedFloat} (hu : SameParts u u') (hv : SameParts v v') :
    u.compare v = u'.compare v' := by
  cases hu with
  | refl =>
    cases hv with
    | refl => rfl
    | zero s t =>
      cases u with
      | infinity r => cases r <;> rfl
      | finite r m e hm => cases r <;> rfl
      | _ => rfl
  | zero s t =>
    cases hv with
    | refl =>
      cases v with
      | infinity r => cases r <;> rfl
      | finite r m e hm => cases r <;> rfl
      | _ => rfl
    | zero s' t' => rfl

/-! ### The relation on numbers -/

@[simp] theorem SameNumber.refl (x : Float) : SameNumber x x := by
  rw [sameNumber_iff]
  exact .refl _

theorem SameNumber.symm {x y : Float} (h : SameNumber x y) : SameNumber y x := by
  rw [sameNumber_iff] at *
  exact h.symm

theorem SameNumber.trans {x y z : Float} (hxy : SameNumber x y) (hyz : SameNumber y z) :
    SameNumber x z := by
  rw [sameNumber_iff] at *
  exact hxy.trans hyz

theorem SameNumber.neg {x y : Float} (h : SameNumber x y) : SameNumber (-x) (-y) := by
  rw [sameNumber_iff] at *
  rw [parts_neg, parts_neg]
  exact h.neg

theorem SameNumber.add {x x' y y' : Float} (hx : SameNumber x x') (hy : SameNumber y y') :
    SameNumber (x + y) (x' + y') := by
  rw [sameNumber_iff] at hx hy
  exact sameNumber_ofParts (hx.add hy)

theorem SameNumber.mul {x x' y y' : Float} (hx : SameNumber x x') (hy : SameNumber y y') :
    SameNumber (x * y) (x' * y') := by
  rw [sameNumber_iff] at hx hy
  exact sameNumber_ofParts (hx.mul hy)

/-- An order does not show the sign of zero. -/
theorem SameNumber.lt_iff {x x' y y' : Float} (hx : SameNumber x x') (hy : SameNumber y y') :
    x < y ↔ x' < y' := by
  rw [sameNumber_iff] at hx hy
  rw [Binary64.lt_iff, Binary64.lt_iff, UnpackedFloat.lt, UnpackedFloat.lt, hx.compare_eq hy]

theorem SameNumber.isNaN_eq {x x' : Float} (h : SameNumber x x') : x.isNaN = x'.isNaN := by
  rw [sameNumber_iff] at h
  rw [Binary64.isNaN_eq, Binary64.isNaN_eq, h.isNaN_eq]

/-- A distance from zero does not show the sign of zero. -/
theorem SameNumber.abs_eq {x y : Float} (h : SameNumber x y) : x.abs = y.abs := by
  rw [sameNumber_iff] at h
  rw [Binary64.abs_eq, Binary64.abs_eq, h.abs_eq]

/-! ### A change of sign -/

theorem neg_mul_sign (s t : Sign) : -s * t = -(s * t) := by cases s <;> cases t <;> rfl

theorem neg_roundWithAccuracy (f : Format) (s : Sign) (m : ℕ) (e : ℤ) (a : UnpackedFloat.Accuracy) :
    UnpackedFloat.roundWithAccuracy f (-s) m e a =
      (UnpackedFloat.roundWithAccuracy f s m e a).neg := by
  unfold UnpackedFloat.roundWithAccuracy
  dsimp only
  split_ifs <;> rfl

/-- A sum that cancels is the positive zero whatever the signs; every other sum
changes its sign with its operands. -/
theorem sameParts_normalize_neg (f : Format) (n : ℤ) (e : ℤ) :
    SameParts (UnpackedFloat.normalize f (-n) e .positive)
      (UnpackedFloat.normalize f n e .positive).neg := by
  unfold UnpackedFloat.normalize
  rcases lt_trichotomy n 0 with h | h | h
  · have hneg : 0 < -n := by omega
    rw [Int.compare_eq_gt.mpr hneg, Int.compare_eq_lt.mpr h]
    unfold UnpackedFloat.round
    rw [← neg_roundWithAccuracy]
    exact .refl _
  · -- a sum that cancels is the positive zero on both sides
    subst h
    exact .zero _ _
  · have hneg : -n < 0 := by omega
    rw [Int.compare_eq_lt.mpr hneg, Int.compare_eq_gt.mpr h, neg_neg]
    unfold UnpackedFloat.round
    rw [← neg_roundWithAccuracy]
    exact .refl _

theorem neg_apply_sign (s : Sign) (n : ℤ) : (-s).apply n = -s.apply n := by
  cases s
  · exact (neg_neg n).symm
  · rfl

theorem sameParts_neg_add (u v : UnpackedFloat) :
    SameParts (UnpackedFloat.add Format.binary64 u.neg v.neg)
      (UnpackedFloat.add Format.binary64 u v).neg := by
  cases u with
  | notANumber => exact .refl _
  | infinity s =>
    cases v with
    | infinity t => cases s <;> cases t <;> exact .refl _
    | _ => exact .refl _
  | zero s =>
    cases v with
    | zero t => cases s <;> cases t <;> constructor
    | _ => exact .refl _
  | finite s m e hm =>
    cases v with
    | finite t n f hn =>
      simp only [UnpackedFloat.neg, UnpackedFloat.add, neg_apply_sign, ← neg_add]
      exact sameParts_normalize_neg _ _ _
    | _ => exact .refl _

theorem neg_mul_parts (u v : UnpackedFloat) :
    UnpackedFloat.mul Format.binary64 u.neg v = (UnpackedFloat.mul Format.binary64 u v).neg := by
  cases u <;> cases v <;>
    simp only [UnpackedFloat.neg, UnpackedFloat.mul, neg_mul_sign, neg_roundWithAccuracy]

/-- **A change of sign goes through a product**, also of zeros. -/
theorem neg_mul_eq (x y : Float) : -x * y = -(x * y) := by
  rw [mul_eq, mul_eq, parts_neg, neg_mul_parts, ofParts_neg]

/-- **A change of sign goes through a sum**, up to the sign of zero. -/
theorem sameNumber_neg_add (x y : Float) : SameNumber (-x + -y) (-(x + y)) := by
  rw [add_eq, add_eq, parts_neg, parts_neg, ← ofParts_neg]
  exact sameNumber_ofParts (sameParts_neg_add _ _)

theorem sub_parts_eq_add (u v : UnpackedFloat) :
    UnpackedFloat.sub Format.binary64 u v = UnpackedFloat.add Format.binary64 u v.neg := by
  cases u with
  | finite s m e hm =>
    cases v with
    | finite t n f hn =>
      simp only [UnpackedFloat.neg, UnpackedFloat.sub, UnpackedFloat.add, neg_apply_sign,
        sub_eq_add_neg]
    | _ => rfl
  | _ => cases v <;> rfl

theorem sub_eq_add (x y : Float) : x - y = x + -y := by
  rw [sub_eq, add_eq, parts_neg, sub_parts_eq_add]

theorem SameNumber.sub {x x' y y' : Float} (hx : SameNumber x x') (hy : SameNumber y y') :
    SameNumber (x - y) (x' - y') := by
  rw [sub_eq_add, sub_eq_add]
  exact hx.add hy.neg

/-- A quotient does not show the sign of a zero above the line, up to its own sign. -/
theorem SameNumber.div_left {x x' : Float} (h : SameNumber x x') (y : Float) :
    SameNumber (x / y) (x' / y) := by
  rw [sameNumber_iff] at h
  exact sameNumber_ofParts (h.div_left _)

theorem neg_div_sign (s t : Sign) : -s / -t = s / t := by cases s <;> cases t <;> rfl

/-- A change of both signs does not change a quotient. -/
theorem neg_div_neg_eq (x y : Float) : -x / -y = x / y := by
  rw [div_eq, div_eq, parts_neg, parts_neg]
  congr 1
  cases parts x <;> cases parts y <;>
    simp only [UnpackedFloat.neg, UnpackedFloat.div, neg_div_sign]

theorem sub_zero_eq (x : Float) : x - 0 = x := by
  have hparts : UnpackedFloat.sub Format.binary64 (parts x) (.zero .positive) = parts x := by
    cases parts x with
    | zero s => cases s <;> rfl
    | _ => rfl
  rw [sub_eq, show parts 0 = .zero .positive from rfl, hparts, ofParts_parts]

/-- Taken from zero, a number changes its sign; only a zero may keep it. -/
theorem sameNumber_zero_sub (x : Float) : SameNumber (0 - x) (-x) := by
  rw [sub_eq, neg_eq]
  refine sameNumber_ofParts ?_
  rw [show parts 0 = .zero .positive from rfl]
  cases parts x with
  | zero s => cases s <;> constructor
  | _ => exact .refl _

/-- A finite number minus itself is the positive zero, whatever its sign. -/
theorem sub_self_of_isFinite {x : Float} (h : x.isFinite = true) : x - x = 0 := by
  have hparts : UnpackedFloat.sub Format.binary64 (parts x) (parts x) = .zero .positive := by
    rcases parts_of_isFinite h with ⟨s, hu⟩ | ⟨s, m, e, hm, hu⟩
    · rw [hu]
      cases s <;> rfl
    · rw [hu]
      unfold UnpackedFloat.sub UnpackedFloat.normalize
      dsimp only
      rw [sub_self]
      rfl
  rw [sub_eq, hparts]
  rfl

/-- A number that compares as equal to zero is one of the two zeros. -/
theorem sameNumber_zero_iff (x : Float) : SameNumber x 0 ↔ (x == 0) = true := by
  constructor
  · rintro (h | ⟨-, h⟩)
    · exact h
    · exact absurd h (by decide)
  · exact .inl

theorem neg_neg_sign (s : Sign) : - -s = s := by cases s <;> rfl

/-- Two changes of sign leave a number, also a zero. -/
theorem neg_neg_eq (x : Float) : - -x = x := by
  have hparts : (parts x).neg.neg = parts x := by
    cases parts x <;> simp [UnpackedFloat.neg, neg_neg_sign]
  rw [neg_eq, parts_neg, hparts, ofParts_parts]

/-- A change of sign makes no zero, and leaves none either. -/
theorem neg_beq_zero (x : Float) : (-x == 0) = (x == 0) := by
  have hzero : SameNumber (-0) 0 := .inl (by decide)
  rw [Bool.eq_iff_iff, ← sameNumber_zero_iff, ← sameNumber_zero_iff]
  constructor
  · intro h
    rw [← neg_neg_eq x]
    exact h.neg.trans hzero
  · intro h
    exact h.neg.trans hzero

/-- A change of sign does not change a distance from zero. -/
theorem abs_neg_eq (x : Float) : (-x).abs = x.abs := by
  rw [abs_eq, abs_eq, parts_neg]
  cases parts x <;> rfl

end Binary64
end PenPlotter
