import Mathlib
import PenPlotter.Numeral

/-!
# The parts of a machine number

A machine number is sixty-four bits.  Its arithmetic is done on its *parts*: a
sign, an integer mantissa and an exponent, or one of the special values.  Parts
that come from a number go back to the same number, and parts in canonical form
survive being packed into bits.

## Main definitions

* `parts`, `ofParts` — a number taken apart, and put together.
* `Canonical m e` — the mantissa and exponent that the parts of a number have.

## Main results

* `ofParts_parts`, `parts_ofParts_finite` — the two ways around.
* `parts_neg`, `ofParts_neg` — a change of sign is a change of the sign part.
* `ofFloat_of_finite`, `isNegative_of_finite` — bits that are read directly give
  the same parts.
-/

namespace PenPlotter
namespace Binary64

open Float.Model
open Float.Model.UnpackedFloat (Sign packComponents)

/-- The sign, the mantissa and the exponent of a machine number. -/
def parts (x : Float) : UnpackedFloat := x.toModel.unpack

/-- The machine number with the given parts. -/
def ofParts (u : UnpackedFloat) : Float := .ofModel (Float.Model.pack u)

/-- The mantissa and the exponent of a finite machine number other than zero:
fifty-three bits, all of them used unless the exponent is the least one. -/
structure Canonical (m : ℕ) (e : ℤ) : Prop where
  lt : m < 2 ^ 53
  ge : -1074 ≤ e
  le : e ≤ 971
  normal : 2 ^ 52 ≤ m ∨ e = -1074

/-! ### Operations by parts -/

theorem add_eq (x y : Float) :
    x + y = ofParts (UnpackedFloat.add Format.binary64 (parts x) (parts y)) := rfl

theorem sub_eq (x y : Float) :
    x - y = ofParts (UnpackedFloat.sub Format.binary64 (parts x) (parts y)) := rfl

theorem mul_eq (x y : Float) :
    x * y = ofParts (UnpackedFloat.mul Format.binary64 (parts x) (parts y)) := rfl

theorem div_eq (x y : Float) :
    x / y = ofParts (UnpackedFloat.div Format.binary64 (parts x) (parts y)) := rfl

theorem neg_eq (x : Float) : -x = ofParts (parts x).neg := rfl

theorem abs_eq (x : Float) : x.abs = ofParts (parts x).abs := rfl

theorem beq_eq (x y : Float) : (x == y) = (parts x).beq (parts y) := rfl

theorem lt_iff (x y : Float) : x < y ↔ (parts x).lt (parts y) = true := decide_eq_true_iff

theorem isFinite_eq (x : Float) : x.isFinite = (parts x).isFinite := rfl

theorem isNaN_eq (x : Float) : x.isNaN = (parts x).isNaN := rfl

theorem isInf_eq (x : Float) : x.isInf = (parts x).isInf := rfl

/-! ### Back and forth -/

@[simp] theorem ofParts_parts (x : Float) : ofParts (parts x) = x :=
  Float.toBits_inj.mp <| UInt64.toBitVec_inj.mp <|
    UnpackedFloat.pack_unpack_of_valid x.toModel.valid

theorem parts_injective : Function.Injective parts := by
  intro x y h
  rw [← ofParts_parts x, h, ofParts_parts]

/-- The parts that a sign bit, eleven bits of exponent and fifty-two bits of
fraction stand for. -/
theorem unpack_packComponents (s : Sign) (E : BitVec 11) (M : BitVec 52) :
    UnpackedFloat.unpack Format.binary64 (packComponents Format.binary64 s E M) =
      if E = -1#11 then if M = 0#52 then .infinity s else .notANumber
      else if E = 0#11 then
        if h : 0 < M.toNat then .finite s M.toNat (-1074) h else .zero s
      else .finite s (2 ^ 52 + M.toNat) (E.toNat - 1075) (by omega) := by
  have hM : (1#1 ++ M).toNat = 2 ^ 52 + M.toNat := by
    rw [BitVec.toNat_append, ← Nat.shiftLeft_add_eq_or_of_lt M.isLt]
    rfl
  have hz : M = 0#52 ↔ ¬ 0 < M.toNat := by
    rw [Nat.not_lt, Nat.le_zero, ← BitVec.toNat_inj]
    rfl
  unfold UnpackedFloat.unpack
  simp only [UnpackedFloat.unpackMantissa_packComponents,
    UnpackedFloat.unpackExponent_packComponents, UnpackedFloat.unpackSign_packComponents,
    Sign.ofBitVec_toBitVec, hM]
  split
  · rfl
  · split
    · -- the least exponent: no leading bit is put in front of the fraction
      next h =>
      subst h
      by_cases hp : 0 < M.toNat
      · simp [hz, hp]
        rfl
      · simp [hz, hp]
    · rfl

/-- The bits of a machine number are a sign, an exponent and a fraction. -/
theorem exists_packComponents (x : Float) : ∃ (s : Sign) (E : BitVec 11) (M : BitVec 52),
    x.toModel.toBits.toBitVec = packComponents Format.binary64 s E M :=
  ⟨_, _, _, (@UnpackedFloat.packComponents_unpackSign_unpackExponent_unpackMantissa
    Format.binary64 _).symm⟩

theorem parts_eq_unpack {x : Float} {s : Sign} {E : BitVec 11} {M : BitVec 52}
    (h : x.toModel.toBits.toBitVec = packComponents Format.binary64 s E M) :
    parts x = UnpackedFloat.unpack Format.binary64 (packComponents Format.binary64 s E M) := by
  rw [← h]
  rfl

/-- What the bits of a finite number other than zero are: either the exponent bits
are zero, and the fraction is the mantissa, or the mantissa has a leading bit in
front of the fraction. -/
theorem exists_components_of_finite {x : Float} {s : Sign} {m : ℕ} {e : ℤ} {hm : 0 < m}
    (h : parts x = .finite s m e hm) : ∃ (E : BitVec 11) (M : BitVec 52),
      x.toModel.toBits.toBitVec = packComponents Format.binary64 s E M ∧
        (E = 0#11 ∧ m = M.toNat ∧ e = -1074 ∨
          E ≠ 0#11 ∧ E ≠ -1#11 ∧ m = 2 ^ 52 + M.toNat ∧ e = E.toNat - 1075) := by
  obtain ⟨s', E, M, hx⟩ := exists_packComponents x
  rw [parts_eq_unpack hx, unpack_packComponents] at h
  split at h
  · split at h <;> cases h
  · next hinf =>
    split at h
    · next hzero =>
      split at h
      · cases h
        exact ⟨E, M, hx, .inl ⟨hzero, rfl, rfl⟩⟩
      · cases h
    · next hzero =>
      cases h
      exact ⟨E, M, hx, .inr ⟨hzero, hinf, rfl, rfl⟩⟩

/-- The parts of a finite number other than zero are canonical. -/
theorem canonical_of_parts {x : Float} {s : Sign} {m : ℕ} {e : ℤ} {hm : 0 < m}
    (h : parts x = .finite s m e hm) : Canonical m e := by
  obtain ⟨E, M, -, hcase⟩ := exists_components_of_finite h
  have hM : M.toNat < 2 ^ 52 := M.isLt
  have hE : E.toNat < 2 ^ 11 := E.isLt
  rcases hcase with ⟨-, rfl, rfl⟩ | ⟨hzero, hinf, rfl, rfl⟩
  · exact ⟨by omega, by omega, by omega, .inr rfl⟩
  · have hpos : E.toNat ≠ 0 := by
      intro hE0
      exact hzero (BitVec.eq_of_toNat_eq hE0)
    have hmax : E.toNat ≠ 2047 := by
      intro hE1
      exact hinf (BitVec.eq_of_toNat_eq hE1)
    exact ⟨by omega, by omega, by omega, .inl (by omega)⟩

/-- **Canonical parts survive packing.**  The leading bit of a normal mantissa is
dropped by packing and put back by unpacking. -/
theorem parts_ofParts_finite (s : Sign) {m : ℕ} {e : ℤ} (hm : 0 < m) (hc : Canonical m e) :
    parts (ofParts (.finite s m e hm)) = .finite s m e hm := by
  have hlt := hc.lt
  have hge := hc.ge
  have hle := hc.le
  have hlog : m.log2 + 1 = 53 ↔ 2 ^ 52 ≤ m := by
    rw [← Nat.le_log2 hm.ne', Nat.add_right_cancel_iff]
    have := (Nat.log2_lt hm.ne').mpr hlt
    omega
  show UnpackedFloat.unpack Format.binary64 (UnpackedFloat.pack Format.binary64 _) = _
  unfold UnpackedFloat.pack
  simp only [show Format.binary64.mantissaBits = 53 from rfl,
    show ((Format.binary64.exponentBias : ℕ) : ℤ) = 1023 from rfl,
    show ((Format.binary64.mantissaBitsWithoutImplicit : ℕ) : ℤ) = 52 from rfl, hlog]
  rw [if_neg (by show ¬ 2048 ≤ _; omega)]
  by_cases hn : 2 ^ 52 ≤ m
  · -- the leading bit is dropped, and the exponent bits are neither all zero nor all one
    have hE : (BitVec.ofNat 11 (e + 1023 + 52).toNat).toNat = (e + 1023 + 52).toNat := by
      rw [BitVec.toNat_ofNat]
      omega
    have hM : 2 ^ 52 + (BitVec.ofNat 52 m).toNat = m := by
      rw [BitVec.toNat_ofNat]
      omega
    have hzero : BitVec.ofNat 11 (e + 1023 + 52).toNat ≠ 0#11 := by
      intro h
      rw [← BitVec.toNat_inj, hE] at h
      change _ = 0 at h
      omega
    have hinf : BitVec.ofNat 11 (e + 1023 + 52).toNat ≠ -1#11 := by
      intro h
      rw [← BitVec.toNat_inj, hE] at h
      change _ = 2047 at h
      omega
    rw [if_pos hn, unpack_packComponents, if_neg hinf, if_neg hzero]
    congr 1
    rw [hE]
    omega
  · -- without the leading bit the exponent is the least one, and its bits are zero
    have he : e = -1074 := hc.normal.resolve_left hn
    have hM : (BitVec.ofNat 52 m).toNat = m := by
      rw [BitVec.toNat_ofNat]
      omega
    rw [if_neg hn, unpack_packComponents, if_neg (by decide), if_pos rfl, dif_pos (by omega)]
    simp only [hM, he]

/-! ### The sign -/

theorem neg_unpack_packComponents (s : Sign) (E : BitVec 11) (M : BitVec 52) :
    (UnpackedFloat.unpack Format.binary64 (packComponents Format.binary64 s E M)).neg =
      UnpackedFloat.unpack Format.binary64 (packComponents Format.binary64 (-s) E M) := by
  rw [unpack_packComponents, unpack_packComponents]
  split_ifs <;> rfl

/-- The sign of parts goes into the sign bit and nowhere else, whether or not the
parts are canonical. -/
theorem parts_ofParts_neg (u : UnpackedFloat) :
    parts (ofParts u.neg) = (parts (ofParts u)).neg := by
  show UnpackedFloat.unpack Format.binary64 (UnpackedFloat.pack Format.binary64 u.neg) =
    (UnpackedFloat.unpack Format.binary64 (UnpackedFloat.pack Format.binary64 u)).neg
  cases u with
  | notANumber => rfl
  | infinity s => exact (neg_unpack_packComponents s _ _).symm
  | zero s => exact (neg_unpack_packComponents s _ _).symm
  | finite s m e hm =>
    unfold UnpackedFloat.neg UnpackedFloat.pack
    dsimp only
    split
    · exact (neg_unpack_packComponents s _ _).symm
    · split <;> exact (neg_unpack_packComponents s _ _).symm

@[simp] theorem parts_neg (x : Float) : parts (-x) = (parts x).neg := by
  rw [neg_eq, parts_ofParts_neg, ofParts_parts]

/-- A finite number is a zero, or it has a mantissa and an exponent. -/
theorem parts_of_isFinite {x : Float} (h : x.isFinite = true) :
    (∃ s, parts x = .zero s) ∨ ∃ s m e, ∃ hm : 0 < m, parts x = .finite s m e hm := by
  rw [isFinite_eq] at h
  cases hu : parts x with
  | notANumber => rw [hu] at h; cases h
  | infinity s => rw [hu] at h; cases h
  | zero s => exact .inl ⟨s, rfl⟩
  | finite s m e hm => exact .inr ⟨s, m, e, hm, rfl⟩

theorem isFinite_neg (x : Float) : (-x).isFinite = x.isFinite := by
  rw [isFinite_eq, isFinite_eq, parts_neg]
  cases parts x <;> rfl

theorem ofParts_neg (u : UnpackedFloat) : ofParts u.neg = -ofParts u :=
  parts_injective (by rw [parts_ofParts_neg, parts_neg])

/-! ### Reading the bits directly -/

theorem ofFloat_eq (x : Float) : Magnitude.ofFloat x =
    if x.toBits.toNat / 2 ^ 52 % 2 ^ 11 = 0 then ⟨x.toBits.toNat % 2 ^ 52, -1074⟩
    else ⟨2 ^ 52 + x.toBits.toNat % 2 ^ 52, (x.toBits.toNat / 2 ^ 52 % 2 ^ 11 : ℕ) - 1075⟩ := rfl

theorem isNegative_eq (x : Float) : Numeral.isNegative x = (x.toBits.toNat / 2 ^ 63 == 1) := rfl

theorem toNat_packComponents (s : Sign) (E : BitVec 11) (M : BitVec 52) :
    (packComponents Format.binary64 s E M).toNat =
      (s.toBitVec.toNat * 2 ^ 11 + E.toNat) * 2 ^ 52 + M.toNat := by
  unfold packComponents
  rw [BitVec.toNat_append, ← Nat.shiftLeft_add_eq_or_of_lt M.isLt, BitVec.toNat_append,
    ← Nat.shiftLeft_add_eq_or_of_lt E.isLt, Nat.shiftLeft_eq, Nat.shiftLeft_eq]

theorem toNat_toBits {x : Float} {s : Sign} {E : BitVec 11} {M : BitVec 52}
    (h : x.toModel.toBits.toBitVec = packComponents Format.binary64 s E M) :
    x.toBits.toNat = (s.toBitVec.toNat * 2 ^ 11 + E.toNat) * 2 ^ 52 + M.toNat := by
  rw [← toNat_packComponents, ← h]
  rfl

theorem ofFloat_of_components {x : Float} {s : Sign} {E : BitVec 11} {M : BitVec 52}
    (h : x.toModel.toBits.toBitVec = packComponents Format.binary64 s E M) :
    Magnitude.ofFloat x = if E = 0#11 then ⟨M.toNat, -1074⟩
      else ⟨2 ^ 52 + M.toNat, (E.toNat : ℤ) - 1075⟩ := by
  have hbits := toNat_toBits h
  have hM : M.toNat < 2 ^ 52 := M.isLt
  have hE : E.toNat < 2 ^ 11 := E.isLt
  have hexp : x.toBits.toNat / 2 ^ 52 % 2 ^ 11 = E.toNat := by omega
  have hfrac : x.toBits.toNat % 2 ^ 52 = M.toNat := by omega
  have hz : E.toNat = 0 ↔ E = 0#11 := by rw [← BitVec.toNat_inj]; rfl
  rw [ofFloat_eq]
  simp only [hexp, hfrac, hz]

theorem isNegative_of_components {x : Float} {s : Sign} {E : BitVec 11} {M : BitVec 52}
    (h : x.toModel.toBits.toBitVec = packComponents Format.binary64 s E M) :
    Numeral.isNegative x = (s == .negative) := by
  have hbits := toNat_toBits h
  have hM : M.toNat < 2 ^ 52 := M.isLt
  have hE : E.toNat < 2 ^ 11 := E.isLt
  have hsign : x.toBits.toNat / 2 ^ 63 = s.toBitVec.toNat := by omega
  rw [isNegative_eq, hsign]
  cases s <;> rfl

/-- The magnitude of a number is the mantissa and the exponent of its parts. -/
theorem ofFloat_of_finite {x : Float} {s : Sign} {m : ℕ} {e : ℤ} {hm : 0 < m}
    (h : parts x = .finite s m e hm) : Magnitude.ofFloat x = ⟨m, e⟩ := by
  obtain ⟨E, M, hx, ⟨hE, rfl, rfl⟩ | ⟨hE, -, rfl, rfl⟩⟩ := exists_components_of_finite h
  · rw [ofFloat_of_components hx, if_pos hE]
  · rw [ofFloat_of_components hx, if_neg hE]

/-- The sign bit of a number is the sign of its parts. -/
theorem isNegative_of_finite {x : Float} {s : Sign} {m : ℕ} {e : ℤ} {hm : 0 < m}
    (h : parts x = .finite s m e hm) : Numeral.isNegative x = (s == .negative) := by
  obtain ⟨E, M, hx, -⟩ := exists_components_of_finite h
  exact isNegative_of_components hx

/-- The bits of a zero below the sign are all zero. -/
theorem of_zero {x : Float} {s : Sign} (h : parts x = .zero s) :
    Magnitude.ofFloat x = ⟨0, -1074⟩ ∧ Numeral.isNegative x = (s == .negative) := by
  obtain ⟨s', E, M, hx⟩ := exists_packComponents x
  rw [parts_eq_unpack hx, unpack_packComponents] at h
  rw [ofFloat_of_components hx, isNegative_of_components hx]
  split at h
  · split at h <;> cases h
  · split at h
    · next hE =>
      split at h
      · cases h
      · next hM =>
        cases h
        rw [if_pos hE, Nat.eq_zero_of_not_pos hM]
        exact ⟨rfl, rfl⟩
    · cases h

/-- A finite number is its distance from zero with the sign of its sign bit. -/
theorem signed_abs {x : Float} (hx : x.isFinite = true) :
    (if Numeral.isNegative x then -x.abs else x.abs) = x := by
  rw [isFinite_eq] at hx
  rw [abs_eq, ← ofParts_neg]
  cases hu : parts x with
  | notANumber => rw [hu] at hx; cases hx
  | infinity s => rw [hu] at hx; cases hx
  | zero s =>
    rw [(of_zero hu).2]
    cases s <;> exact (congrArg ofParts hu).symm.trans (ofParts_parts x)
  | finite s m e hm =>
    rw [isNegative_of_finite hu]
    cases s <;> exact (congrArg ofParts hu).symm.trans (ofParts_parts x)

end Binary64
end PenPlotter
