import Mathlib
import PenPlotter.Color
import PenPlotter.Proofs.Text.Pieces

/-!
# Colours in hexadecimal digits

A colour is written as a number sign and six digits, and read from six digits with
number signs in front.  The digits of either case stand for the same colour, and they
come back in lower case.  The reader takes more than is ever written: any number of
signs, and a plus sign in place of the first digit.

## Main definitions

* `Text.IsHexDigit` — the digits in base sixteen, in either case.
* `Text.lastDigits` — the last digits of a number in base sixteen.
* `Color.IsPlain` — six digits with at most one number sign in front.
* `Color.Spells` — all texts that are read, with the six digits that they stand for.

## Main results

* `Text.ofDigitsFrom?_lastDigits` — digits that are written are read back.
* `Text.lastDigits_ofDigitsFrom?` — digits that are read are written in lower case.
* `Color.ofHex?_of_spells`, `Color.exists_spells` — which texts are read, and as what.
* `Color.ofHex?_spelling` — **what the reader accepts, and what it makes of it.**
-/

namespace PenPlotter
namespace Text

/-! ### Digits in base sixteen -/

/-- A digit in base sixteen, in either case. -/
def IsHexDigit (c : Char) : Prop := '0' ≤ c ∧ c ≤ '9' ∨ 'a' ≤ c ∧ c ≤ 'f' ∨ 'A' ≤ c ∧ c ≤ 'F'

instance : DecidablePred IsHexDigit := fun _ => inferInstanceAs (Decidable (_ ∨ _ ∨ _))

/-- The last digits of a number in base sixteen, with letters in lower case. -/
def lastDigits : ℕ → ℕ → Text
  | 0, _ => []
  | k + 1, n => lastDigits k (n / 16) ++ [Nat.digitChar (n % 16)]

theorem isHexDigit_of_digitValue? {c : Char} {d : ℕ} (h : digitValue? 16 c = some d) :
    IsHexDigit c := by
  unfold digitValue? at h
  obtain ⟨hvalue, hlt⟩ := Option.filter_eq_some_iff.mp h
  rw [decide_eq_true_eq] at hlt
  split_ifs at hvalue with hdigit hlower hupper
  · exact .inl hdigit
  · -- later letters stand for values from sixteen on
    have hd := Option.some.inj hvalue
    exact .inr (.inl ⟨hlower.1, Char.le_def.mpr (show c.toNat ≤ 102 by omega)⟩)
  · have hd := Option.some.inj hvalue
    exact .inr (.inr ⟨hupper.1, Char.le_def.mpr (show c.toNat ≤ 70 by omega)⟩)

/-- A digit has a value, which is written as the digit in lower case. -/
theorem IsHexDigit.exists_value {c : Char} (h : IsHexDigit c) :
    ∃ d < 16, digitValue? 16 c = some d ∧ Nat.digitChar d = c.toLower := by
  have hcodes : ∀ n < 103, IsHexDigit (Char.ofNat n) →
      ∃ d < 16, digitValue? 16 (Char.ofNat n) = some d ∧
        Nat.digitChar d = (Char.ofNat n).toLower := by decide +kernel
  have hlt : c.toNat < 103 := by
    rcases h with ⟨-, hle⟩ | ⟨-, hle⟩ | ⟨-, hle⟩ <;> exact Nat.lt_of_le_of_lt hle (by decide)
  rw [← Char.ofNat_toNat c] at h ⊢
  exact hcodes c.toNat hlt h

theorem IsHexDigit.not_isBlank {c : Char} (h : IsHexDigit c) : isBlank c = false := by
  have hrange : 48 ≤ c.toNat ∧ c.toNat ≤ 102 := by
    rcases h with ⟨hlow, hhigh⟩ | ⟨hlow, hhigh⟩ | ⟨hlow, hhigh⟩ <;>
      exact ⟨le_trans (by decide) (Char.le_def.mp hlow), le_trans (Char.le_def.mp hhigh) (by decide)⟩
  simp only [isBlank, Bool.or_eq_false_iff, Bool.and_eq_false_iff, decide_eq_false_iff_not,
    beq_eq_false_iff_ne]
  omega

/-! ### Numbers in base sixteen -/

@[simp] theorem length_lastDigits (k n : ℕ) : (lastDigits k n).length = k := by
  induction k generalizing n with
  | zero => rfl
  | succ k ih => rw [lastDigits, List.length_append, ih, List.length_singleton]

/-- The last digits are those of the two parts of a number. -/
theorem lastDigits_add (j k n : ℕ) :
    lastDigits (j + k) n = lastDigits j (n / 16 ^ k) ++ lastDigits k n := by
  induction k generalizing n with
  | zero => rw [pow_zero, Nat.div_one, lastDigits, List.append_nil, Nat.add_zero]
  | succ k ih =>
    rw [← Nat.add_assoc, lastDigits, ih, Nat.div_div_eq_div_mul, ← Nat.pow_succ', List.append_assoc]
    rfl

theorem isHexDigit_of_mem_lastDigits {k n : ℕ} {c : Char} (h : c ∈ lastDigits k n) :
    IsHexDigit c := by
  have hdigits : ∀ d < 16, IsHexDigit (Nat.digitChar d) := by decide
  induction k generalizing n with
  | zero => cases h
  | succ k ih =>
    rcases List.mem_append.mp h with h | h
    · exact ih h
    · rw [List.mem_singleton.mp h]
      exact hdigits _ (Nat.mod_lt n (by decide))

/-- The last digit of a run is read last. -/
theorem ofDigitsFrom?_concat (base n : ℕ) (t : Text) (c : Char) :
    ofDigitsFrom? base n (t ++ [c]) =
      (ofDigitsFrom? base n t).bind fun v => (digitValue? base c).map (v * base + ·) := by
  induction t generalizing n with
  | nil =>
    simp only [List.nil_append, ofDigitsFrom?, Option.bind_some]
    cases digitValue? base c <;> rfl
  | cons d t ih =>
    rw [List.cons_append, ofDigitsFrom?, ofDigitsFrom?]
    cases digitValue? base d with
    | none => rfl
    | some v => exact ih _

/-- **Digits that are written are read back**, as far as they were written. -/
theorem ofDigitsFrom?_lastDigits (k n : ℕ) :
    ofDigitsFrom? 16 0 (lastDigits k n) = some (n % 16 ^ k) := by
  have hvalue : ∀ d < 16, digitValue? 16 (Nat.digitChar d) = some d := by decide
  induction k generalizing n with
  | zero => rw [pow_zero, Nat.mod_one]; rfl
  | succ k ih =>
    rw [lastDigits, ofDigitsFrom?_concat, ih, hvalue _ (Nat.mod_lt n (by decide)), Option.bind_some,
      Option.map_some, Nat.pow_succ', Nat.mod_mul, Nat.mul_comm, Nat.add_comm]

/-- **Digits that are read are written in lower case.** -/
theorem lastDigits_ofDigitsFrom? {t : Text} (h : ∀ c ∈ t, IsHexDigit c) :
    ∃ v, ofDigitsFrom? 16 0 t = some v ∧ lastDigits t.length v = t.map Char.toLower := by
  induction t using List.reverseRecOn with
  | nil => exact ⟨0, rfl, rfl⟩
  | append_singleton t c ih =>
    obtain ⟨v, hv, hdigits⟩ := ih fun d hd => h d (List.mem_append_left [c] hd)
    obtain ⟨d, hlt, hd, hlower⟩ := (h c (List.mem_append_right t List.mem_cons_self)).exists_value
    refine ⟨v * 16 + d, ?_, ?_⟩
    · rw [ofDigitsFrom?_concat, hv, Option.bind_some, hd, Option.map_some]
    · have hdiv : (v * 16 + d) / 16 = v := by omega
      have hmod : (v * 16 + d) % 16 = d := by omega
      rw [List.length_append, List.length_singleton, lastDigits, hdiv, hmod, hdigits, hlower,
        List.map_append, List.map_singleton]

end Text

namespace Color

open Text

/-! ### Colours in digits -/

theorem hexByte_ofNat (n : ℕ) : hexByte (UInt8.ofNat n) = lastDigits 2 n := by
  have hhigh : n % 2 ^ 8 / 16 = n / 16 % 16 := by omega
  have hlow : n % 2 ^ 8 % 16 = n % 16 := by omega
  rw [hexByte, UInt8.toNat_ofNat', hhigh, hlow]
  rfl

/-- A colour is written as a number sign and the last six digits of its number. -/
theorem hex_ofNat (n : ℕ) : (ofNat n).hex = '#' :: lastDigits 6 n := by
  have hdigits : lastDigits 6 n =
      lastDigits 2 (n / 65536) ++ (lastDigits 2 (n / 256) ++ lastDigits 2 n) :=
    (lastDigits_add 2 4 n).trans (congrArg _ (lastDigits_add 2 2 n))
  rw [hdigits, hex, ofNat, hexByte_ofNat, hexByte_ofNat, hexByte_ofNat, List.cons_append,
    List.cons_append, List.append_assoc]

theorem toNat_lt (c : Color) : c.toNat < 16 ^ 6 := by
  have hred := c.red.toNat_lt
  have hgreen := c.green.toNat_lt
  have hblue := c.blue.toNat_lt
  unfold toNat
  omega

theorem ofNat_toNat (c : Color) : ofNat c.toNat = c := by
  have hgreen := c.green.toNat_lt
  have hblue := c.blue.toNat_lt
  have hred := c.red.toNat_lt
  unfold ofNat toNat
  congr 1 <;> rw [← UInt8.toNat_inj, UInt8.toNat_ofNat'] <;> omega

/-! ### Texts that are read -/

/-- Six digits with at most one number sign in front of them. -/
structure IsPlain (t digits : Text) : Prop where
  length : digits.length = 6
  isHexDigit : ∀ c ∈ digits, IsHexDigit c
  eq_or : t = digits ∨ t = '#' :: digits

/-- All texts without blanks around them that are read as a colour, with the six digits that
they stand for. -/
inductive Spells : Text → Text → Prop
  | digits {t : Text} (hlength : t.length = 6) (h : ∀ c ∈ t, IsHexDigit c) : Spells t t
  /-- A plus sign stands for a zero. -/
  | plus {t : Text} (hlength : t.length = 5) (h : ∀ c ∈ t, IsHexDigit c) :
      Spells ('+' :: t) ('0' :: t)
  | sign {t ds : Text} (h : Spells t ds) : Spells ('#' :: t) ds

theorem Spells.length {t ds : Text} (h : Spells t ds) : ds.length = 6 := by
  induction h with
  | digits hlength => exact hlength
  | plus hlength => rw [List.length_cons, hlength]
  | sign _ ih => exact ih

theorem Spells.isHexDigit {t ds : Text} (h : Spells t ds) : ∀ c ∈ ds, IsHexDigit c := by
  induction h with
  | digits _ h => exact h
  | plus _ h => exact List.forall_mem_cons.mpr ⟨by decide, h⟩
  | sign _ ih => exact ih

theorem IsPlain.spells {t ds : Text} (h : IsPlain t ds) : Spells t ds := by
  have hds := Spells.digits h.length h.isHexDigit
  rcases h.eq_or with rfl | rfl
  · exact hds
  · exact hds.sign

/-- With one number sign and without a plus sign, what is read is plain. -/
theorem Spells.isPlain {t ds : Text} (h : Spells t ds) (hsign : ¬ ['#', '#'] <+: t) (hplus : '+' ∉ t) :
    IsPlain t ds := by
  cases h with
  | digits hlength h => exact ⟨hlength, h, .inl rfl⟩
  | plus => exact absurd List.mem_cons_self hplus
  | sign h =>
    cases h with
    | digits hlength h => exact ⟨hlength, h, .inr rfl⟩
    | plus => exact absurd (List.mem_cons_of_mem _ List.mem_cons_self) hplus
    | sign => exact absurd ⟨_, rfl⟩ hsign

/-! ### Reading -/

theorem dropWhile_sign_of_digits {t : Text} (h : ∀ c ∈ t, IsHexDigit c) :
    t.dropWhile (· == '#') = t := by
  cases t with
  | nil => rfl
  | cons c t =>
    have hc : c ≠ '#' := by
      rintro rfl
      exact absurd (h '#' List.mem_cons_self) (by decide)
    exact List.dropWhile_cons_of_neg (by simpa using hc)

theorem natOfBase?_of_digits {t : Text} (h : ∀ c ∈ t, IsHexDigit c) (hne : t ≠ []) :
    natOfBase? 16 t = ofDigitsFrom? 16 0 t := by
  unfold natOfBase?
  split
  · exact absurd (h '+' List.mem_cons_self) (by decide)
  · exact if_neg (by simpa using hne)

/-- A text is read as the number of the six digits that it stands for. -/
theorem ofHex?_of_spells {t ds : Text} (h : Spells (trim t) ds) :
    ofHex? t = (ofDigitsFrom? 16 0 ds).map ofNat := by
  unfold ofHex?
  dsimp only
  generalize trim t = u at h
  induction h with
  | digits hlength h =>
    rw [dropWhile_sign_of_digits h, if_pos hlength, natOfBase?_of_digits h]
    exact List.ne_nil_of_length_eq_add_one hlength
  | plus hlength h =>
    -- a zero in front does not change the number
    rw [List.dropWhile_cons_of_neg (by decide), if_pos (by rw [List.length_cons, hlength]), natOfBase?,
      ofDigits?, if_neg (by simpa using List.ne_nil_of_length_eq_add_one hlength)]
    rfl
  | sign _ ih =>
    rw [List.dropWhile_cons_of_pos (by decide)]
    exact ih

/-- What the reader of numbers accepts behind number signs is the spelling of a colour. -/
theorem exists_spells {u : Text} {n : ℕ} (hlength : (u.dropWhile (· == '#')).length = 6)
    (h : natOfBase? 16 (u.dropWhile (· == '#')) = some n) : ∃ ds, Spells u ds := by
  have hdigits : ∀ t : Text, ofDigits? 16 t = some n → ∀ c ∈ t, IsHexDigit c := by
    intro t ht c hc
    unfold ofDigits? at ht
    split_ifs at ht
    obtain ⟨d, hd⟩ := exists_digitValue?_of_mem ht hc
    exact isHexDigit_of_digitValue? hd
  induction u with
  | nil => cases hlength
  | cons c u ih =>
    by_cases hc : c = '#'
    · subst hc
      rw [List.dropWhile_cons_of_pos (by decide)] at hlength h
      obtain ⟨ds, hds⟩ := ih hlength h
      exact ⟨ds, hds.sign⟩
    · rw [List.dropWhile_cons_of_neg (by simpa using hc)] at hlength h
      unfold natOfBase? at h
      split at h
      · next rest heq =>
        obtain ⟨rfl, rfl⟩ := List.cons.inj heq
        exact ⟨_, .plus (Nat.succ.inj hlength) (hdigits _ h)⟩
      · exact ⟨_, .digits hlength (hdigits _ h)⟩

theorem isSome_ofHex?_iff (t : Text) : (ofHex? t).isSome = true ↔ ∃ ds, Spells (trim t) ds := by
  constructor
  · intro h
    obtain ⟨c, hc⟩ := Option.isSome_iff_exists.mp h
    unfold ofHex? at hc
    dsimp only at hc
    split_ifs at hc with hlength
    obtain ⟨n, hn, -⟩ := Option.map_eq_some_iff.mp hc
    exact exists_spells hlength hn
  · rintro ⟨ds, hds⟩
    obtain ⟨v, hv, -⟩ := lastDigits_ofDigitsFrom? hds.isHexDigit
    rw [ofHex?_of_spells hds, hv]
    rfl

/-- A colour that was read is written in the digits that were read, in lower case. -/
theorem map_hex_ofHex? {t ds : Text} (h : Spells (trim t) ds) :
    (ofHex? t).map hex = some ('#' :: ds.map Char.toLower) := by
  obtain ⟨v, hv, hlower⟩ := lastDigits_ofDigitsFrom? h.isHexDigit
  rw [h.length] at hlower
  rw [ofHex?_of_spells h, hv, Option.map_some, Option.map_some, hex_ofNat, hlower]

/-- **A colour that is written is read back.** -/
theorem ofHex?_hex (c : Color) : ofHex? c.hex = some c := by
  have hhex : c.hex = '#' :: lastDigits 6 c.toNat := by
    conv_lhs => rw [← ofNat_toNat c]
    exact hex_ofNat c.toNat
  have hblank : ∀ d ∈ c.hex, isBlank d = false := by
    rw [hhex, List.forall_mem_cons]
    exact ⟨rfl, fun d hd => (isHexDigit_of_mem_lastDigits hd).not_isBlank⟩
  have htrim : trim c.hex = c.hex :=
    trim_eq_self (fun d hd => hblank d (List.mem_of_mem_head? hd))
      fun d hd => hblank d (List.mem_of_getLast? hd)
  have hspells : Spells (trim c.hex) (lastDigits 6 c.toNat) := by
    rw [htrim, hhex]
    exact .sign (.digits (length_lastDigits 6 _) fun d hd => isHexDigit_of_mem_lastDigits hd)
  rw [ofHex?_of_spells hspells, ofDigitsFrom?_lastDigits, Nat.mod_eq_of_lt c.toNat_lt, Option.map_some,
    ofNat_toNat]

/-- **What the reader accepts, and what it makes of it.**  A text is read as a colour exactly
if it spells one, blanks around it aside, and the colour is then written as a number sign
and the six digits of the text in lower case.  Unless the text starts with two number
signs or has a plus sign, it spells a colour only in plain form.  Every colour is read
back from what is written for it. -/
theorem ofHex?_spelling (t : Text) :
    ((ofHex? t).isSome = true ↔ ∃ ds, Spells (trim t) ds) ∧
    (∀ ds, Spells (trim t) ds → (ofHex? t).map hex = some ('#' :: ds.map Char.toLower)) ∧
    (¬ ['#', '#'] <+: trim t → '+' ∉ trim t → ∀ ds, Spells (trim t) ds ↔ IsPlain (trim t) ds) ∧
    ∀ c : Color, ofHex? c.hex = some c := by
  refine ⟨isSome_ofHex?_iff t, ?_, ?_, ofHex?_hex⟩
  · intro ds hds
    exact map_hex_ofHex? hds
  · intro hsign hplus ds
    constructor
    · intro hds
      exact hds.isPlain hsign hplus
    · intro hds
      exact hds.spells

/-- Against the expectation that only plain texts are read: a plus sign is taken for a digit,
and a second number sign is passed over. -/
theorem ofHex?_spelling_fails :
    (ofHex? ['+', '1', '2', '3', '4', '5'] = some ⟨1, 35, 69⟩ ∧
      ¬ ∃ ds, IsPlain (trim ['+', '1', '2', '3', '4', '5']) ds) ∧
    (ofHex? ['#', '#', '0', '0', 'f', 'f', '0', '0'] = some lime ∧
      ¬ ∃ ds, IsPlain (trim ['#', '#', '0', '0', 'f', 'f', '0', '0']) ds) := by
  refine ⟨⟨by decide, ?_⟩, by decide, ?_⟩
  · rintro ⟨ds, -, hdigits, rfl | hds⟩
    · exact absurd (hdigits '+' List.mem_cons_self) (by decide)
    · cases hds
  · rintro ⟨ds, hlength, -, rfl | hds⟩
    · exact absurd hlength (by decide)
    · cases hds
      exact absurd hlength (by decide)

end Color
end PenPlotter
