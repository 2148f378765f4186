import Mathlib
import PenPlotter.Text.Utf8

/-!
# Encoding and decoding

A text that is written in UTF-8 is decoded to itself, character by character.  Of
arbitrary bytes a control character is decoded only where its own byte stands: neither
longer forms of it nor damaged bytes are taken for one.

## Main definitions

* `Utf8.encode` — the bytes of a text.
* `Utf8.Form` — the sequences of bytes that stand for a number, by their length.

## Main results

* `form_of_head`, `form_encodeChar` — what is decoded to a character, and what a
  character is encoded to, has one of the forms.
* `decode_encode` — **a text that is encoded is decoded to itself.**
* `mem_of_mem_encode` — a byte below 128 is written for its own character alone.
* `mem_of_mem_shown` — **a character below 128 is decoded from its own byte alone.**
-/

namespace PenPlotter
namespace Utf8

/-- The bytes that a text is written in. -/
def encode (t : Text) : List UInt8 := t.flatMap String.utf8EncodeChar

@[simp] theorem encode_nil : encode [] = [] := rfl

@[simp] theorem encode_cons (c : Char) (t : Text) :
    encode (c :: t) = String.utf8EncodeChar c ++ encode t := rfl

@[simp] theorem encode_append (s t : Text) : encode (s ++ t) = encode s ++ encode t :=
  List.flatMap_append

/-! ### Bytes by their value -/

theorem isContinuation_iff (b : UInt8) :
    isContinuation b = true ↔ 0x80 ≤ b.toNat ∧ b.toNat ≤ 0xBF := by
  simp [isContinuation, UInt8.le_iff_toNat_le]

theorem followsThree_iff (b c : UInt8) : followsThree b c = true ↔
    (0x80 ≤ c.toNat ∧ c.toNat ≤ 0xBF) ∧ (b.toNat = 0xE0 → 0xA0 ≤ c.toNat) ∧
      (b.toNat = 0xED → c.toNat ≤ 0x9F) := by
  simp only [followsThree, isContinuation, beq_iff_eq, ← UInt8.toNat_inj]
  split_ifs <;> simp_all [UInt8.le_iff_toNat_le] <;> omega

theorem followsFour_iff (b c : UInt8) : followsFour b c = true ↔
    (0x80 ≤ c.toNat ∧ c.toNat ≤ 0xBF) ∧ (b.toNat = 0xF0 → 0x90 ≤ c.toNat) ∧
      (b.toNat = 0xF4 → c.toNat ≤ 0x8F) := by
  simp only [followsFour, isContinuation, beq_iff_eq, ← UInt8.toNat_inj]
  split_ifs <;> simp_all [UInt8.le_iff_toNat_le] <;> omega

/-! ### Well-formed bytes -/

/-- The well-formed bytes of one character, with the number of the character. -/
inductive Form : List UInt8 → ℕ → Prop
  | one {b : UInt8} (hb : b.toNat ≤ 0x7F) : Form [b] b.toNat
  | two {b c : UInt8} (hb : 0xC2 ≤ b.toNat ∧ b.toNat ≤ 0xDF) (hc : isContinuation c = true) :
      Form [b, c] (b.toNat % 32 * 64 + share c)
  | three {b c d : UInt8} (hb : 0xE0 ≤ b.toNat ∧ b.toNat ≤ 0xEF) (hc : followsThree b c = true)
      (hd : isContinuation d = true) :
      Form [b, c, d] ((b.toNat % 16 * 64 + share c) * 64 + share d)
  | four {b c d e : UInt8} (hb : 0xF0 ≤ b.toNat ∧ b.toNat ≤ 0xF4) (hc : followsFour b c = true)
      (hd : isContinuation d = true) (he : isContinuation e = true) :
      Form [b, c, d, e] (((b.toNat % 8 * 64 + share c) * 64 + share d) * 64 + share e)

/-- Only a form of one byte has a byte below 128 in it. -/
theorem Form.eq_singleton_of_mem {bs : List UInt8} {n : ℕ} (h : Form bs n) {b : UInt8} (hb : b ∈ bs)
    (hlt : b.toNat ≤ 0x7F) : bs = [b] ∧ n = b.toNat := by
  cases h with
  | one => rw [List.mem_singleton.mp hb]; exact ⟨rfl, rfl⟩
  | two h2 hc =>
    rw [isContinuation_iff] at hc
    simp only [List.mem_cons, List.not_mem_nil, or_false] at hb
    rcases hb with rfl | rfl <;> omega
  | three h3 hc hd =>
    rw [followsThree_iff] at hc
    rw [isContinuation_iff] at hd
    simp only [List.mem_cons, List.not_mem_nil, or_false] at hb
    rcases hb with rfl | rfl | rfl <;> omega
  | four h4 hc hd he =>
    rw [followsFour_iff] at hc
    rw [isContinuation_iff] at hd he
    simp only [List.mem_cons, List.not_mem_nil, or_false] at hb
    rcases hb with rfl | rfl | rfl | rfl <;> omega

/-- Longer forms are those of characters from 128 on. -/
theorem Form.eq_singleton_of_le {bs : List UInt8} {n : ℕ} (h : Form bs n) (hn : n ≤ 0x7F) :
    ∃ b : UInt8, bs = [b] ∧ b.toNat = n := by
  cases h with
  | one => exact ⟨_, rfl, rfl⟩
  | two h2 hc => omega
  | three h3 hc hd =>
    rw [followsThree_iff] at hc
    unfold share at hn
    omega
  | four h4 hc hd he =>
    rw [followsFour_iff] at hc
    unfold share at hn
    omega

/-- Well-formed bytes stand for a character: there are no forms of surrogates, nor of
numbers beyond the last character. -/
theorem Form.isValidChar {bs : List UInt8} {n : ℕ} (h : Form bs n) : n.isValidChar := by
  cases h with
  | one => left; omega
  | two => unfold share; left; omega
  | three h3 hc hd =>
    rw [followsThree_iff] at hc
    unfold share Nat.isValidChar
    omega
  | four h4 hc hd he =>
    rw [followsFour_iff] at hc
    unfold share Nat.isValidChar
    omega

/-! ### Decoding one character -/

/-- Well-formed bytes are one item, whatever follows them. -/
theorem Form.head {b : UInt8} {bs : List UInt8} {n : ℕ} (h : Form (b :: bs) n) (rest : List UInt8) :
    head b (bs ++ rest) = (some (Char.ofNat n), bs.length) := by
  have hlt : ∀ m : UInt8, b < m ↔ b.toNat < m.toNat := fun m => UInt8.lt_iff_toNat_lt
  have hle : ∀ m : UInt8, b ≤ m ↔ b.toNat ≤ m.toNat := fun m => UInt8.le_iff_toNat_le
  have hge : ∀ m : UInt8, m ≤ b ↔ m.toNat ≤ b.toNat := fun m => UInt8.le_iff_toNat_le
  unfold Utf8.head
  simp only [hlt, hle, hge, UInt8.reduceToNat]
  cases h with
  | one hb => rw [if_pos (by omega)]; rfl
  | two hb hc =>
    rw [if_neg (by omega), if_pos (by omega)]
    dsimp only [List.cons_append]
    rw [if_pos hc]
    rfl
  | three hb hc hd =>
    rw [if_neg (by omega), if_neg (by omega), if_pos (by omega)]
    dsimp only [List.cons_append]
    rw [hc, if_neg (by decide), if_pos hd]
    rfl
  | four hb hc hd he =>
    rw [if_neg (by omega), if_neg (by omega), if_neg (by omega), if_pos (by omega)]
    dsimp only [List.cons_append]
    rw [hc, if_neg (by decide), hd, if_neg (by decide), if_pos he]
    rfl

/-- A character that is decoded stands there in well-formed bytes. -/
theorem form_of_head {b : UInt8} {rest : List UInt8} {c : Char} {k : ℕ}
    (h : head b rest = (some c, k)) :
    ∃ n, Form (b :: rest.take k) n ∧ c = Char.ofNat n := by
  have hlt : ∀ m : UInt8, b < m ↔ b.toNat < m.toNat := fun m => UInt8.lt_iff_toNat_lt
  have hle : ∀ m : UInt8, b ≤ m ↔ b.toNat ≤ m.toNat := fun m => UInt8.le_iff_toNat_le
  have hge : ∀ m : UInt8, m ≤ b ↔ m.toNat ≤ b.toNat := fun m => UInt8.le_iff_toNat_le
  unfold Utf8.head at h
  simp only [hlt, hle, hge, UInt8.reduceToNat] at h
  split_ifs at h with h1 h2 h3 h4
  · cases h
    exact ⟨_, .one (by omega), rfl⟩
  · split at h
    · next c' rest =>
      split_ifs at h with hc <;> cases h
      exact ⟨_, .two h2 hc, rfl⟩
    · cases h
  · split at h
    · next c' d rest =>
      split_ifs at h with hc hd <;> cases h
      exact ⟨_, .three h3 (by simpa using hc) hd, rfl⟩
    · cases h
    · cases h
  · split at h
    · next c' d e rest =>
      split_ifs at h with hc hd he <;> cases h
      exact ⟨_, .four h4 (by simpa using hc) (by simpa using hd) he, rfl⟩
    · cases h
    · cases h
    · cases h
  · cases h

/-- Behind an item decoding skips the bytes that belong to it. -/
theorem decodeAfter_append (skipped rest : List UInt8) :
    decodeAfter skipped.length (skipped ++ rest) = decode rest := by
  induction skipped with
  | nil => rfl
  | cons b skipped ih => exact ih

/-! ### Encoding -/

/-- The bytes that a character is written in are well formed. -/
theorem form_encodeChar (c : Char) : Form (String.utf8EncodeChar c) c.toNat := by
  have htoNat : ∀ n < 256, (UInt8.ofNat n).toNat = n := by
    intro n hn
    exact UInt8.toNat_ofNat'.trans (Nat.mod_eq_of_lt hn)
  have hvalid : c.val.toNat < 0xD800 ∨ 0xDFFF < c.val.toNat ∧ c.val.toNat < 0x110000 := c.valid
  unfold String.utf8EncodeChar Char.toNat
  dsimp only
  generalize c.val.toNat = n at hvalid ⊢
  split_ifs with h1 h2 h3
  · have hb := htoNat n (by omega)
    generalize UInt8.ofNat n = b at hb ⊢
    rw [← hb]
    exact .one (by omega)
  · have hb := htoNat (n / 64 % 32 + 192) (by omega)
    have hc := htoNat (n % 64 + 128) (by omega)
    generalize UInt8.ofNat (n / 64 % 32 + 192) = b at hb ⊢
    generalize UInt8.ofNat (n % 64 + 128) = c at hc ⊢
    have hn : n = b.toNat % 32 * 64 + share c := by unfold share; omega
    rw [hn]
    exact .two (by omega) ((isContinuation_iff c).mpr (by omega))
  · have hb := htoNat (n / 4096 % 16 + 224) (by omega)
    have hc := htoNat (n / 64 % 64 + 128) (by omega)
    have hd := htoNat (n % 64 + 128) (by omega)
    generalize UInt8.ofNat (n / 4096 % 16 + 224) = b at hb ⊢
    generalize UInt8.ofNat (n / 64 % 64 + 128) = c at hc ⊢
    generalize UInt8.ofNat (n % 64 + 128) = d at hd ⊢
    have hn : n = (b.toNat % 16 * 64 + share c) * 64 + share d := by unfold share; omega
    rw [hn]
    exact .three (by omega) ((followsThree_iff b c).mpr (by omega))
      ((isContinuation_iff d).mpr (by omega))
  · have hb := htoNat (n / 262144 % 8 + 240) (by omega)
    have hc := htoNat (n / 4096 % 64 + 128) (by omega)
    have hd := htoNat (n / 64 % 64 + 128) (by omega)
    have he := htoNat (n % 64 + 128) (by omega)
    generalize UInt8.ofNat (n / 262144 % 8 + 240) = b at hb ⊢
    generalize UInt8.ofNat (n / 4096 % 64 + 128) = c at hc ⊢
    generalize UInt8.ofNat (n / 64 % 64 + 128) = d at hd ⊢
    generalize UInt8.ofNat (n % 64 + 128) = e at he ⊢
    have hn : n = ((b.toNat % 8 * 64 + share c) * 64 + share d) * 64 + share e := by
      unfold share
      omega
    rw [hn]
    exact .four (by omega) ((followsFour_iff b c).mpr (by omega))
      ((isContinuation_iff d).mpr (by omega)) ((isContinuation_iff e).mpr (by omega))

/-- The bytes of a character are decoded to it, and decoding goes on behind them. -/
theorem decode_encodeChar_append (c : Char) (rest : List UInt8) :
    decode (String.utf8EncodeChar c ++ rest) = some c :: decode rest := by
  have hform := form_encodeChar c
  cases hbytes : String.utf8EncodeChar c with
  | nil => rw [hbytes] at hform; cases hform
  | cons b bs =>
    rw [hbytes] at hform
    rw [decode, List.cons_append, decodeAfter, hform.head rest, Char.ofNat_toNat, decodeAfter_append]

/-- **A text that is encoded is decoded to itself**, with nothing damaged. -/
theorem decode_encode (t : Text) : decode (encode t) = t.map some := by
  induction t with
  | nil => rfl
  | cons c t ih => rw [encode_cons, decode_encodeChar_append, ih, List.map_cons]

theorem shown_decode_encode (t : Text) : shown (decode (encode t)) = t := by
  rw [decode_encode, shown, List.map_map]
  exact List.map_id t

/-- A byte below 128 is written for its own character alone. -/
theorem mem_of_mem_encode {b : UInt8} {t : Text} (h : b ∈ encode t) (hb : b.toNat ≤ 0x7F) :
    Char.ofNat b.toNat ∈ t := by
  obtain ⟨c, hc, hmem⟩ := List.mem_flatMap.mp h
  obtain ⟨-, hn⟩ := (form_encodeChar c).eq_singleton_of_mem hmem hb
  rwa [← hn, Char.ofNat_toNat]

/-! ### Decoding arbitrary bytes -/

theorem mem_of_mem_decodeAfter {c : Char} (hc : c.toNat ≤ 0x7F) {k : ℕ} {bytes : List UInt8}
    (h : some c ∈ decodeAfter k bytes) : UInt8.ofNat c.toNat ∈ bytes := by
  induction bytes generalizing k with
  | nil => cases k <;> cases h
  | cons b rest ih =>
    cases k with
    | succ k => exact List.mem_cons_of_mem _ (ih h)
    | zero =>
      rcases List.mem_cons.mp h with h | h
      · -- the bytes of a small character are one byte
        obtain ⟨n, hform, rfl⟩ := form_of_head (Prod.ext h.symm rfl)
        rw [Char.toNat_ofNat, if_pos hform.isValidChar] at hc ⊢
        obtain ⟨b', hb', rfl⟩ := hform.eq_singleton_of_le hc
        rw [UInt8.ofNat_toNat, (List.cons.inj hb').1]
        exact List.mem_cons_self
      · exact List.mem_cons_of_mem _ (ih h)

/-- **A character below 128 is decoded from its own byte alone**: no longer form of it
and no damage is taken for it. -/
theorem mem_of_mem_shown {c : Char} (hc : c.toNat ≤ 0x7F) {bytes : List UInt8}
    (h : c ∈ shown (decode bytes)) : UInt8.ofNat c.toNat ∈ bytes := by
  obtain ⟨item, hitem, rfl⟩ := List.mem_map.mp h
  cases item with
  | none => exact absurd hc (by decide)
  | some c => exact mem_of_mem_decodeAfter hc hitem

end Utf8
end PenPlotter
