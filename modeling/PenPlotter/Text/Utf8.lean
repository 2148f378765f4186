import PenPlotter.Text

/-!
# Decoding UTF-8 that may be damaged

Bytes are decoded one character at a time.  Where they stop being well formed,
the longest run of bytes that could have begun a character is one *damaged*
item, and decoding goes on behind it.  Damaged items are shown as U+FFFD.

## Main definitions

* `Utf8.head` — the first item of a byte list and how many further bytes it takes.
* `Utf8.decode` — all items: characters, and `none` where bytes are damaged.
* `Utf8.shown` — the text of the items.
-/

namespace PenPlotter
namespace Utf8

/-- The character shown in place of damaged bytes, U+FFFD. -/
def replacement : Char := '\uFFFD'

/-- The bytes `10xxxxxx`, which continue a character. -/
def isContinuation (b : UInt8) : Bool := 0x80 ≤ b && b ≤ 0xBF

/-- The low six bits, the share of a continuation byte. -/
def share (b : UInt8) : Nat := b.toNat % 64

/-- The bytes that may follow the first byte of a three-byte character: neither
an overlong form nor a surrogate. -/
def followsThree (first second : UInt8) : Bool :=
  if first == 0xE0 then 0xA0 ≤ second && second ≤ 0xBF
  else if first == 0xED then 0x80 ≤ second && second ≤ 0x9F
  else isContinuation second

/-- The bytes that may follow the first byte of a four-byte character: neither
an overlong form nor a value past U+10FFFF. -/
def followsFour (first second : UInt8) : Bool :=
  if first == 0xF0 then 0x90 ≤ second && second ≤ 0xBF
  else if first == 0xF4 then 0x80 ≤ second && second ≤ 0x8F
  else isContinuation second

/-- The first item of `b :: rest`, and how many bytes of `rest` belong to it. -/
def head (b : UInt8) (rest : List UInt8) : Option Char × Nat :=
  if b < 0x80 then (some (Char.ofNat b.toNat), 0)
  else if 0xC2 ≤ b ∧ b ≤ 0xDF then
    match rest with
    | c :: _ =>
      if isContinuation c then (some (Char.ofNat (b.toNat % 32 * 64 + share c)), 1) else (none, 0)
    | [] => (none, 0)
  else if 0xE0 ≤ b ∧ b ≤ 0xEF then
    match rest with
    | c :: d :: _ =>
      if !followsThree b c then (none, 0)
      else if isContinuation d then
        (some (Char.ofNat ((b.toNat % 16 * 64 + share c) * 64 + share d)), 2)
      else (none, 1)
    | [c] => (none, if followsThree b c then 1 else 0)
    | [] => (none, 0)
  else if 0xF0 ≤ b ∧ b ≤ 0xF4 then
    match rest with
    | c :: d :: e :: _ =>
      if !followsFour b c then (none, 0)
      else if !isContinuation d then (none, 1)
      else if isContinuation e then
        (some (Char.ofNat (((b.toNat % 8 * 64 + share c) * 64 + share d) * 64 + share e)), 3)
      else (none, 2)
    | [c, d] => (none, if followsFour b c then if isContinuation d then 2 else 1 else 0)
    | [c] => (none, if followsFour b c then 1 else 0)
    | [] => (none, 0)
  else (none, 0)

/-- The items of the bytes behind the first `skip` of them. -/
def decodeAfter : Nat → List UInt8 → List (Option Char)
  | _, [] => []
  | skip + 1, _ :: rest => decodeAfter skip rest
  | 0, b :: rest => (head b rest).1 :: decodeAfter (head b rest).2 rest

/-- The characters that the bytes encode, with `none` for each damaged run. -/
def decode (bytes : List UInt8) : List (Option Char) := decodeAfter 0 bytes

/-- The text of decoded items, damage shown as U+FFFD. -/
def shown (items : List (Option Char)) : Text := items.map (·.getD replacement)

/-- The text that the bytes encode, if none of them is damaged. -/
def text? (bytes : List UInt8) : Option Text :=
  let items := decode bytes
  if items.all Option.isSome then some (shown items) else none

@[simp] theorem decode_nil : decode [] = [] := rfl

@[simp] theorem shown_nil : shown [] = [] := rfl

@[simp] theorem shown_cons (c : Option Char) (items : List (Option Char)) :
    shown (c :: items) = c.getD replacement :: shown items := rfl

end Utf8
end PenPlotter
