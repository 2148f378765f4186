import Mathlib
import PenPlotter.Proofs.Binary64.SameNumber
import PenPlotter.Proofs.Numeral.ReadBack
import PenPlotter.Proofs.Text.Pieces
import PenPlotter.Proofs.Toolpath.Trace
import PenPlotter.Reflection

/-!
# The words of a reflected line

A reflected line falls into the reflections of the words of the line, in order,
whether it was written anew or left as it was.  A reflected word asks the machine
for the same thing, selects the motion the other way around, and holds the number
with its sign changed if it is horizontal.

## Main definitions

* `Motion.reverse` — the motion with its winding reversed.
* `Word.reflected` — the reflection of a word, or the word if it has none.
* `Reflection.Changes` — some word of a line has a reflection.

## Main results

* `read?_opposite` — the numeral of an opposite number is read as that number.
* `command_reflected`, `motion_reflected`, `number_reflected` — what a reflected
  word holds.
* `tokens_line` — **the words of a reflected line are the reflected words.**
* `comment?_line` — the comment of a reflected line is the comment of the line.
-/

namespace PenPlotter

open Binary64

/-- The motion with its winding reversed. -/
def Motion.reverse : Motion → Motion
  | linear => linear
  | arc winding => arc winding.reverse

@[simp] theorem Motion.reverse_linear : Motion.linear.reverse = .linear := rfl

@[simp] theorem Motion.reverse_arc (winding : Winding) :
    (Motion.arc winding).reverse = .arc winding.reverse := rfl

/-! ### Opposite numerals -/

namespace Numeral

theorem opposite_of_zero {x : Float} (h : (x == 0) = true) : opposite x = ['0'] := by
  simp [opposite, neg_beq_zero, h]

theorem opposite_of_ne_zero {x : Float} (h : (x == 0) = false) : opposite x = write (-x) := by
  simp [opposite, neg_beq_zero, h]

/-- The numeral of an opposite number is read as that number, but for the sign of
zero. -/
theorem read?_opposite {x : Float} (hx : x.isFinite = true) :
    ∃ y, read? (opposite x) = some y ∧ y.isFinite = true ∧ SameNumber y (-x) := by
  unfold opposite
  split_ifs with hzero
  · -- an opposite zero is written without a sign
    refine ⟨0, by decide, by decide, SameNumber.symm ?_⟩
    exact (sameNumber_zero_iff _).mpr hzero
  · have hneg : (-x).isFinite = true := (isFinite_neg x).trans hx
    exact ⟨-x, read?_write hneg, hneg, .refl _⟩

theorem isNumeral_opposite {x : Float} (hx : x.isFinite = true) : IsNumeral (opposite x) := by
  unfold opposite
  split_ifs
  · intro c hc
    rw [List.mem_singleton.mp hc]
    exact .inl rfl
  · exact isNumeral_write ((isFinite_neg x).trans hx)

end Numeral

/-- Neither a blank nor a semicolon is part of a numeral. -/
theorem IsNumeral.not_mem {t : Text} (h : IsNumeral t) {c : Char} (hc : c ∈ t) :
    isBlank c = false ∧ c ≠ ';' := by
  rcases h c hc with hd | rfl | rfl
  · obtain ⟨h0, h9⟩ := Char.isDigit_iff_toNat.mp hd
    change 48 ≤ c.toNat at h0
    change c.toNat ≤ 57 at h9
    constructor
    · simp only [isBlank, Bool.or_eq_false_iff, Bool.and_eq_false_iff, decide_eq_false_iff_not,
        beq_eq_false_iff_ne]
      omega
    · rintro rfl
      exact absurd h9 (by decide)
  · exact ⟨rfl, by decide⟩
  · exact ⟨rfl, by decide⟩

/-! ### Reflected words -/

namespace Word

/-- The reflection of a word, or the word itself if it has none. -/
def reflected (keepOffsets : Bool) (w : Word) : Word := (w.reflected? keepOffsets).getD w

/-- What a reflection can be: a horizontal word with the opposite number, or an arc
the other way around. -/
theorem reflected?_cases {keepOffsets : Bool} {w w' : Word} (h : w.reflected? keepOffsets = some w') :
    (w.isHorizontal keepOffsets = true ∧
      ∃ x, w.number = .ok x ∧ w' = ⟨w.letter, Numeral.opposite x⟩) ∨
    ∃ v v', w = ⟨'G', v⟩ ∧ w' = ⟨'G', v'⟩ ∧
      ((v, v') = (['2'], ['3']) ∨ (v, v') = (['0', '2'], ['0', '3']) ∨
        (v, v') = (['3'], ['2']) ∨ (v, v') = (['0', '3'], ['0', '2'])) := by
  obtain ⟨letter, value⟩ := w
  unfold reflected? at h
  split_ifs at h with hhor hg
  · cases hn : number ⟨letter, value⟩ with
    | error cause => rw [hn] at h; cases h
    | ok x => rw [hn] at h; cases h; exact .inl ⟨hhor, x, rfl, rfl⟩
  · dsimp only at h hg
    subst hg
    split at h <;> cases h <;> exact .inr ⟨_, _, rfl, rfl, by simp⟩

/-- A horizontal word with a number changes the sign of the number. -/
theorem reflected?_of_number {keepOffsets : Bool} {w : Word} {x : Float}
    (h : w.isHorizontal keepOffsets = true) (hx : w.number = .ok x) :
    w.reflected? keepOffsets = some ⟨w.letter, Numeral.opposite x⟩ := by
  simp [reflected?, h, hx]

theorem horizontal_letter {keepOffsets : Bool} {w : Word} (h : w.isHorizontal keepOffsets = true) :
    w.letter = 'X' ∨ w.letter = 'I' := by
  unfold isHorizontal at h
  simp only [Bool.or_eq_true, beq_iff_eq, Bool.and_eq_true] at h
  exact h.imp_right And.left

/-- A word with another letter than those of horizontal words and motions stays. -/
theorem reflected_of_letter {keepOffsets : Bool} {w : Word}
    (h : w.letter ≠ 'X' ∧ w.letter ≠ 'I' ∧ w.letter ≠ 'G') : w.reflected? keepOffsets = none := by
  rw [Option.eq_none_iff_forall_ne_some]
  intro w' hw
  rcases reflected?_cases hw with ⟨hhor, -⟩ | ⟨v, v', rfl, -⟩
  · exact (horizontal_letter hhor).elim h.1 h.2.1
  · exact h.2.2 rfl

@[simp] theorem letter_reflected (keepOffsets : Bool) (w : Word) :
    (w.reflected keepOffsets).letter = w.letter := by
  unfold reflected
  cases h : w.reflected? keepOffsets with
  | none => rfl
  | some w' =>
    rcases reflected?_cases h with ⟨-, x, -, rfl⟩ | ⟨v, v', rfl, rfl, -⟩ <;> rfl

/-- A reflected word asks the machine for the same thing. -/
@[simp] theorem command_reflected (keepOffsets : Bool) (w : Word) :
    (w.reflected keepOffsets).command = w.command := by
  unfold reflected
  cases h : w.reflected? keepOffsets with
  | none => rfl
  | some w' =>
    rcases reflected?_cases h with ⟨hhor, x, -, rfl⟩ | ⟨v, v', rfl, rfl, hv⟩
    · obtain ⟨letter, value⟩ := w
      rcases horizontal_letter hhor with rfl | rfl <;> rfl
    · rcases hv with hv | hv | hv | hv <;> cases hv <;> rfl

/-- A reflected word selects the same motion, the other way around. -/
theorem motion_reflected (keepOffsets : Bool) (w : Word) :
    (w.reflected keepOffsets).motion = w.motion.map Motion.reverse := by
  unfold reflected
  cases h : w.reflected? keepOffsets with
  | none =>
    -- without a reflection the word is no arc, and a straight motion has no winding
    obtain ⟨letter, value⟩ := w
    unfold motion
    dsimp only [Option.getD_none]
    split_ifs with hg
    · subst hg
      split <;> first | rfl | cases h
    · rfl
  | some w' =>
    rcases reflected?_cases h with ⟨hhor, x, -, rfl⟩ | ⟨v, v', rfl, rfl, hv⟩
    · obtain ⟨letter, value⟩ := w
      rcases horizontal_letter hhor with rfl | rfl <;> rfl
    · rcases hv with hv | hv | hv | hv <;> cases hv <;> rfl

/-- The number of a reflected horizontal word is the opposite number. -/
theorem number_reflected {keepOffsets : Bool} {w : Word} (h : w.isHorizontal keepOffsets = true)
    {x : Float} (hx : w.number = .ok x) :
    ∃ y, (w.reflected keepOffsets).number = .ok y ∧ SameNumber y (-x) := by
  have hfinite := ((number_eq_ok_iff w x).mp hx).2.2
  obtain ⟨y, hread, hy, hsame⟩ := Numeral.read?_opposite hfinite
  have hreflected : w.reflected keepOffsets = ⟨w.letter, Numeral.opposite x⟩ := by
    unfold reflected reflected?
    rw [if_pos h, hx]
    rfl
  have hne : Numeral.opposite x ≠ [] := by
    intro hnil
    rw [hnil] at hread
    cases hread
  refine ⟨y, ?_, hsame⟩
  rw [hreflected, number_eq_ok_iff]
  exact ⟨hne, hread, hy⟩

/-- A word that holds no number is not changed, unless it is a motion. -/
theorem number_reflected_error {keepOffsets : Bool} {w : Word} {cause : NumeralError}
    (h : w.isHorizontal keepOffsets = true) (hx : w.number = .error cause) :
    (w.reflected keepOffsets).number = .error cause := by
  unfold reflected reflected?
  rw [if_pos h, hx]
  exact hx

/-- A reflected word is a letter in upper case and a numeral. -/
theorem isNumeral_reflected {keepOffsets : Bool} {w w' : Word}
    (h : w.reflected? keepOffsets = some w') :
    (w'.letter = 'X' ∨ w'.letter = 'I' ∨ w'.letter = 'G') ∧ IsNumeral w'.value := by
  rcases reflected?_cases h with ⟨hhor, x, hx, rfl⟩ | ⟨v, v', rfl, rfl, hv⟩
  · refine ⟨(horizontal_letter hhor).imp_right .inl, ?_⟩
    exact Numeral.isNumeral_opposite ((number_eq_ok_iff w x).mp hx).2.2
  · refine ⟨.inr (.inr rfl), ?_⟩
    rcases hv with hv | hv | hv | hv <;> cases hv <;> simp [IsNumeral]

/-- The text of a reflected word is that of a word again. -/
theorem ofPiece?_text_reflected {keepOffsets : Bool} {w w' : Word}
    (h : w.reflected? keepOffsets = some w') : ofPiece? w'.text = some w' := by
  obtain ⟨letter, value⟩ := w'
  rcases (isNumeral_reflected h).1 with hl | hl | hl <;> dsimp only at hl <;> rw [hl] <;> rfl

/-- The text of a reflected word has neither blanks nor semicolons in it. -/
theorem text_reflected {keepOffsets : Bool} {w w' : Word} (h : w.reflected? keepOffsets = some w') :
    Text.IsPiece w'.text ∧ ';' ∉ w'.text := by
  obtain ⟨letter, value⟩ := w'
  obtain ⟨hletter, hvalue⟩ := isNumeral_reflected h
  have hpiece : ∀ c ∈ value, isBlank c = false := by
    intro c hc
    exact (hvalue.not_mem hc).1
  have hsemicolon : ';' ∉ value := by
    intro hc
    exact (hvalue.not_mem hc).2 rfl
  rcases hletter with hl | hl | hl <;> dsimp only at hl <;> rw [hl, text_mk] <;>
    exact ⟨.cons rfl hpiece, List.not_mem_cons_of_ne_of_not_mem (by decide) hsemicolon⟩

end Word

/-! ### Reflected lines -/

namespace Reflection

/-- A piece of a line after the reflection of the line. -/
def newPiece (keepOffsets : Bool) (p : Text) : Text := (piece? keepOffsets p).getD p

theorem exists_of_piece? {keepOffsets : Bool} {p q : Text} (h : piece? keepOffsets p = some q) :
    ∃ w w', Word.ofPiece? p = some w ∧ w.reflected? keepOffsets = some w' ∧ q = w'.text := by
  unfold piece? at h
  obtain ⟨w', hw', rfl⟩ := Option.map_eq_some_iff.mp h
  obtain ⟨w, hw, hreflected⟩ := Option.bind_eq_some_iff.mp hw'
  exact ⟨w, w', hw, hreflected, rfl⟩

/-- The word of a piece is reflected with it. -/
theorem ofPiece?_newPiece (keepOffsets : Bool) (p : Text) :
    Word.ofPiece? (newPiece keepOffsets p) = (Word.ofPiece? p).map (Word.reflected keepOffsets) := by
  unfold newPiece
  cases h : piece? keepOffsets p with
  | none =>
    rw [Option.getD_none]
    cases hw : Word.ofPiece? p with
    | none => rfl
    | some w =>
      have hnone : w.reflected? keepOffsets = none := by simpa [piece?, hw] using h
      rw [Option.map_some, Word.reflected, hnone, Option.getD_none]
  | some q =>
    obtain ⟨w, w', hw, hreflected, rfl⟩ := exists_of_piece? h
    rw [Option.getD_some, Word.ofPiece?_text_reflected hreflected, hw, Option.map_some,
      Word.reflected, hreflected, Option.getD_some]

/-- A reflected piece of a line is a piece again, with no semicolon in it. -/
theorem isPiece_newPiece (keepOffsets : Bool) {p t : Text} (h : p ∈ Text.pieces (Line.code t)) :
    Text.IsPiece (newPiece keepOffsets p) ∧ ';' ∉ newPiece keepOffsets p := by
  unfold newPiece
  cases hq : piece? keepOffsets p with
  | none =>
    refine ⟨Text.isPiece_of_mem_pieces h, ?_⟩
    intro hc
    exact Line.semicolon_not_mem_code t (Text.mem_of_mem_pieces h hc)
  | some q =>
    obtain ⟨w, w', -, hreflected, rfl⟩ := exists_of_piece? hq
    exact Word.text_reflected hreflected

/-- The pieces of a line with the reflected ones in their places. -/
def newPieces (t : Text) : List Text :=
  (Text.pieces (Line.code t)).map (newPiece (keepsOffsets (Line.tokens t)))

/-- Pieces beside what becomes of them are the new pieces. -/
theorem map_zip_piece? (keepOffsets : Bool) (ps : List Text) :
    ((ps.zip (ps.map (piece? keepOffsets))).map fun (old, new) => new.getD old) =
      ps.map (newPiece keepOffsets) := by
  induction ps with
  | nil => rfl
  | cons p ps ih =>
    rw [List.map_cons, List.zip_cons_cons, List.map_cons, ih, List.map_cons]
    rfl

/-- Some word of the line is reflected. -/
def Changes (t : Text) : Prop :=
  ∃ w ∈ Line.tokens t, w.reflected? (keepsOffsets (Line.tokens t)) ≠ none

/-- A piece of a line is reflected exactly if a word of it is. -/
theorem any_isSome_iff (t : Text) :
    ((Text.pieces (Line.code t)).map (piece? (keepsOffsets (Line.tokens t)))).any Option.isSome =
      true ↔ Changes t := by
  unfold Changes
  generalize keepsOffsets (Line.tokens t) = keep
  rw [List.any_map, List.any_eq_true]
  constructor
  · rintro ⟨p, hp, hsome⟩
    obtain ⟨q, hq⟩ := Option.isSome_iff_exists.mp hsome
    obtain ⟨w, w', hw, hreflected, -⟩ := exists_of_piece? hq
    exact ⟨w, List.mem_filterMap.mpr ⟨p, hp, hw⟩, by rw [hreflected]; simp⟩
  · rintro ⟨w, hmem, hreflected⟩
    obtain ⟨p, hp, hw⟩ := List.mem_filterMap.mp hmem
    refine ⟨p, hp, ?_⟩
    rw [Function.comp_apply, piece?, hw, Option.bind_some, Option.isSome_map, Option.isSome_iff_ne_none]
    exact hreflected

/-- A line with a reflected word is joined from its new pieces. -/
theorem line_of_changes {t : Text} (h : Changes t) :
    line t = match Line.comment? t with
      | some comment => Text.joined (newPieces t) ++ ' ' :: ';' :: comment
      | none => Text.joined (newPieces t) := by
  have hzip := map_zip_piece? (keepsOffsets (Line.tokens t)) (Text.pieces (Line.code t))
  unfold line
  dsimp only
  rw [if_pos ((any_isSome_iff t).mpr h)]
  cases Line.comment? t with
  | none => exact congrArg Text.joined hzip
  | some comment => exact congrArg (fun ps => Text.joined ps ++ ' ' :: ';' :: comment) hzip

/-- A line without a reflected word stays as it is. -/
theorem line_of_not_changes {t : Text} (h : ¬ Changes t) :
    line t = t ∧ newPieces t = Text.pieces (Line.code t) := by
  have hany := mt (any_isSome_iff t).mp h
  have hsame : ∀ p ∈ Text.pieces (Line.code t),
      newPiece (keepsOffsets (Line.tokens t)) p = id p := by
    intro p hp
    have hnone : piece? (keepsOffsets (Line.tokens t)) p = none := by
      rw [← Option.not_isSome_iff_eq_none]
      intro hsome
      exact hany (List.any_eq_true.mpr ⟨_, List.mem_map_of_mem hp, hsome⟩)
    rw [newPiece, hnone]
    rfl
  exact ⟨if_neg hany, (List.map_congr_left hsame).trans (List.map_id _)⟩

/-- A line without a reflected word stays, and any other is joined from its new
pieces. -/
theorem line_cases (t : Text) :
    (line t = t ∧ newPieces t = Text.pieces (Line.code t)) ∨
    (Changes t ∧ line t = match Line.comment? t with
      | some comment => Text.joined (newPieces t) ++ ' ' :: ';' :: comment
      | none => Text.joined (newPieces t)) := by
  by_cases h : Changes t
  · exact .inr ⟨h, line_of_changes h⟩
  · exact .inl (line_of_not_changes h)

theorem isPiece_of_mem_newPieces {t p : Text} (h : p ∈ newPieces t) : Text.IsPiece p ∧ ';' ∉ p := by
  obtain ⟨q, hq, rfl⟩ := List.mem_map.mp h
  exact isPiece_newPiece _ hq

theorem semicolon_not_mem_joined (t : Text) : ';' ∉ Text.joined (newPieces t) := by
  intro h
  rcases Text.mem_joined h with h | ⟨p, hp, hc⟩
  · exact absurd h (by decide)
  · exact (isPiece_of_mem_newPieces hp).2 hc

/-- A reflected line has its new pieces and the comment of the line. -/
theorem pieces_line (t : Text) :
    Text.pieces (Line.code (line t)) = newPieces t ∧
      Line.comment? (line t) = Line.comment? t := by
  have hpiece : ∀ p ∈ newPieces t, Text.IsPiece p := by
    intro p hp
    exact (isPiece_of_mem_newPieces hp).1
  have hsemicolon := semicolon_not_mem_joined t
  rcases line_cases t with ⟨hline, hpieces⟩ | ⟨-, hline⟩
  · rw [hline, hpieces]
    exact ⟨rfl, rfl⟩
  · cases hcomment : Line.comment? t with
    | none =>
      rw [hcomment] at hline
      dsimp only at hline
      rw [hline, Line.code_of_not_mem hsemicolon, Line.comment?_of_not_mem hsemicolon,
        Text.pieces_joined hpiece]
      exact ⟨rfl, rfl⟩
    | some comment =>
      rw [hcomment] at hline
      dsimp only at hline
      -- the space in front of the comment belongs to the code, and makes no piece there
      have hspace : ';' ∉ Text.joined (newPieces t) ++ [' '] := by simp [hsemicolon]
      rw [hline, List.append_cons, Line.code_append_semicolon hspace,
        Line.comment?_append_semicolon hspace, Text.pieces_append_singleton isBlank_space,
        Text.pieces_joined hpiece]
      exact ⟨rfl, rfl⟩

/-- **The words of a reflected line are the reflected words of the line.** -/
theorem tokens_line (t : Text) : Line.tokens (line t) =
    (Line.tokens t).map (Word.reflected (keepsOffsets (Line.tokens t))) := by
  rw [Line.tokens, (pieces_line t).1, newPieces, List.filterMap_map]
  generalize keepsOffsets (Line.tokens t) = keep
  unfold Line.tokens
  rw [List.map_filterMap]
  exact List.filterMap_congr fun p _ => ofPiece?_newPiece keep p

/-- The comment of a reflected line is the comment of the line. -/
theorem comment?_line (t : Text) : Line.comment? (line t) = Line.comment? t := (pieces_line t).2

end Reflection
end PenPlotter
