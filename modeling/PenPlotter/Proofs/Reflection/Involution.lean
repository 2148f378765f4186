import Mathlib
import PenPlotter.Proofs.Binary64.Values
import PenPlotter.Proofs.Reflection.Words

/-!
# Reflecting more than once

The first reflection of a line may spell a number anew and set single spaces between
the words; from then on reflections only go back and forth between two lines.  A line
that is reflected twice has the words of the line itself, a horizontal number being
spelled as it is written.

## Main definitions

* `Word.Respelled` — the same word, or the same number behind a horizontal letter.

## Main results

* `opposite_twice` — an opposite numeral comes back after two more changes of sign.
* `reflected?_twice`, `newPiece_thrice` — so does a reflected word, and a reflected piece.
* `line_line_line` — **three reflections of a line are one.**
* `program_involutive` — **reflections are their own inverse** on what they give, and
  two of them leave the words of every line.
-/

namespace PenPlotter

open Binary64

/-- The same numbers compare as equal if they are finite. -/
theorem beq_of_sameNumber {x y : Float} (h : SameNumber x y) (hx : x.isFinite = true) :
    (x == y) = true := by
  rcases h with h | ⟨hnan, -⟩
  · exact h
  · rw [isNaN_of_isFinite hx] at hnan
    cases hnan

/-! ### Opposite numerals -/

namespace Numeral

/-- **An opposite numeral comes back after two more changes of sign**, and the number in
between is the number itself. -/
theorem opposite_twice {x : Float} (hx : x.isFinite = true) :
    ∃ y z, read? (opposite x) = some y ∧ y.isFinite = true ∧
      read? (opposite y) = some z ∧ z.isFinite = true ∧ SameNumber z x ∧
      opposite z = opposite x := by
  cases hzero : x == 0 with
  | true =>
    -- a zero is written without a sign, and stays
    have hwritten : opposite 0 = ['0'] := opposite_of_zero rfl
    refine ⟨0, 0, ?_, by decide, ?_, by decide, ?_, ?_⟩
    · rw [opposite_of_zero hzero]
      decide
    · rw [hwritten]
      decide
    · exact ((sameNumber_zero_iff x).mpr hzero).symm
    · rw [hwritten, opposite_of_zero hzero]
  | false =>
    have hneg : (-x).isFinite = true := (isFinite_neg x).trans hx
    have hback : opposite (-x) = write x := by
      rw [opposite_of_ne_zero (by rw [neg_beq_zero, hzero]), neg_neg_eq]
    refine ⟨-x, x, ?_, hneg, ?_, hx, .refl x, rfl⟩
    · rw [opposite_of_ne_zero hzero, read?_write hneg]
    · rw [hback, read?_write hx]

end Numeral

/-! ### Words -/

namespace Word

/-- The word itself or, behind the letter of a horizontal word, another spelling of an
equal number. -/
inductive Respelled (w : Word) : Word → Prop
  | same : Respelled w w
  | number {w' : Word} {x y : Float} (hletter : w.letter = 'X' ∨ w.letter = 'I')
      (hsame : w'.letter = w.letter) (hx : w.number = .ok x) (hy : w'.number = .ok y)
      (heq : (y == x) = true) : Respelled w w'

/-- A numeral that is read as a finite number makes a word with that number. -/
theorem number_mk {letter : Char} {value : Text} {x : Float} (h : Numeral.read? value = some x)
    (hx : x.isFinite = true) : number ⟨letter, value⟩ = .ok x := by
  rw [number_eq_ok_iff]
  refine ⟨?_, h, hx⟩
  rintro rfl
  cases h

/-- **A reflected word comes back after two more reflections**, and in between there is
the word itself with its number spelled anew. -/
theorem reflected?_twice {keepOffsets : Bool} {w w' : Word}
    (h : w.reflected? keepOffsets = some w') : ∃ w'', w'.reflected? keepOffsets = some w'' ∧
      w''.reflected? keepOffsets = some w' ∧ w.Respelled w'' := by
  rcases reflected?_cases h with ⟨hhor, x, hx, rfl⟩ | ⟨v, v', rfl, rfl, hv⟩
  · have hfinite := isFinite_of_number hx
    obtain ⟨y, z, hready, hy, hreadz, hz, hsame, hback⟩ := Numeral.opposite_twice hfinite
    have hnumber : number ⟨w.letter, Numeral.opposite y⟩ = .ok z := number_mk hreadz hz
    refine ⟨⟨w.letter, Numeral.opposite y⟩, ?_, ?_, ?_⟩
    · exact reflected?_of_number hhor (number_mk hready hy)
    · rw [reflected?_of_number (w := ⟨w.letter, Numeral.opposite y⟩) hhor hnumber, hback]
    · exact .number (horizontal_letter hhor) rfl hx hnumber (beq_of_sameNumber hsame hz)
  · -- the four arcs go back and forth in pairs
    rcases hv with hv | hv | hv | hv <;> cases hv <;> exact ⟨⟨'G', _⟩, rfl, rfl, .same⟩

/-- Two reflections leave a word, but for the spelling of its number. -/
theorem respelled_reflected (keepOffsets : Bool) (w : Word) :
    w.Respelled ((w.reflected keepOffsets).reflected keepOffsets) := by
  cases h : w.reflected? keepOffsets with
  | none =>
    have hw : w.reflected keepOffsets = w := by simp [reflected, h]
    rw [hw, hw]
    exact .same
  | some w' =>
    obtain ⟨w'', hw'', -, hrespelled⟩ := reflected?_twice h
    simpa [reflected, h, hw''] using hrespelled

/-- A reflection neither makes nor spoils a word that is no horizontal word and no motion. -/
theorem isExactly_reflected (keepOffsets : Bool) (w : Word) (value : Text) :
    (w.reflected keepOffsets).isExactly 'M' value = w.isExactly 'M' value := by
  by_cases hletter : w.letter = 'M'
  · have hnone : w.reflected? keepOffsets = none := reflected_of_letter (by simp [hletter])
    simp [reflected, hnone]
  · have hne : (w.letter == 'M') = false := beq_eq_false_iff_ne.mpr hletter
    simp [isExactly, hne]

end Word

/-! ### Lines -/

namespace Reflection

/-- The piece of a reflected word is the text of its reflection. -/
theorem newPiece_of_reflected? {keepOffsets : Bool} {w w' : Word} {p : Text}
    (h : w.reflected? keepOffsets = some w') (hp : Word.ofPiece? p = some w) :
    newPiece keepOffsets p = w'.text := by
  simp [newPiece, piece?, hp, h]

/-- **A reflected piece of a line comes back after two more reflections.** -/
theorem newPiece_thrice (keepOffsets : Bool) (p : Text) :
    newPiece keepOffsets (newPiece keepOffsets (newPiece keepOffsets p)) =
      newPiece keepOffsets p := by
  cases hp : piece? keepOffsets p with
  | none =>
    have hsame : newPiece keepOffsets p = p := by simp [newPiece, hp]
    rw [hsame, hsame, hsame]
  | some q =>
    obtain ⟨w, w', hw, hreflected, -⟩ := exists_of_piece? hp
    obtain ⟨w'', hback, hforth, -⟩ := Word.reflected?_twice hreflected
    rw [newPiece_of_reflected? hreflected hw,
      newPiece_of_reflected? hback (Word.ofPiece?_text_reflected hreflected),
      newPiece_of_reflected? hforth (Word.ofPiece?_text_reflected hback)]

/-- Whether offsets are kept does not change with a reflection. -/
theorem keepsOffsets_line (t : Text) :
    keepsOffsets (Line.tokens (line t)) = keepsOffsets (Line.tokens t) := by
  simp [tokens_line, keepsOffsets, List.any_map, Function.comp_def, Word.isExactly_reflected]

theorem newPieces_line (t : Text) :
    newPieces (line t) = (newPieces t).map (newPiece (keepsOffsets (Line.tokens t))) := by
  rw [newPieces, (pieces_line t).1, keepsOffsets_line]

/-- A line with a reflected word has one again when it is reflected. -/
theorem changes_line {t : Text} (h : Changes t) : Changes (line t) := by
  obtain ⟨w, hw, hne⟩ := h
  obtain ⟨w', hreflected⟩ := Option.ne_none_iff_exists'.mp hne
  obtain ⟨w'', hback, -, -⟩ := Word.reflected?_twice hreflected
  refine ⟨w', ?_, by simp [keepsOffsets_line, hback]⟩
  rw [tokens_line]
  exact List.mem_map.mpr ⟨w, hw, by simp [Word.reflected, hreflected]⟩

/-- **Three reflections of a line are one.** -/
theorem line_line_line (t : Text) : line (line (line t)) = line t := by
  by_cases h : Changes t
  · have hpieces : newPieces (line (line t)) = newPieces t := by
      rw [newPieces_line, newPieces_line, keepsOffsets_line, newPieces, List.map_map, List.map_map]
      exact List.map_congr_left fun p _ => newPiece_thrice _ p
    rw [line_of_changes (changes_line (changes_line h)), hpieces, comment?_line, comment?_line,
      ← line_of_changes h]
  · have hsame := (line_of_not_changes h).1
    rw [hsame, hsame, hsame]

/-- A text that has the comment of the line and its words, but for the spelling of
horizontal numbers. -/
structure Respelled (t u : Text) : Prop where
  comment : (Line.ofText u).comment = (Line.ofText t).comment
  words : List.Forall₂ Word.Respelled (Line.ofText t).words (Line.ofText u).words

/-- **Two reflections leave the comment and the words of a line.** -/
theorem respelled_line_line (t : Text) : Respelled t (line (line t)) where
  comment := by simp [comment?_line]
  words := by
    rw [Line.words_ofText, Line.words_ofText, tokens_line (line t), keepsOffsets_line, tokens_line t,
      List.map_map, List.forall₂_map_right_iff, List.forall₂_same]
    intro w _
    exact Word.respelled_reflected _ w

/-- **Reflections are their own inverse on what they give**, for lines and for whole
programs; and two of them leave comments and words, but for the spelling of horizontal
numbers. -/
theorem program_involutive :
    (∀ t, line (line (line t)) = line t ∧ Respelled t (line (line t))) ∧
    ∀ p, program (program (program p)) = program p ∧
      List.Forall₂ Respelled p (program (program p)) := by
  refine ⟨?_, ?_⟩
  · intro t
    exact ⟨line_line_line t, respelled_line_line t⟩
  · intro p
    constructor
    · simp [program, line_line_line]
    · rw [program, program, List.map_map, List.forall₂_map_right_iff, List.forall₂_same]
      intro t _
      exact respelled_line_line t

end Reflection
end PenPlotter
