import Mathlib
import PenPlotter.Proofs.Numeral.Shortest
import PenPlotter.Proofs.Reflection.Words

/-!
# A line is reflected word by word

Reflecting the text of a line and then reading it gives the same as reading the line
and then reflecting its words, each on its own.  All that a word needs to know of its
line is whether there is a word `M101`.

## Main definitions

* `Line.IsHorizontal` — a word of the line counts from left to right.
* `Word.Turned` — the values of arc words, and what they become.
* `Word.Mirrors` — what a word of a line becomes.

## Main results

* `Mirrors.unique` — there is one word that a word of a line becomes.
* `mirrors_reflected` — it is the reflection of the word.
* `ofText_line` — **a reflected line is read as the reflected words and the comment.**
-/

namespace PenPlotter

open Binary64

/-- A word of the line holds an X coordinate or, without a word `M101` on the line, the
X offset of an arc centre. -/
def Line.IsHorizontal (l : Line) (w : Word) : Prop :=
  w.letter = 'X' ∨ (w.letter = 'I' ∧ l.hasWord 'M' ['1', '0', '1'] = false)

namespace Word

/-- The value of an arc word, and that of an arc the other way around. -/
inductive Turned : Text → Text → Prop
  | clockwise : Turned ['2'] ['3']
  | clockwisePadded : Turned ['0', '2'] ['0', '3']
  | counterClockwise : Turned ['3'] ['2']
  | counterClockwisePadded : Turned ['0', '3'] ['0', '2']

/-- What a word of the line becomes: a horizontal number changes its sign and is written as
its shortest numeral, a zero without a sign; an arc turns the other way; and any other word
stays. -/
inductive Mirrors (l : Line) (w : Word) : Word → Prop
  | zero {x : Float} (hhor : l.IsHorizontal w) (hx : w.number = .ok x) (hzero : (x == 0) = true) :
      Mirrors l w ⟨w.letter, ['0']⟩
  | number {x : Float} {value : Text} (hhor : l.IsHorizontal w) (hx : w.number = .ok x)
      (hzero : (x == 0) = false) (hvalue : Numeral.IsShortest (-x) value) :
      Mirrors l w ⟨w.letter, value⟩
  | arc {value : Text} (hletter : w.letter = 'G') (hvalue : Turned w.value value) :
      Mirrors l w ⟨'G', value⟩
  | same (hnumber : l.IsHorizontal w → ∀ x, w.number ≠ .ok x)
      (harc : w.letter = 'G' → ∀ value, ¬ Turned w.value value) : Mirrors l w w

variable {l : Line} {w : Word}

theorem isHorizontal_iff_line :
    w.isHorizontal (l.hasWord 'M' ['1', '0', '1']) = true ↔ l.IsHorizontal w := by
  simp [isHorizontal, Line.IsHorizontal]

theorem not_isHorizontal_of_arc (h : w.letter = 'G') : ¬ l.IsHorizontal w := by
  simp [Line.IsHorizontal, h]

theorem Turned.unique {v a b : Text} (ha : Turned v a) (hb : Turned v b) : a = b := by
  cases ha <;> cases hb <;> rfl

/-- There is one word that a word of a line becomes. -/
theorem Mirrors.unique {a b : Word} (ha : Mirrors l w a) (hb : Mirrors l w b) : a = b := by
  cases ha with
  | zero hhor hx hzero =>
    cases hb with
    | zero _ _ _ => rfl
    | number _ hy hne _ =>
      cases hx.symm.trans hy
      simp [hzero] at hne
    | arc hletter _ => exact absurd hhor (not_isHorizontal_of_arc hletter)
    | same hnumber _ => exact absurd hx (hnumber hhor _)
  | number hhor hx hne hvalue =>
    cases hb with
    | zero _ hy hzero =>
      cases hx.symm.trans hy
      simp [hzero] at hne
    | number _ hy _ hvalue' =>
      cases hx.symm.trans hy
      have hfinite := (isFinite_neg _).trans (isFinite_of_number hx)
      rw [hvalue.unique hfinite ((neg_beq_zero _).trans hne) hvalue']
    | arc hletter _ => exact absurd hhor (not_isHorizontal_of_arc hletter)
    | same hnumber _ => exact absurd hx (hnumber hhor _)
  | arc hletter hvalue =>
    cases hb with
    | zero hhor _ _ => exact absurd hhor (not_isHorizontal_of_arc hletter)
    | number hhor _ _ _ => exact absurd hhor (not_isHorizontal_of_arc hletter)
    | arc _ hvalue' => rw [hvalue.unique hvalue']
    | same _ harc => exact absurd hvalue (harc hletter _)
  | same hnumber harc =>
    cases hb with
    | zero hhor hx _ => exact absurd hx (hnumber hhor _)
    | number hhor hx _ _ => exact absurd hx (hnumber hhor _)
    | arc hletter hvalue => exact absurd hvalue (harc hletter _)
    | same _ _ => rfl

/-- An arc word has a reflection. -/
theorem Turned.reflected? {v v' : Text} (h : Turned v v') (keepOffsets : Bool) :
    Word.reflected? keepOffsets ⟨'G', v⟩ = some ⟨'G', v'⟩ := by
  cases h <;> rfl

/-- **The reflection of a word is what it becomes.** -/
theorem mirrors_reflected (l : Line) (w : Word) :
    Mirrors l w (w.reflected (l.hasWord 'M' ['1', '0', '1'])) := by
  cases h : w.reflected? (l.hasWord 'M' ['1', '0', '1']) with
  | none =>
    rw [reflected, h, Option.getD_none]
    refine .same ?_ ?_
    · intro hhor x hx
      have hsome := reflected?_of_number (isHorizontal_iff_line.mpr hhor) hx
      rw [h] at hsome
      cases hsome
    · obtain ⟨letter, value⟩ := w
      rintro rfl v hturned
      rw [hturned.reflected?] at h
      cases h
  | some w' =>
    rw [reflected, h, Option.getD_some]
    rcases reflected?_cases h with ⟨hhor, x, hx, rfl⟩ | ⟨v, v', rfl, rfl, hv⟩
    · rw [isHorizontal_iff_line] at hhor
      cases hzero : x == 0 with
      | true =>
        rw [Numeral.opposite_of_zero hzero]
        exact .zero hhor hx hzero
      | false =>
        have hfinite := (isFinite_neg x).trans (isFinite_of_number hx)
        rw [Numeral.opposite_of_ne_zero hzero]
        exact .number hhor hx hzero
          (Numeral.write_isShortest hfinite ((neg_beq_zero x).trans hzero))
    · refine .arc rfl ?_
      rcases hv with hv | hv | hv | hv <;> cases hv <;> constructor

end Word

/-! ### Lines -/

/-- **A reflected line is read as the reflected words of the line**, one for each and in
their order, and as the comment of the line. -/
theorem Reflection.ofText_line (t : Text) :
    (Line.ofText (line t)).comment = (Line.ofText t).comment ∧
      List.Forall₂ (Word.Mirrors (Line.ofText t))
        (Line.ofText t).words (Line.ofText (line t)).words := by
  constructor
  · simp [comment?_line]
  · rw [Line.words_ofText, Line.words_ofText, tokens_line, List.forall₂_map_right_iff,
      List.forall₂_same]
    intro w _
    exact Word.mirrors_reflected (Line.ofText t) w

end PenPlotter
