import PenPlotter.Line

/-!
# Reflecting programs

A program that is to be drawn on the back of a transparent sheet is reflected
left to right: X coordinates and the X offsets of arc centres change sign, and
arcs turn the other way.  Everything happens word by word, so `G20` is never
taken for an arc; a line with nothing to reflect stays as it was written.

## Main definitions

* `Word.reflected?` — the reflection of a word, if the word has one.
* `Reflection.line`, `Reflection.program` — the reflection of a line and of a program.
* `Reflection.unread` — the words that would be reflected if they held a number.
-/

namespace PenPlotter

/-- The numeral of a number with its sign changed; zero is written without one. -/
def Numeral.opposite (x : Float) : Text := if -x == 0 then ['0'] else Numeral.write (-x)

/-- The word holds an X coordinate or, unless offsets are to be kept, the X
offset of an arc centre. -/
def Word.isHorizontal (keepOffsets : Bool) (w : Word) : Bool :=
  w.letter == 'X' || (w.letter == 'I' && !keepOffsets)

/-- The reflection of a word: a horizontal number changes sign and an arc turns
the other way.  `none` if there is nothing to reflect. -/
def Word.reflected? (keepOffsets : Bool) (w : Word) : Option Word :=
  if w.isHorizontal keepOffsets then
    match w.number with
    | .ok x => some ⟨w.letter, Numeral.opposite x⟩
    | .error _ => none
  else if w.letter = 'G' then
    match w.value with
    | ['2'] => some ⟨'G', ['3']⟩
    | ['0', '2'] => some ⟨'G', ['0', '3']⟩
    | ['3'] => some ⟨'G', ['2']⟩
    | ['0', '3'] => some ⟨'G', ['0', '2']⟩
    | _ => none
  else none

namespace Reflection

/-- `M101` carries data of its own in its `I` word, which is no offset. -/
def keepsOffsets (words : List Word) : Bool := words.any fun w => w.isExactly 'M' ['1', '0', '1']

/-- The reflection of one blank-free piece of a line, if it changes. -/
def piece? (keepOffsets : Bool) (piece : Text) : Option Text :=
  ((Word.ofPiece? piece).bind (Word.reflected? keepOffsets)).map Word.text

/-- The reflection of a line.  If a word changes, the pieces are joined by single
spaces and the comment follows; if none does, the line stays as it was. -/
def line (t : Text) : Text :=
  let pieces := Text.pieces (Line.code t)
  let reflected := pieces.map (piece? (keepsOffsets (Line.tokens t)))
  if reflected.any Option.isSome then
    let code := Text.joined ((pieces.zip reflected).map fun (old, new) => new.getD old)
    match Line.comment? t with
    | some comment => code ++ ' ' :: ';' :: comment
    | none => code
  else t

/-- The reflection of a program, line by line. -/
def program (lines : List Text) : List Text := lines.map line

/-- The horizontal words of a line that hold no number, each with the reason. -/
def unread (t : Text) : List (Word × NumeralError) :=
  let words := Line.tokens t
  words.filterMap fun w =>
    if w.isHorizontal (keepsOffsets words) then
      match w.number with
      | .ok _ => none
      | .error cause => some (w, cause)
    else none

end Reflection
end PenPlotter
