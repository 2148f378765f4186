import PenPlotter.Motion
import PenPlotter.Numeral

/-!
# Words

A word is a letter with a value glued to it, such as `G1` or `X-10.5`.  The
value is kept as written; reading it as a number may fail, and then the failure
says whether there was nothing to read or nothing that is a number.

## Main definitions

* `Word`, `Word.ofPiece?`, `Word.text` — words, and how they are read and shown.
* `Word.number` — the finite number that the value denotes.
* `Word.motion` — the motion that a word selects.
* `Word.command` — what a word asks of the machine, its number left unread.
-/

namespace PenPlotter

/-- A letter and the text glued to it. -/
structure Word where
  /-- The letter, in upper case. -/
  letter : Char
  /-- The text behind the letter, as written. -/
  value : Text
  deriving DecidableEq, Repr

/-- Why the value of a word is not a number. -/
inductive NumeralError
  /-- The letter stands alone. -/
  | missing (letter : Char)
  /-- The text behind the letter denotes no finite number. -/
  | malformed (letter : Char) (value : Text)
  deriving DecidableEq, Repr

/-- The failure in words. -/
def NumeralError.message : NumeralError → String
  | missing letter => s!"word '{letter}' has no value"
  | malformed letter value => s!"'{letter}{String.ofList value}' is not a number"

namespace Word

/-- The word that a blank-free piece of a line spells, if it starts with a letter
from `A` to `Z` in either case. -/
def ofPiece? : Text → Option Word
  | [] => none
  | c :: value => if c.isAlpha then some ⟨c.toUpper, value⟩ else none

/-- The letter and the value again. -/
def text (w : Word) : Text := w.letter :: w.value

/-- The finite number that the value denotes. -/
def number (w : Word) : Except NumeralError Float :=
  if w.value.isEmpty then .error (.missing w.letter)
  else
    match Numeral.read? w.value with
    | some x => if x.isFinite then .ok x else .error (.malformed w.letter w.value)
    | none => .error (.malformed w.letter w.value)

/-- The word has this letter and exactly this value. -/
def isExactly (w : Word) (letter : Char) (value : Text) : Bool :=
  w.letter == letter && w.value == value

/-- The motion selected by a word `G0` to `G3`; a zero may stand before the digit. -/
def motion (w : Word) : Option Motion :=
  if w.letter = 'G' then
    match w.value with
    | ['0'] | ['0', '0'] | ['1'] | ['0', '1'] => some .linear
    | ['2'] | ['0', '2'] => some (.arc .clockwise)
    | ['3'] | ['0', '3'] => some (.arc .counterClockwise)
    | _ => none
  else none

@[simp] theorem ofPiece?_nil : ofPiece? [] = none := rfl

@[simp] theorem text_mk (letter : Char) (value : Text) :
    text ⟨letter, value⟩ = letter :: value := rfl

end Word

/-! ### Commands -/

/-- The length unit of coordinates. -/
inductive Units
  | millimetres
  | inches
  deriving DecidableEq, Repr, Inhabited

/-- Millimetres in one unit. -/
def Units.scale : Units → Float
  | millimetres => 1.0
  | inches => 25.4

/-- What a numeral in a word sets. -/
inductive Quantity
  | x
  | y
  | z
  /-- The first coordinate of the centre of an arc, from the start of the line. -/
  | centerX
  /-- The second coordinate of the centre of an arc, from the start of the line. -/
  | centerY
  | feedRate
  | acceleration
  deriving DecidableEq, Repr

/-- The quantity is a speed limit and not a place. -/
def Quantity.isRate : Quantity → Bool
  | feedRate | acceleration => true
  | _ => false

/-- What a word asks of the machine. -/
inductive Command
  /-- Measure coordinates in these units from here on. -/
  | units (units : Units)
  /-- Take coordinates from the origin, or else from the current position. -/
  | absolute (on : Bool)
  /-- Set a quantity to the number of the word. -/
  | assign (quantity : Quantity)
  /-- Nothing that changes the state. -/
  | other
  deriving DecidableEq, Repr

/-- The command of a word, decided by its letter, and by its value for `G` words. -/
def Word.command (w : Word) : Command :=
  match w.letter with
  | 'G' =>
    match w.value with
    | ['2', '0'] => .units .inches
    | ['2', '1'] => .units .millimetres
    | ['9', '0'] => .absolute true
    | ['9', '1'] => .absolute false
    | _ => .other
  | 'X' => .assign .x
  | 'Y' => .assign .y
  | 'Z' => .assign .z
  | 'I' => .assign .centerX
  | 'J' => .assign .centerY
  | 'F' => .assign .feedRate
  | 'A' => .assign .acceleration
  | _ => .other

end PenPlotter
