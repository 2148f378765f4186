/-!
# Text

Program lines, numerals and settings are read as lists of characters, so that
whatever reads them is a recursion on a list.  *Blank* means the Unicode
property `White_Space`; programs are cut into pieces at blanks and trimmed of
them at both ends.

## Main definitions

* `Text` — a list of characters.
* `isBlank` — the characters with the property `White_Space`.
* `Text.trim`, `Text.trimStart` — text without the blanks around it.
* `Text.pieces` — the maximal blank-free runs of a text, in order.
* `Text.joined` — pieces written with one space between neighbours.
-/

namespace PenPlotter

/-- Text: the characters in reading order. -/
abbrev Text := List Char

/-- The characters with the Unicode property `White_Space`. -/
def isBlank (c : Char) : Bool :=
  let n := c.toNat
  (0x09 ≤ n && n ≤ 0x0D) || n == 0x20 || n == 0x85 || n == 0xA0 || n == 0x1680 ||
    (0x2000 ≤ n && n ≤ 0x200A) || n == 0x2028 || n == 0x2029 || n == 0x202F || n == 0x205F ||
    n == 0x3000

theorem isBlank_space : isBlank ' ' = true := rfl

theorem not_isBlank_semicolon : isBlank ';' = false := rfl

namespace Text

/-- The text of a string. -/
def ofString (s : String) : Text := s.toList

/-! ### Trimming -/

/-- The text from its first character that is not blank. -/
def trimStart (t : Text) : Text := t.dropWhile isBlank

/-- The text up to its last character that is not blank. -/
def trimEnd (t : Text) : Text := (t.reverse.dropWhile isBlank).reverse

/-- The text without the blanks at both ends. -/
def trim (t : Text) : Text := trimEnd (trimStart t)

@[simp] theorem trimStart_nil : trimStart [] = [] := rfl

@[simp] theorem trim_nil : trim [] = [] := rfl

theorem trimStart_cons_of_blank {c : Char} (h : isBlank c = true) (t : Text) :
    trimStart (c :: t) = trimStart t := by
  simp [trimStart, h]

theorem trimStart_cons_of_not_blank {c : Char} (h : isBlank c = false) (t : Text) :
    trimStart (c :: t) = c :: t := by
  simp [trimStart, h]

/-! ### Pieces -/

/-- Puts a character that is not blank in front of the pieces of the text behind
it: it joins the piece that starts right there, or is a piece of its own. -/
def consPiece (c : Char) : Text → List Text → List Text
  | d :: _, piece :: others => if isBlank d then [c] :: piece :: others else (c :: piece) :: others
  | _, others => [c] :: others

/-- The maximal runs of characters that are not blank, in order. -/
def pieces : Text → List Text
  | [] => []
  | c :: rest => if isBlank c then pieces rest else consPiece c rest (pieces rest)

@[simp] theorem pieces_nil : pieces [] = [] := rfl

theorem pieces_cons_of_blank {c : Char} (h : isBlank c = true) (t : Text) :
    pieces (c :: t) = pieces t := by
  simp [pieces, h]

theorem pieces_cons_of_not_blank {c : Char} (h : isBlank c = false) (t : Text) :
    pieces (c :: t) = consPiece c t (pieces t) := by
  simp [pieces, h]

/-- The pieces with a single space between neighbours. -/
def joined (ps : List Text) : Text := [' '].intercalate ps

@[simp] theorem joined_nil : joined [] = [] := rfl

@[simp] theorem joined_singleton (p : Text) : joined [p] = p := by
  simp [joined, List.intercalate]

/-- The text starts with the given characters; the rest of it, if so. -/
def after? : Text → Text → Option Text
  | [], t => some t
  | c :: start, d :: t => if c = d then after? start t else none
  | _ :: _, [] => none

end Text

end PenPlotter
