import PenPlotter.Word

/-!
# Lines

A program line holds words, with blanks between them, and may end in a comment
behind its first semicolon.  Pieces that do not start with a letter are no words
and are skipped.

## Main definitions

* `Line.split` — the code of a line and its comment.
* `Line`, `Line.ofText` — the words of a line together with its comment.
* `Line.tokens` — the words alone.
* `Line.motion` — the motion of a line, which its first word decides.
-/

namespace PenPlotter

/-- A line that has been cut into words. -/
structure Line where
  words : List Word
  /-- What follows the first semicolon. -/
  comment : Option Text
  deriving DecidableEq, Repr

namespace Line

/-- The text before the first semicolon. -/
def code (t : Text) : Text := t.takeWhile (· != ';')

/-- The text behind the first semicolon, if there is one. -/
def comment? (t : Text) : Option Text := (t.dropWhile (· != ';')).tail?

/-- The text before the first semicolon and the text behind it. -/
def split (t : Text) : Text × Option Text := (code t, comment? t)

/-- The words of a line; its comment holds none. -/
def tokens (t : Text) : List Word := (Text.pieces (code t)).filterMap Word.ofPiece?

/-- The words and the comment of a line. -/
def ofText (t : Text) : Line := ⟨tokens t, comment? t⟩

/-- The motion of the line, which only its first word can select. -/
def motion (l : Line) : Option Motion := l.words.head?.bind Word.motion

/-- Some word has this letter and exactly this value. -/
def hasWord (l : Line) (letter : Char) (value : Text) : Bool :=
  l.words.any fun w => w.isExactly letter value

/-- The line has neither words nor a comment. -/
def isEmpty (l : Line) : Bool := l.words.isEmpty && l.comment.isNone

/-! ### Splitting -/

@[simp] theorem code_nil : code [] = [] := rfl

@[simp] theorem comment?_nil : comment? [] = none := rfl

@[simp] theorem code_semicolon (t : Text) : code (';' :: t) = [] := rfl

@[simp] theorem comment?_semicolon (t : Text) : comment? (';' :: t) = some t := rfl

theorem code_cons {c : Char} (h : c ≠ ';') (t : Text) : code (c :: t) = c :: code t := by
  simp [code, h]

theorem comment?_cons {c : Char} (h : c ≠ ';') (t : Text) : comment? (c :: t) = comment? t := by
  simp [comment?, h]

/-- Splitting loses nothing but says where the semicolon was. -/
theorem code_append_comment? (t : Text) :
    code t ++ (match comment? t with | some c => ';' :: c | none => []) = t := by
  induction t with
  | nil => rfl
  | cons c t ih =>
    by_cases h : c = ';'
    · subst h; simp
    · rw [code_cons h, comment?_cons h, List.cons_append, ih]

@[simp] theorem words_ofText (t : Text) : (ofText t).words = tokens t := rfl

@[simp] theorem comment_ofText (t : Text) : (ofText t).comment = comment? t := rfl

end Line
end PenPlotter
