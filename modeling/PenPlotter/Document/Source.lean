import PenPlotter.Reflection
import PenPlotter.Notice
import PenPlotter.Text.Utf8

/-!
# The lines of a file

Bytes are cut into lines at newlines.  A newline may have a carriage return in
front of it, and a file may start with a byte order mark; neither belongs to a
line.  Bytes that are no UTF-8 are shown as U+FFFD, so that they spoil only the
line they stand on.

## Main definitions

* `Source` — where the bytes come from, and how reading them may fail.
* `rawLines` — the bytes of each line.
* `lineText` — the text of a line from its bytes.
* `Source.lines` — the lines of a program, reflected on demand.
-/

namespace PenPlotter

/-- Where the bytes of a program come from. -/
inductive Source
  /-- All the bytes can be read. -/
  | bytes (content : List UInt8)
  /-- Reading fails behind these bytes.  A read that gives no bytes is the end of
  the program, and nothing fails behind it. -/
  | broken (content : List UInt8) (message : String)
  /-- The first read fails, or there is nothing to read from. -/
  | missing (message : String)
  deriving DecidableEq, Repr

/-- The newline byte. -/
def newline : UInt8 := 10

/-- The carriage return byte. -/
def carriageReturn : UInt8 := 13

/-- The byte order mark, U+FEFF. -/
def byteOrderMark : List UInt8 := [0xEF, 0xBB, 0xBF]

/-- The bytes of each line, without the newline that ends it.  The last line need
not have one; behind a newline at the very end there is no line. -/
def rawLines : List UInt8 → List (List UInt8)
  | [] => []
  | b :: rest =>
    if b == newline then [] :: rawLines rest
    else
      match rawLines rest with
      | line :: others => (b :: line) :: others
      | [] => [[b]]

/-- The bytes without a carriage return at their end. -/
def stripReturn (line : List UInt8) : List UInt8 :=
  if line.getLast? = some carriageReturn then line.dropLast else line

/-- The bytes without a byte order mark at their start. -/
def stripMark (line : List UInt8) : List UInt8 :=
  if byteOrderMark.isPrefixOf line then line.drop byteOrderMark.length else line

/-- The items of a line: characters, and runs of damaged bytes.  Only the first
line of a file can start with a byte order mark. -/
def lineItems (index : Nat) (raw : List UInt8) : List (Option Char) :=
  let raw := stripReturn raw
  Utf8.decode (if index = 0 then stripMark raw else raw)

/-- The text of a line. -/
def lineText (index : Nat) (raw : List UInt8) : Text := Utf8.shown (lineItems index raw)

/-- The texts of the lines, the first one having an index. -/
def lineTexts : Nat → List (List UInt8) → List Text
  | _, [] => []
  | index, raw :: rest => lineText index raw :: lineTexts (index + 1) rest

/-- The lines of a program in bytes; reflected for the back of glass on demand. -/
def programLines (reverse : Bool) (content : List UInt8) : List Text :=
  let lines := lineTexts 0 (rawLines content)
  if reverse then Reflection.program lines else lines

@[simp] theorem rawLines_nil : rawLines [] = [] := rfl

@[simp] theorem rawLines_newline (rest : List UInt8) :
    rawLines (newline :: rest) = [] :: rawLines rest := rfl

@[simp] theorem lineTexts_nil (index : Nat) : lineTexts index [] = [] := rfl

@[simp] theorem lineTexts_cons (index : Nat) (raw : List UInt8) (rest : List (List UInt8)) :
    lineTexts index (raw :: rest) = lineText index raw :: lineTexts (index + 1) rest := rfl

/-! ### Notices -/

/-- What reflecting a line reports. -/
def reflectionNotices (line : Text) : List Notice :=
  (Reflection.unread line).map fun (word, cause) => .notReflected word cause

/-- What reading lines reports: damaged bytes and, line by line, words that were
not reflected. -/
def lineNotices (reverse : Bool) : Nat → List (List UInt8) → List Notice
  | _, [] => []
  | index, raw :: rest =>
    let items := lineItems index raw
    let text := Utf8.shown items
    (if items.all Option.isSome then [] else [Notice.damaged index text]) ++
      (if reverse then reflectionNotices text else []) ++ lineNotices reverse (index + 1) rest

/-- The bytes up to the last newline. -/
def wholeLines (content : List UInt8) : List UInt8 :=
  (content.reverse.dropWhile (· != newline)).reverse

namespace Source

/-- The lines of a program, or why they cannot be read. -/
def lines (reverse : Bool) : Source → Except String (List Text)
  | bytes content => .ok (programLines reverse content)
  | broken content message => if content.isEmpty then .ok [] else .error message
  | missing message => .error message

/-- What reading a program reports.  A line that reading fails on is not looked at. -/
def notices (reverse : Bool) : Source → List Notice
  | bytes content => lineNotices reverse 0 (rawLines content)
  | broken content _ => lineNotices reverse 0 (rawLines (wholeLines content))
  | missing _ => []

end Source
end PenPlotter
