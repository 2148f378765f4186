import PenPlotter.Text.Digits

/-!
# TOML strings

Strings are quoted once or three times, with double quotes if escapes are to be
read in them and with single quotes if not.  Each reader starts behind the
opening quotes and gives the text of the string and what follows it.

## Main definitions

* `basic?`, `literal?` — strings on one line, with and without escapes.
* `multiBasic?`, `multiLiteral?` — strings over several lines.
-/

namespace PenPlotter
namespace Toml

/-- The characters that may stand for themselves on a line: all but control
characters, of which the tab is allowed. -/
def isLineChar (c : Char) : Bool := c == '\t' || (0x20 ≤ c.toNat && c.toNat != 0x7F)

/-- A string with one more character in front, if there is such a character. -/
def consChar? (c : Option Char) (rest : Option (Text × Text)) : Option (Text × Text) :=
  match c, rest with
  | some c, some (text, rest) => some (c :: text, rest)
  | _, _ => none

/-- The character of a code point in hexadecimal digits. -/
def codePoint? (digits : Text) : Option Char :=
  (Text.ofDigits? 16 digits).bind fun n => if n.isValidChar then some (Char.ofNat n) else none

/-- The character of an escape of one letter. -/
def escaped? : Char → Option Char
  | 'b' => some '\x08'
  | 't' => some '\t'
  | 'n' => some '\n'
  | 'f' => some '\x0C'
  | 'r' => some '\r'
  | 'e' => some '\x1B'
  | '"' => some '"'
  | '\\' => some '\\'
  | _ => none

/-- A string in double quotes. -/
def basic? : Text → Option (Text × Text)
  | [] => none
  | '"' :: rest => some ([], rest)
  | '\\' :: 'x' :: a :: b :: rest => consChar? (codePoint? [a, b]) (basic? rest)
  | '\\' :: 'u' :: a :: b :: c :: d :: rest => consChar? (codePoint? [a, b, c, d]) (basic? rest)
  | '\\' :: 'U' :: a :: b :: c :: d :: e :: f :: g :: h :: rest =>
    consChar? (codePoint? [a, b, c, d, e, f, g, h]) (basic? rest)
  | '\\' :: c :: rest => consChar? (escaped? c) (basic? rest)
  | c :: rest => consChar? (if isLineChar c && c != '\\' then some c else none) (basic? rest)

/-- A string in single quotes. -/
def literal? : Text → Option (Text × Text)
  | [] => none
  | '\'' :: rest => some ([], rest)
  | c :: rest => consChar? (if isLineChar c then some c else none) (literal? rest)

/-- A string over several lines starts behind a newline right after its quotes. -/
def afterNewline : Text → Text
  | '\n' :: rest => rest
  | '\r' :: '\n' :: rest => rest
  | t => t

/-- A backslash in front of this text joins the next line to the one before. -/
def joinsLines (t : Text) : Bool :=
  match t.dropWhile fun c => c == ' ' || c == '\t' with
  | '\n' :: _ => true
  | '\r' :: '\n' :: _ => true
  | _ => false

/-- The characters left out behind a backslash at the end of a line. -/
def isJoint : Text → Bool
  | ' ' :: _ | '\t' :: _ | '\n' :: _ => true
  | '\r' :: '\n' :: _ => true
  | _ => false

/-- A string in three double quotes, of which up to two more may stand in front of
the closing ones.  While `joining`, line ends and blanks are left out. -/
def multiBasicFrom? (joining : Bool) : Text → Option (Text × Text)
  | [] => none
  | '"' :: '"' :: '"' :: '"' :: '"' :: rest => some (['"', '"'], rest)
  | '"' :: '"' :: '"' :: '"' :: rest => some (['"'], rest)
  | '"' :: '"' :: '"' :: rest => some ([], rest)
  | '\\' :: 'x' :: a :: b :: rest => consChar? (codePoint? [a, b]) (multiBasicFrom? false rest)
  | '\\' :: 'u' :: a :: b :: c :: d :: rest =>
    consChar? (codePoint? [a, b, c, d]) (multiBasicFrom? false rest)
  | '\\' :: 'U' :: a :: b :: c :: d :: e :: f :: g :: h :: rest =>
    consChar? (codePoint? [a, b, c, d, e, f, g, h]) (multiBasicFrom? false rest)
  | '\\' :: c :: rest =>
    if joinsLines (c :: rest) then multiBasicFrom? true rest
    else consChar? (escaped? c) (multiBasicFrom? false rest)
  | '\r' :: '\n' :: rest =>
    if joining then multiBasicFrom? true rest
    else consChar? (some '\n') (multiBasicFrom? false rest)
  | c :: rest =>
    if joining && isJoint (c :: rest) then multiBasicFrom? true rest
    else
      consChar? (if c == '\n' || (isLineChar c && c != '\\') then some c else none)
        (multiBasicFrom? false rest)

/-- A string in three double quotes. -/
def multiBasic? (t : Text) : Option (Text × Text) := multiBasicFrom? false (afterNewline t)

/-- The rest of a string in three single quotes, of which up to two more may stand
in front of the closing ones. -/
def multiLiteralFrom? : Text → Option (Text × Text)
  | [] => none
  | '\'' :: '\'' :: '\'' :: '\'' :: '\'' :: rest => some (['\'', '\''], rest)
  | '\'' :: '\'' :: '\'' :: '\'' :: rest => some (['\''], rest)
  | '\'' :: '\'' :: '\'' :: rest => some ([], rest)
  | '\r' :: '\n' :: rest => consChar? (some '\n') (multiLiteralFrom? rest)
  | c :: rest =>
    consChar? (if c == '\n' || isLineChar c then some c else none) (multiLiteralFrom? rest)

/-- A string in three single quotes. -/
def multiLiteral? (t : Text) : Option (Text × Text) := multiLiteralFrom? (afterNewline t)

end Toml
end PenPlotter
