import PenPlotter.Toml.Quoted
import PenPlotter.Toml.Scalar

/-!
# TOML documents

A document is a sequence of entries `key = value`, headers and comments, each on
a line of its own.  A document that breaks a rule anywhere is refused as a whole,
and so is one that nests too deeply.  The readers take a bound on their steps; the
length of the document is enough, since every step takes a character.

## Main definitions

* `keyLimit`, `nestingLimit` — how long a key and how deep a value may be.
* `keyPath?`, `value?` — keys and values at the start of a text.
* `parse?` — the table of a document.
-/

namespace PenPlotter
namespace Toml

/-! ### Blanks and comments -/

/-- The text behind blanks within a line. -/
def skipSpace (t : Text) : Text := t.dropWhile fun c => c == ' ' || c == '\t'

/-- The text behind blanks, line ends and comments. -/
def skipVoid (inComment : Bool) : Text → Text
  | [] => []
  | '\r' :: '\n' :: rest => skipVoid false rest
  | c :: rest =>
    if c == '\n' then skipVoid false rest
    else if inComment then if isLineChar c then skipVoid true rest else c :: rest
    else if c == ' ' || c == '\t' then skipVoid false rest
    else if c == '#' then skipVoid true rest
    else c :: rest

/-- The text of the next line, if nothing but a comment is left on this one. -/
def nextLine? (t : Text) : Option Text :=
  let t := skipSpace t
  let t := if t.head? = some '#' then t.dropWhile isLineChar else t
  match t with
  | [] => some []
  | '\n' :: rest => some rest
  | '\r' :: '\n' :: rest => some rest
  | _ => none

/-! ### Keys -/

/-- The characters of keys without quotes. -/
def isKeyChar (c : Char) : Bool := c.isAlphanum || c == '-' || c == '_'

/-- One part of a key. -/
def keyPart? : Text → Option (Text × Text)
  | '"' :: rest => basic? rest
  | '\'' :: rest => literal? rest
  | t => if (t.takeWhile isKeyChar).isEmpty then none else some (t.span isKeyChar)

/-- The most parts of a key. -/
def keyLimit : Nat := 80

/-- A key of at most so many parts, with points between them. -/
def keyParts? : Nat → Text → Option (List Text × Text)
  | 0, _ => none
  | limit + 1, t => do
    let (part, t) ← keyPart? t
    match skipSpace t with
    | '.' :: t =>
      let (parts, t) ← keyParts? limit (skipSpace t)
      some (part :: parts, t)
    | t => some ([part], t)

/-- The key at the start of a text, and what follows it and the blanks behind it. -/
def keyPath? (t : Text) : Option (List Text × Text) := keyParts? keyLimit t

/-! ### Values -/

/-- How deep arrays and tables between braces may stand in each other. -/
def nestingLimit : Nat := 80

/-- A string as a value. -/
def stringValue (read : Option (Text × Text)) : Option (Value × Text) :=
  read.map fun (text, rest) => (.string text, rest)

mutual

/-- The value at the start of a text, and what follows it.  Arrays and tables in it
stand at most `depth` deep in each other. -/
def value? : Nat → Nat → Text → Option (Value × Text)
  | 0, _, _ => none
  | fuel + 1, depth, t =>
    match t with
    | '"' :: '"' :: '"' :: rest => stringValue (multiBasic? rest)
    | '"' :: rest => stringValue (basic? rest)
    | '\'' :: '\'' :: '\'' :: rest => stringValue (multiLiteral? rest)
    | '\'' :: rest => stringValue (literal? rest)
    | '[' :: rest =>
      match depth with
      | 0 => none
      | depth + 1 => do
        let (items, rest) ← items? fuel depth (skipVoid false rest)
        some (.array items, rest)
    | '{' :: rest =>
      match depth with
      | 0 => none
      | depth + 1 => do
        let (entries, rest) ← entries? fuel depth [] (skipVoid false rest)
        some (.table .inline entries, rest)
    | t => do
      let (token, rest) := splitScalar t
      let v ← scalar? token
      some (v, rest)

/-- The values of an array up to its closing bracket. -/
def items? : Nat → Nat → Text → Option (List Value × Text)
  | 0, _, _ => none
  | _ + 1, _, ']' :: rest => some ([], rest)
  | fuel + 1, depth, t => do
    let (v, t) ← value? fuel depth t
    match skipVoid false t with
    | ',' :: t =>
      let (others, t) ← items? fuel depth (skipVoid false t)
      some (v :: others, t)
    | ']' :: t => some ([v], t)
    | _ => none

/-- The entries of a table between braces, added to those read so far.  Between
braces lines may end anywhere but inside a key. -/
def entries? : Nat → Nat → Table → Text → Option (Table × Text)
  | 0, _, _, _ => none
  | _ + 1, _, t, '}' :: rest => some (t, rest)
  | fuel + 1, depth, t, text => do
    let (path, text) ← keyPath? text
    let text ← Text.after? ['='] (skipVoid false text)
    let (v, text) ← value? fuel depth (skipVoid false text)
    let t ← t.assign path v .header
    match skipVoid false text with
    | ',' :: text => entries? fuel depth t (skipVoid false text)
    | '}' :: text => some (t, text)
    | _ => none

end

/-! ### Documents -/

/-- The lines of a document, added to a table under the current header. -/
def lines? : Nat → List Text → Table → Text → Option Table
  | 0, _, _, _ => none
  | fuel + 1, header, t, text =>
    match skipVoid false text with
    | [] => some t
    | '[' :: '[' :: text => do
      let (path, text) ← keyPath? (skipSpace text)
      let text ← Text.after? [']', ']'] text
      let text ← nextLine? text
      let t ← t.openElement path
      lines? fuel path t text
    | '[' :: text => do
      let (path, text) ← keyPath? (skipSpace text)
      let text ← Text.after? [']'] text
      let text ← nextLine? text
      let t ← t.openTable path
      lines? fuel path t text
    | text => do
      let (path, text) ← keyPath? text
      let text ← Text.after? ['='] text
      let (v, text) ← value? fuel nestingLimit (skipSpace text)
      let text ← nextLine? text
      let t ← t.assignUnder header path v
      lines? fuel header t text

/-- The table of a document, which may start with a byte order mark. -/
def parse? (text : Text) : Option Table :=
  let text := if text.head? = some '\uFEFF' then text.tail else text
  lines? (text.length + 2) [] [] text

end Toml
end PenPlotter
