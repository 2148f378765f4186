import PenPlotter.Text

/-!
# TOML values

A document is a table.  Which tables may still be extended depends on how they
came about and on what has led through them, so that each table remembers it.

## Main definitions

* `Value`, `Table` — values, and tables as lists of entries.
* `TableKind.through` — which paths lead into a table, and what they leave behind.
* `Table.update` — changes the table at the end of a path.
* `Table.assign` — a key, dotted or not, with its value.
* `Table.openTable`, `Table.openElement` — the headers `[a.b]` and `[[a.b]]`.
-/

namespace PenPlotter
namespace Toml

/-- How a table came about. -/
inductive TableKind
  /-- It has a header of its own, or is the document itself. -/
  | header
  /-- It is on the path of a header. -/
  | implicit
  /-- It is on the path of a dotted key. -/
  | dotted
  /-- It is written between braces, and closed behind them. -/
  | inline
  deriving DecidableEq, Repr

/-- How a table stands once a path has led through it, if a path may.  No path
leads into a table between braces, and no dotted key into a table with a header.
A table on the path of a header becomes one of the dotted key that leads through
it, and can no longer get a header of its own. -/
def TableKind.through (dotted : Bool) : TableKind → Option TableKind
  | header => if dotted then none else some header
  | implicit => some (if dotted then .dotted else implicit)
  | .dotted => some .dotted
  | inline => none

/-- A value. -/
inductive Value
  | string (text : Text)
  | integer (n : Int)
  | float (x : Float)
  | boolean (b : Bool)
  /-- A date, a time of day, or both. -/
  | moment
  | array (items : List Value)
  | table (kind : TableKind) (entries : List (Text × Value))
  /-- An array of tables made by headers, the latest one first. -/
  | elements (items : List (List (Text × Value)))
  deriving Inhabited

/-- A table: keys with values, in the order of the document. -/
abbrev Table := List (Text × Value)

namespace Table

/-- The value of a key. -/
def get? (t : Table) (key : Text) : Option Value := t.lookup key

/-- A key with a new value; one that is there already keeps its place. -/
def put (t : Table) (key : Text) (v : Value) : Table :=
  if (t.get? key).isSome then t.map fun (k, old) => (k, if k == key then v else old)
  else t ++ [(key, v)]

/-- Changes the table at the end of a path.  Tables that are missing on the way
are made.  An array of tables stands for its latest element. -/
def update (dotted : Bool) (change : TableKind → Table → Option Table) :
    List Text → TableKind → Table → Option Table
  | [], kind, t => change kind t
  | key :: rest, _, t =>
    match t.get? key with
    | none =>
      let kind : TableKind := if dotted then .dotted else .implicit
      (update dotted change rest kind []).map fun sub => t.put key (.table kind sub)
    | some (.table kind sub) =>
      match kind.through dotted with
      | some kind =>
        (update dotted change rest kind sub).map fun sub => t.put key (.table kind sub)
      | none => none
    | some (.elements (latest :: earlier)) =>
      (update dotted change rest .header latest).map fun sub =>
        t.put key (.elements (sub :: earlier))
    | some _ => none

/-- Adds an entry to a table that does not have the key. -/
def add (key : Text) (v : Value) (t : Table) : Option Table :=
  if (t.get? key).isSome then none else some (t.put key v)

/-- Adds an entry at a dotted key.  A dotted key must not end in an element of an
array of tables, and a plain key must not end in a table made by dotted keys. -/
def assign (path : List Text) (v : Value) (kind : TableKind) (t : Table) : Option Table :=
  match path.getLast? with
  | none => none
  | some key =>
    let parents := path.dropLast
    update true
      (fun kind t =>
        if decide (kind = .dotted) == parents.isEmpty then none else add key v t)
      parents kind t

/-- Adds an entry to the table under the current header. -/
def assignUnder (header path : List Text) (v : Value) (t : Table) : Option Table :=
  update false (assign path v) header .header t

/-- The header of a table.  The table must be new, or made by the path of another
header. -/
def openTable (path : List Text) (t : Table) : Option Table :=
  match path.getLast? with
  | none => none
  | some key =>
    update false
      (fun _ t =>
        match t.get? key with
        | none => some (t.put key (.table .header []))
        | some (.table .implicit entries) => some (t.put key (.table .header entries))
        | some _ => none)
      path.dropLast .header t

/-- The header of an element of an array of tables. -/
def openElement (path : List Text) (t : Table) : Option Table :=
  match path.getLast? with
  | none => none
  | some key =>
    update false
      (fun _ t =>
        match t.get? key with
        | none => some (t.put key (.elements [[]]))
        | some (.elements items) => some (t.put key (.elements ([] :: items)))
        | some _ => none)
      path.dropLast .header t

end Table
end Toml
end PenPlotter
