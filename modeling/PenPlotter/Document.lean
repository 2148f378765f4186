import PenPlotter.Document.Source
import PenPlotter.Estimate
import PenPlotter.Toolpath.Cache
import PenPlotter.Toolpath.Playback

/-!
# Documents

A document holds a program with all that hangs on it: the playback cursor, the
estimate, and the cache of its toolpath.  Loading replaces all of them together;
where it fails, all of them are cleared together.

## Main definitions

* `Cursor` — how far a program has been played back.
* `Document`, `Document.load`, `Document.clear`, `Document.close` — documents.
* `ReadError`, `DocumentError` — why a document refuses, or stops.
* `lineAt` — a look at a line.
* `Document.current`, `Document.advance`, `Document.seek` — playback.
* `Document.findPenLift`, `Document.lastPenLift` — the line from which a run can be resumed.
* `Document.toolpath`, `Document.toolpath?`, `Document.discardToolpath` — the toolpath.

## Main results

* `Document.exists_searchDown` — a search looks at no line that is not there.
-/

namespace PenPlotter

/-- How far a program has been played back. -/
structure Cursor where
  /-- The lines handed out so far, which is also the index of the next line. -/
  position : Nat := 0
  /-- The number of lines of the program. -/
  total : Nat := 0
  isOpen : Bool := false
  deriving DecidableEq, Repr, Inhabited

/-- There are lines left to hand out. -/
def Cursor.hasNext (c : Cursor) : Bool := c.isOpen && c.position < c.total

/-- Why something cannot be read. -/
inductive ReadError
  /-- The source of a program fails. -/
  | source (reason : String)
  /-- A line is looked up that is not there.  This is no refusal: the run stops. -/
  | outOfBounds (index length : Nat)
  deriving DecidableEq, Repr

/-- The failure in words. -/
def ReadError.message : ReadError → String
  | source reason => s!"failed to read G-code program: {reason}"
  | outOfBounds index length =>
    s!"index out of bounds: the len is {length} but the index is {index}"

/-- A look at a line. -/
def lineAt (lines : List Text) (index : Nat) : Except ReadError Text :=
  match lines[index]? with
  | some line => .ok line
  | none => .error (.outOfBounds index lines.length)

theorem lineAt_of_lt {lines : List Text} {index : Nat} (h : index < lines.length) :
    lineAt lines index = .ok lines[index] := by
  rw [lineAt, List.getElem?_eq_getElem h]

theorem lineAt_of_le {lines : List Text} {index : Nat} (h : lines.length ≤ index) :
    lineAt lines index = .error (.outOfBounds index lines.length) := by
  rw [lineAt, List.getElem?_eq_none h]

/-- Why a document refuses. -/
inductive DocumentError
  /-- The program, or a line of it, cannot be read. -/
  | unreadable (cause : ReadError)
  /-- There is no line at the cursor. -/
  | pastEnd (position total : Nat)
  deriving DecidableEq, Repr

/-- The refusal in words. -/
def DocumentError.message : DocumentError → String
  | unreadable cause => cause.message
  | pastEnd position total =>
    s!"cursor at line {position} is past the end of the program ({total} lines)"

/-- A program with its cursor, its estimate and the cache of its toolpath. -/
structure Document where
  lines : List Text := []
  cursor : Cursor := {}
  estimate : Estimate := {}
  cache : ToolpathCache := {}
  deriving DecidableEq, Repr, Inhabited

namespace Document

/-! ### Opening and closing -/

/-- Forgets the program, the cursor, the estimate and the toolpath. -/
def clear (d : Document) : Document := { cache := d.cache.discard }

/-- Closes the program; its estimate can still be read. -/
def close (d : Document) : Document :=
  if d.cursor.isOpen then
    { d with lines := [], cursor := {}, cache := d.cache.discard }
  else d

section

variable [Trigonometry]

/-- Replaces the program by given lines, with the cursor at the first of them. -/
def replace (d : Document) (s : Settings) (lines : List Text) : Document where
  lines := lines
  cursor := ⟨0, lines.length, true⟩
  estimate := PenPlotter.estimate s lines
  cache := d.cache.discard

/-- Replaces the program by that of a source.  If it cannot be read the document
is cleared. -/
def load (d : Document) (s : Settings) (source : Source) : Except DocumentError Stats × Document :=
  match source.lines s.reverseForGlass with
  | .ok lines =>
    let d := d.replace s lines
    (.ok d.estimate.stats, d)
  | .error reason => (.error (.unreadable (.source reason)), d.clear)

/-- A fresh document with the program of a source. -/
def open? (s : Settings) (source : Source) : Except DocumentError Document :=
  match load {} s source with
  | (.ok _, d) => .ok d
  | (.error cause, _) => .error cause

/-- What loading reports. -/
def loadNotices (s : Settings) (source : Source) : List Notice :=
  source.notices s.reverseForGlass ++
    match source.lines s.reverseForGlass with
    | .ok lines =>
      let e := PenPlotter.estimate s lines
      e.notices ++
        [.loaded lines.length e.stats.segments e.stats.millimetres e.stats.milliseconds]
    | .error _ => []

end

/-! ### Playback -/

/-- A program is open and has lines. -/
def hasProgram (d : Document) : Bool := d.cursor.isOpen && !d.lines.isEmpty

/-- The line at the cursor, if the cursor allows for one. -/
def current (d : Document) : Except DocumentError Text :=
  if d.cursor.hasNext then
    match lineAt d.lines d.cursor.position with
    | .ok line => .ok (Text.trim line)
    | .error cause => .error (.unreadable cause)
  else .error (.pastEnd d.cursor.position d.cursor.total)

/-- The line at the cursor; the cursor moves past it. -/
def advance (d : Document) : Except DocumentError Text × Document :=
  match d.current with
  | .ok line => (.ok line, { d with cursor.position := d.cursor.position + 1 })
  | .error cause => (.error cause, d)

/-- Moves the cursor to a line, or to the end if the program is shorter. -/
def seek (d : Document) (line : Nat) : Document :=
  { d with cursor.position := min line d.cursor.total }

/-- The greatest index from two up to `index` whose line is the marker but for
blanks around it; one if there is none. -/
def searchDown (lines : List Text) (marker : Text) : Nat → Except ReadError Nat
  | 0 => .ok 1
  | 1 => .ok 1
  | index + 2 =>
    match lineAt lines (index + 2) with
    | .ok line =>
      if Text.trim line = marker then .ok (index + 2) else searchDown lines marker (index + 1)
    | .error cause => .error cause

/-- What the search does with a line that it looks at. -/
theorem searchDown_add_two {lines : List Text} {index : Nat} (h : index + 2 < lines.length)
    (marker : Text) : searchDown lines marker (index + 2) =
      if Text.trim lines[index + 2] = marker then .ok (index + 2)
      else searchDown lines marker (index + 1) := by
  rw [searchDown, lineAt_of_lt h]

/-- A search from behind the program stops at once. -/
theorem searchDown_of_le {lines : List Text} {index : Nat} (h : lines.length ≤ index + 2)
    (marker : Text) : searchDown lines marker (index + 2) =
      .error (.outOfBounds (index + 2) lines.length) := by
  rw [searchDown, lineAt_of_le h]

/-- Behind two lines there is no third one to look at. -/
example : searchDown [['U'], ['D']] ['U'] 2 = .error (.outOfBounds 2 2) := rfl

/-- **A search looks at no line that is not there**: it ends well from every index of
the program, and also where there is nothing to look at. -/
theorem exists_searchDown {lines : List Text} (marker : Text) {index : Nat}
    (h : index < lines.length ∨ index ≤ 1) : ∃ found, searchDown lines marker index = .ok found := by
  match index with
  | 0 | 1 => exact ⟨1, rfl⟩
  | index + 2 =>
    rw [searchDown_add_two (by omega)]
    split
    · exact ⟨index + 2, rfl⟩
    · exact exists_searchDown marker (by omega)

/-- The search for the last line up to a given one, or up to the end of the program,
that is the marker but for blanks.  The first two lines are not looked at. -/
def findPenLift (d : Document) (line : Nat) (marker : Text) : Except ReadError Nat :=
  searchDown d.lines (Text.trim marker) (min line (d.lines.length - 1))

theorem exists_findPenLift (d : Document) (line : Nat) (marker : Text) :
    ∃ found, d.findPenLift line marker = .ok found :=
  exists_searchDown (Text.trim marker) (by omega)

theorem isSome_findPenLift (d : Document) (line : Nat) (marker : Text) :
    (d.findPenLift line marker).toOption.isSome = true := by
  obtain ⟨found, hfound⟩ := d.exists_findPenLift line marker
  rw [hfound]
  rfl

/-- The line that the search finds, or one if there is none. -/
def lastPenLift (d : Document) (line : Nat) (marker : Text) : Nat :=
  (d.findPenLift line marker).toOption.get (d.isSome_findPenLift line marker)

/-- **The search for a pen lift ends well**, whatever the program and the line. -/
theorem findPenLift_eq (d : Document) (line : Nat) (marker : Text) :
    d.findPenLift line marker = .ok (d.lastPenLift line marker) := by
  obtain ⟨found, hfound⟩ := d.exists_findPenLift line marker
  simp [lastPenLift, hfound, Except.toOption]

/-! ### The toolpath -/

/-- Gives up the compiled toolpath. -/
def discardToolpath (d : Document) : Document := { d with cache := d.cache.discard }

section

variable [Trigonometry]

/-- The toolpath, compiled on first use after a change of the program. -/
def toolpath (d : Document) (s : Settings) : Sequence × Document :=
  let (sequence, cache) := d.cache.fetch s d.lines
  (sequence, { d with cache })

/-- The toolpath, unless it is being compiled. -/
def toolpath? (d : Document) (s : Settings) : Option (Sequence × Document) :=
  (d.cache.fetch? s d.lines).map fun (sequence, cache) => (sequence, { d with cache })

end

end Document
end PenPlotter
