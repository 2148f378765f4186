import PenPlotter.CommandLine.Configuration
import PenPlotter.Document
import PenPlotter.Json

/-!
# Reports

What a run tells about a program: its totals, how far it is played back, the
lines that were not fully read and, on demand, its toolpath.

## Main definitions

* `Report`, `Report.ofDocument` — the contents of a report.
* `Report.text` — the report in lines of text.
* `Report.json` — the report as data.
-/

namespace PenPlotter
namespace CommandLine

/-- The contents of a report. -/
structure Report where
  program : Text
  stats : Stats
  cursor : Cursor
  /-- The line from which the run is resumed. -/
  resumeLine : Option Nat
  counts : PhaseCounts
  holderPoint : Option Point
  diagnostics : List Diagnostic
  /-- The nodes to list, each with its phase. -/
  nodes : Option (List (Node × Phase))
  deriving DecidableEq, Repr

/-- The document with its cursor at the line from which the run is resumed. -/
def resume (c : Configuration) (d : Document) : Option Nat × Document :=
  match c.resumeFrom with
  | none => (none, d)
  | some line =>
    let found := d.lastPenLift line c.settings.liftLine
    (some found, d.seek found)

/-- The report on a loaded document. -/
def Report.ofDocument [Trigonometry] (c : Configuration) (d : Document) : Report :=
  let (resumeLine, d) := resume c d
  let nodes := (d.toolpath c.settings).1.nodes
  let position := d.cursor.position
  let lookAhead := c.settings.lookAhead
  let phased := nodes.map fun node => (node, node.phase position lookAhead)
  { program := c.program
    stats := d.estimate.stats
    cursor := d.cursor
    resumeLine
    counts := phaseCounts nodes position lookAhead
    holderPoint := PenPlotter.holderPoint nodes position
    diagnostics := d.estimate.diagnostics
    nodes :=
      if c.showNodes then some (phased.filter fun (_, p) => p.isShown c.settings.drawAll)
      else none }

/-! ### Text -/

/-- The whole seconds of a time, rounded to nanoseconds first.  A time below zero
or beyond 64 bits counts as none. -/
def wholeSeconds (seconds : Float) : Nat :=
  if 0 ≤ seconds && seconds < 18446744073709551616.0 then
    ((Magnitude.ofFloat seconds).toPlaces 9).coefficient / 1000000000
  else 0

/-- A number of at most two digits, in two digits. -/
def twoDigits (n : Nat) : String := if n < 10 then s!"0{n}" else s!"{n}"

/-- A time as hours, minutes and seconds. -/
def duration (milliseconds : Float) : String :=
  let seconds := wholeSeconds (milliseconds / 1000)
  let minutes := seconds / 60
  s!"{minutes / 60}:{twoDigits (minutes % 60)}:{twoDigits (seconds % 60)}"

/-- The name of a phase in a list of nodes. -/
def phaseTitle : Phase → String
  | .executed => "Executed"
  | .upcoming => "Upcoming"
  | .future => "Future"

/-- A text with blanks in front of it up to a width. -/
def alignRight (width : Nat) (s : String) : String :=
  String.ofList (List.replicate (width - s.length) ' ') ++ s

/-- A text with blanks behind it up to a width. -/
def alignLeft (width : Nat) (s : String) : String :=
  s ++ String.ofList (List.replicate (width - s.length) ' ')

/-- A point with a number of decimal places. -/
def pointText (places : Nat) (p : Point) : String :=
  s!"{Notice.rounded places p.x}, {Notice.rounded places p.y}"

/-- The line of a node. -/
def nodeLine (node : Node) (p : Phase) : String :=
  let label := s!"  {alignRight 6 (toString node.line)} {alignLeft 9 (phaseTitle p)} " ++
    String.ofList node.color.hex
  match node with
  | .stroke s => s!"{label} ({pointText 3 s.start}) -> ({pointText 3 s.stop})"
  | .toolChange .. => s!"{label} tool change"

/-- The line of a program line that was not fully read. -/
def diagnosticLine (d : Diagnostic) : String :=
  s!"  line {d.line}: '{String.ofList d.content}' ({d.message})"

/-- The lines of a report. -/
def Report.lines (r : Report) : List String :=
  [ String.ofList r.program,
    s!"  lines:     {r.cursor.total} (cursor at {r.cursor.position})",
    s!"  segments:  {r.stats.segments}",
    s!"  length:    {Notice.rounded 1 r.stats.millimetres} mm",
    s!"  time:      {duration r.stats.milliseconds}" ] ++
  (r.resumeLine.map fun line => s!"  resume at: line {line}").toList ++
  (r.holderPoint.map fun p => s!"  pen at:    {pointText 2 p}").toList ++
  [ s!"  progress:  {r.counts.executed} executed, {r.counts.upcoming} upcoming, " ++
      s!"{r.counts.future} future" ] ++
  r.diagnostics.map diagnosticLine ++
  (r.nodes.getD []).map fun (node, p) => nodeLine node p

/-- The report in lines of text. -/
def Report.text (r : Report) : String := String.join (r.lines.map fun line => line ++ "\n")

/-! ### Data -/

/-- The name of a phase in data. -/
def phaseName : Phase → Json
  | .executed => .string "executed".toList
  | .upcoming => .string "upcoming".toList
  | .future => .string "future".toList

/-- The fields of a node. -/
def nodeFields : Node → List (String × Json)
  | .stroke s =>
    [ ("kind", .string "position".toList),
      ("from_x", .float s.start.x),
      ("from_y", .float s.start.y),
      ("to_x", .float s.stop.x),
      ("to_y", .float s.stop.y),
      ("color", .string s.color.hex),
      ("source_line", .natural s.line) ]
  | .toolChange color line =>
    [ ("kind", .string "tool_change".toList),
      ("color", .string color.hex),
      ("source_line", .natural line) ]

/-- A value that may be missing. -/
def optional (f : α → Json) : Option α → Json
  | some x => f x
  | none => .null

/-- The report as data. -/
def Report.json (r : Report) : Json :=
  .object
    ([ ("program", .string r.program),
       ("stats", .object
          [ ("estimated_time_ms", .float r.stats.milliseconds),
            ("estimated_length_mm", .float r.stats.millimetres),
            ("segment_count", .natural r.stats.segments) ]),
       ("cursor", .object
          [ ("lines_processed", .natural r.cursor.position),
            ("total_lines", .natural r.cursor.total),
            ("is_open", .bool r.cursor.isOpen) ]),
       ("resume_line", optional .natural r.resumeLine),
       ("progress", .object
          [ ("executed", .natural r.counts.executed),
            ("upcoming", .natural r.counts.upcoming),
            ("future", .natural r.counts.future) ]),
       ("pen_position", optional (fun p => .array [.float p.x, .float p.y]) r.holderPoint),
       ("diagnostics", .array (r.diagnostics.map fun d => .object
          [ ("line", .natural d.line),
            ("content", .string d.content),
            ("message", .string d.message.toList) ])) ] ++
     (r.nodes.map fun nodes =>
        ("nodes", Json.array (nodes.map fun (node, p) =>
          .object (nodeFields node ++ [("progress", phaseName p)])))).toList)

end CommandLine
end PenPlotter
