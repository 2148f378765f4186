import PenPlotter.Word

/-!
# Notices

What a pass over a program reports on the side, for a log: lines it could not
read, lines it dropped, and how much it made of the rest.

## Main definitions

* `Notice` — the events that are reported.
* `Notice.level`, `Notice.text` — how they are reported.
-/

namespace PenPlotter

/-- How much a notice matters. -/
inductive Level
  | debug
  | info
  | warn
  deriving DecidableEq, Repr

/-- The name of the level in a log. -/
def Level.name : Level → String
  | debug => "DEBUG"
  | info => "INFO"
  | warn => "WARN"

/-- Something worth a line in a log. -/
inductive Notice
  /-- A word was not reflected since it holds no number. -/
  | notReflected (word : Word) (cause : NumeralError)
  /-- The estimate could not read a line to its end. -/
  | unreadable (line : Nat) (content : Text) (cause : NumeralError)
  /-- An estimate is done. -/
  | estimated (segments : Nat) (millimetres milliseconds : Float)
  /-- The toolpath leaves out a tool change without a usable number. -/
  | badToolId (line : Nat) (content : Text)
  /-- The toolpath leaves out a line that it cannot read. -/
  | skipped (line : Nat) (content : Text) (cause : NumeralError)
  /-- An arc is drawn with fewer strokes than its length asks for. -/
  | longArc (line : Nat) (millimetres : Float) (strokes : Nat)
  /-- A toolpath is done. -/
  | compiled (lines nodes : Nat)
  /-- A cache compiles the toolpath again. -/
  | rebuilding (lines : Nat)
  /-- A line held bytes that are no characters. -/
  | damaged (line : Nat) (content : Text)
  /-- A document is loaded. -/
  | loaded (lines segments : Nat) (millimetres milliseconds : Float)
  deriving DecidableEq, Repr

namespace Notice

def level : Notice → Level
  | unreadable .. | longArc .. => .warn
  | loaded .. => .info
  | _ => .debug

/-- A number rounded to some decimal places. -/
def rounded (places : Nat) (x : Float) : String := String.ofList (Numeral.fixed places x)

/-- The notice in words. -/
def text : Notice → String
  | notReflected word cause =>
    s!"Not mirroring '{String.ofList word.text}': {cause.message}"
  | unreadable line content cause =>
    s!"Error on line {line}: '{String.ofList content}' ({cause.message})"
  | estimated segments millimetres milliseconds =>
    s!"Estimated {segments} segments, {rounded 1 millimetres} mm, {rounded 0 milliseconds} ms"
  | badToolId line content =>
    s!"Skipping line {line}: bad tool id in '{String.ofList content}'"
  | skipped line content cause =>
    s!"Skipping line {line}: {cause.message} in '{String.ofList content}'"
  | longArc line millimetres strokes =>
    s!"Arc on line {line} is {rounded 0 millimetres} mm long, " ++
      s!"drawing it with {strokes} segments"
  | compiled lines nodes => s!"Compiled {lines} lines into {nodes} nodes"
  | rebuilding lines => s!"Rebuilding node cache from {lines} lines"
  | damaged line content =>
    s!"Line {line} is not valid UTF-8, replaced: '{String.ofList content}'"
  | loaded lines segments millimetres milliseconds =>
    s!"Loaded {lines} lines ({segments} segments, {rounded 1 millimetres} mm, " ++
      s!"{rounded 1 (milliseconds / 1000)} s)"

end Notice
end PenPlotter
