import PenPlotter.CommandLine.Report

/-!
# Runs of the command

A run reads its arguments, its settings and the program, and ends in a report or
in a failure.

## Main definitions

* `Outcome` — how a run ends.
* `run` — a run on a host.
* `Outcome.exitCode`, `Outcome.output`, `Outcome.complaint` — what is seen of it.
-/

namespace PenPlotter
namespace CommandLine

/-- How a run ends. -/
inductive Outcome
  /-- The arguments are refused, or ask for help or the version. -/
  | arguments (cause : ArgumentError)
  /-- The settings cannot be had. -/
  | settings (cause : ConfigurationError)
  /-- The program cannot be loaded. -/
  | program (path : Text) (cause : DocumentError)
  /-- A report, as text or as data. -/
  | report (asJson : Bool) (report : Report)
  deriving DecidableEq, Repr

/-- The name and the version of the command. -/
def versionText : String := "gcode-plot 0.1.0"

/-- How the command is used. -/
def usageText : String :=
  "Usage: gcode-plot [OPTIONS] <FILE>\n\n" ++
  "  --settings <SETTINGS>    Machine settings TOML file\n" ++
  "  --mirror                 Mirror the program for drawing on the back of glass\n" ++
  "  --show-pen-up            Include moves made with the pen lifted\n" ++
  "  --json                   Print the report as JSON\n" ++
  "  --nodes                  List compiled toolpath nodes\n" ++
  "  --resume-from <LINE>     Report from the last pen lift before this line\n" ++
  "  --watch                  Report again whenever the file changes\n" ++
  "  --log-level <LOG_LEVEL>  Log level (trace, debug, info, warn, error)\n" ++
  "  -h, --help               Print help\n" ++
  "  -V, --version            Print version"

namespace Outcome

/-- Zero for a report and what was asked for instead of one, one for a failure on
the way, and two for arguments that are refused. -/
def exitCode : Outcome → UInt8
  | arguments .help | arguments .version | report .. => 0
  | settings _ | program .. => 1
  | arguments _ => 2

/-- What the run prints. -/
def output : Outcome → String
  | arguments .help => usageText ++ "\n"
  | arguments .version => versionText ++ "\n"
  | report true r => String.ofList r.json.pretty ++ "\n"
  | report false r => r.text
  | arguments _ | settings _ | program .. => ""

/-- What the run complains about. -/
def complaint : Outcome → Option String
  | settings cause => some cause.message
  | program path _ => some s!"Failed to load {String.ofList path}"
  | arguments _ | report .. => none

end Outcome

section

variable {m : Type → Type} [Monad m] [Trigonometry]

/-- Loads the program of a run and reports on it. -/
def runConfigured (host : Host m) (c : Configuration) : m Outcome := do
  let source : Source :=
    match ← host.contents c.program with
    | .ok content => .bytes content
    | .error reason => .missing reason
  match Document.open? c.settings source with
  | .ok d => pure (.report c.json (.ofDocument c d))
  | .error cause => pure (.program c.program cause)

/-- A run of the command with the arguments behind its name. -/
def run (host : Host m) (args : List Text) : m Outcome := do
  match Arguments.parse args with
  | .error cause => pure (.arguments cause)
  | .ok args =>
    match ← configure host args with
    | .error cause => pure (.settings cause)
    | .ok c => runConfigured host c

end

end CommandLine
end PenPlotter
