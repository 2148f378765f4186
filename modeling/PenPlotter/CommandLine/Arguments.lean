import PenPlotter.Text.Digits

/-!
# Command line arguments

The command takes one program file, and options that start with two dashes.
Options may have a value, glued on behind an equals sign or as the next argument.
Everything behind two dashes alone is a file.

## Main definitions

* `Flag`, `ValueOption` — the options without and with a value.
* `Arguments`, `Arguments.parse` — the arguments, read from left to right.
* `ArgumentError` — why arguments are refused, or answered by something else.
-/

namespace PenPlotter
namespace CommandLine

/-- Options without a value. -/
inductive Flag
  | mirror
  | showPenUp
  | json
  | nodes
  | watch
  | help
  | version
  deriving DecidableEq, Repr

/-- Options with a value. -/
inductive ValueOption
  | settings
  | resumeFrom
  | logLevel
  deriving DecidableEq, Repr

/-- Why arguments do not lead to a run. -/
inductive ArgumentError
  /-- There is no such option, or more than one file. -/
  | unknown
  /-- There is no file. -/
  | missingFile
  /-- An option is given twice. -/
  | repeated
  /-- A value is missing or empty. -/
  | missingValue
  /-- A flag has a value glued on. -/
  | unexpectedValue
  /-- A line number is not a number of 64 bits. -/
  | badNumber
  /-- Help is asked for. -/
  | help
  /-- The version is asked for. -/
  | version
  deriving DecidableEq, Repr

/-- The arguments of a run. -/
structure Arguments where
  file : Text
  settings : Option Text := none
  mirror : Bool := false
  showPenUp : Bool := false
  json : Bool := false
  nodes : Bool := false
  resumeFrom : Option Nat := none
  watch : Bool := false
  logLevel : Text := ['i', 'n', 'f', 'o']
  deriving DecidableEq, Repr

/-! ### Options -/

/-- The flag with a name. -/
def Flag.ofName? (name : Text) : Option Flag :=
  match String.ofList name with
  | "mirror" => some .mirror
  | "show-pen-up" => some .showPenUp
  | "json" => some .json
  | "nodes" => some .nodes
  | "watch" => some .watch
  | "help" => some .help
  | "version" => some .version
  | _ => none

/-- The option with a value and a name. -/
def ValueOption.ofName? (name : Text) : Option ValueOption :=
  match String.ofList name with
  | "settings" => some .settings
  | "resume-from" => some .resumeFrom
  | "log-level" => some .logLevel
  | _ => none

/-- An argument that still waits to be taken in. -/
inductive Pending
  | file (name : Text)
  /-- An option, with its value unless that has not come yet. -/
  | option (option : ValueOption) (value : Option Text)
  deriving DecidableEq, Repr

/-- What has been read of the arguments. -/
structure Scan where
  file : Option Text := none
  /-- There has been a file, whether or not it is taken in. -/
  hasFile : Bool := false
  flags : List Flag := []
  settings : Option Text := none
  resumeFrom : Option Nat := none
  logLevel : Option Text := none
  pending : Option Pending := none
  /-- Two dashes alone have been read. -/
  filesOnly : Bool := false
  deriving DecidableEq, Repr

namespace Scan

/-- Takes in the value of an option: it must be there, the option must be new,
and then the value must be usable. -/
def setOption (r : Scan) : ValueOption → Option Text → Except ArgumentError Scan
  | _, none => .error .missingValue
  | .settings, some value =>
    if r.settings.isSome then .error .repeated
    else if value.isEmpty then .error .missingValue
    else .ok { r with settings := some value }
  | .resumeFrom, some value =>
    if r.resumeFrom.isSome then .error .repeated
    else
      match Text.natBelow? (Nat.pow 2 64) value with
      | some n => .ok { r with resumeFrom := some n }
      | none => .error .badNumber
  | .logLevel, some value =>
    if r.logLevel.isSome then .error .repeated else .ok { r with logLevel := some value }

/-- Takes in what still waits. -/
def settle (r : Scan) : Except ArgumentError Scan :=
  let rest := { r with pending := none }
  match r.pending with
  | none => .ok rest
  | some (.file name) =>
    if name.isEmpty then .error .missingValue else .ok { rest with file := some name }
  | some (.option option value) => rest.setOption option value

/-- Takes in a flag. -/
def flag (r : Scan) (f : Flag) : Except ArgumentError Scan := do
  let r ← r.settle
  match f with
  | .help => .error .help
  | .version => .error .version
  | f => if r.flags.contains f then .error .repeated else .ok { r with flags := f :: r.flags }

/-- Takes in an option that is written with two dashes. -/
def long (r : Scan) (body : Text) : Except ArgumentError Scan :=
  let name := body.takeWhile (· != '=')
  let value := (body.dropWhile (· != '=')).tail?
  match Flag.ofName? name, ValueOption.ofName? name, value with
  | some f, _, none => r.flag f
  | some _, _, some _ => .error .unexpectedValue
  | none, some option, some value => do (← r.settle).setOption option (some value)
  | none, some option, none => do
    let r ← r.settle
    .ok { r with pending := some (.option option none) }
  | none, none, _ => .error .unknown

/-- Takes in an argument that stands for itself: the value that an option waits
for, or the file. -/
def plain (r : Scan) (arg : Text) : Except ArgumentError Scan :=
  match r.filesOnly, r.pending with
  | false, some (.option option none) => .ok { r with pending := some (.option option (some arg)) }
  | _, _ =>
    if r.hasFile then .error .unknown
    else do
      let r ← r.settle
      .ok { r with pending := some (.file arg), hasFile := true }

/-- Takes in an argument. -/
def argument (r : Scan) (arg : Text) : Except ArgumentError Scan :=
  if r.filesOnly then r.plain arg
  else
    match arg with
    | ['-', '-'] => .ok { r with filesOnly := true }
    | '-' :: '-' :: body => r.long body
    | '-' :: 'h' :: _ => r.flag .help
    | '-' :: 'V' :: _ => r.flag .version
    | '-' :: _ :: _ => .error .unknown
    | arg => r.plain arg

/-- Takes in all arguments. -/
def arguments (r : Scan) : List Text → Except ArgumentError Scan
  | [] => r.settle
  | arg :: rest => do (← r.argument arg).arguments rest

end Scan

/-- Reads the arguments behind the name of the command. -/
def Arguments.parse (args : List Text) : Except ArgumentError Arguments := do
  let r ← ({} : Scan).arguments args
  match r.file with
  | none => .error .missingFile
  | some file =>
    let has (f : Flag) : Bool := r.flags.contains f
    let defaults : Arguments := { file }
    .ok
      { file
        settings := r.settings
        mirror := has .mirror
        showPenUp := has .showPenUp
        json := has .json
        nodes := has .nodes
        resumeFrom := r.resumeFrom
        watch := has .watch
        logLevel := r.logLevel.getD defaults.logLevel }

end CommandLine
end PenPlotter
