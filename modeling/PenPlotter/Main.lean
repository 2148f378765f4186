import PenPlotter.CommandLine.Run

/-!
# The command

Connects a run to the system: files, the environment, and the standard streams.

## Main definitions

* `systemHost` — the system as the host of a run.
* `main` — the command.
-/

open PenPlotter CommandLine

/-- The bytes of a file of the system. -/
def readSystemFile (path : Text) : IO (Except String (List UInt8)) := do
  match ← (IO.FS.readBinFile (String.ofList path)).toBaseIO with
  | .ok bytes => return .ok bytes.toList
  | .error reason => return .error (toString reason)

/-- The settings file of the user, if it is there. -/
def userSettingsFile : IO (Option Text) := do
  let folder ←
    match ← IO.getEnv "XDG_CONFIG_HOME", ← IO.getEnv "HOME" with
    | some folder, _ => pure (some folder)
    | none, some home => pure (some (home ++ "/.config"))
    | none, none => pure none
  match folder with
  | none => return none
  | some folder =>
    let path := (folder ++ "/gcode-plot/machine.toml").toList
    match ← readSystemFile path with
    | .ok _ => return some path
    | .error _ => return none

/-- The system as the host of a run. -/
def systemHost : Host IO where
  contents := readSystemFile
  settingsVariable := return (← IO.getEnv "GCODE_PLOT_SETTINGS").map String.toList
  userSettings := userSettingsFile

/-- Runs the command: a report goes to the standard output, a complaint to the
standard error. -/
def main (args : List String) : IO UInt32 := do
  let outcome ← run systemHost (args.map String.toList)
  IO.print outcome.output
  if let some complaint := outcome.complaint then IO.eprintln s!"Error: {complaint}"
  return outcome.exitCode.toUInt32
