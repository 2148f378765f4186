import PenPlotter.CommandLine.Arguments
import PenPlotter.Settings.Table
import PenPlotter.Text.Utf8

/-!
# Configuration of a run

The settings of a run come from a file, and arguments override some of them.  The
file is the one that the arguments name, or else the one that the environment
names, or else the one of the user; without any of them the defaults hold.

## Main definitions

* `Host` — what a run asks of the system it runs on.
* `Configuration`, `configure` — everything that a run needs to know.
* `ConfigurationError` — why the settings of a run cannot be had.
-/

namespace PenPlotter
namespace CommandLine

/-- What a run asks of the system that it runs on. -/
structure Host (m : Type → Type) where
  /-- The bytes of a file, or the reason why they cannot be read. -/
  contents : Text → m (Except String (List UInt8))
  /-- The settings file that the environment names. -/
  settingsVariable : m (Option Text)
  /-- The settings file of the user, if there is one. -/
  userSettings : m (Option Text)

/-- Why a settings file cannot be used. -/
inductive SettingsFault
  /-- It cannot be read as text. -/
  | unreadable
  /-- It holds no settings. -/
  | invalid
  deriving DecidableEq, Repr

/-- The settings of a run cannot be had. -/
structure ConfigurationError where
  path : Text
  fault : SettingsFault
  deriving DecidableEq, Repr

/-- The failure in words. -/
def ConfigurationError.message (e : ConfigurationError) : String :=
  s!"Failed to load machine settings: {String.ofList e.path}"

/-- Everything that a run needs to know. -/
structure Configuration where
  program : Text
  settings : Settings
  /-- Where the settings come from, unless they are the defaults. -/
  settingsPath : Option Text
  json : Bool
  showNodes : Bool
  resumeFrom : Option Nat
  watch : Bool
  logLevel : Text
  deriving DecidableEq, Repr

/-- The settings in the bytes of a file. -/
def settingsOfFile (path : Text) : Except String (List UInt8) → Except ConfigurationError Settings
  | .error _ => .error ⟨path, .unreadable⟩
  | .ok bytes =>
    match Utf8.text? bytes with
    | none => .error ⟨path, .unreadable⟩
    | some text =>
      match Settings.ofToml? text with
      | some s => .ok s
      | none => .error ⟨path, .invalid⟩

/-- The configuration from arguments and the settings of a file. -/
def Configuration.ofArguments (args : Arguments) (path : Option Text) (s : Settings) :
    Configuration where
  program := args.file
  settings :=
    { s with
      reverseForGlass := args.mirror || s.reverseForGlass
      showPenUp := args.showPenUp || s.showPenUp }
  settingsPath := path
  json := args.json
  showNodes := args.nodes
  resumeFrom := args.resumeFrom
  watch := args.watch
  logLevel := args.logLevel

section

variable {m : Type → Type} [Monad m]

/-- The settings file of a run, the closest source first. -/
def settingsPath (host : Host m) (args : Arguments) : m (Option Text) := do
  match args.settings with
  | some path => pure (some path)
  | none =>
    match ← host.settingsVariable with
    | some path => pure (some path)
    | none => host.userSettings

/-- The configuration of a run. -/
def configure (host : Host m) (args : Arguments) : m (Except ConfigurationError Configuration) := do
  match ← settingsPath host args with
  | none => pure (.ok (.ofArguments args none {}))
  | some path =>
    let settings := settingsOfFile path (← host.contents path)
    pure (settings.map (Configuration.ofArguments args (some path)))

end

end CommandLine
end PenPlotter
