import PenPlotter.Line
import PenPlotter.Motion.Arc
import PenPlotter.Motion.Machine
import PenPlotter.Motion.Trapezoid
import PenPlotter.Notice

/-!
# Estimates of drawing time and length

One pass over a program adds up the length of its moves and the time they take.
Every move counts as if it started and ended at rest.  A line is read up to its
first word that holds no number where one is needed; what was read still counts,
and the rest of the line is reported.

## Main definitions

* `Destination`, `Reading`, `Reading.ofWords` — what the words of a line ask for.
* `Reading.arcRequest`, `Reading.moveLength` — the arc of a line and the length of its move.
* `Tally`, `Tally.move` — the running totals, and a line added to them.
* `Estimate`, `estimate` — the totals of a program, and the lines not fully read.
-/

namespace PenPlotter

/-! ### Reading a line -/

/-- Where a line leads to. -/
structure Destination where
  position : Point
  z : Float
  center : Point
  deriving DecidableEq, Repr

/-- A line without words leads to where the machine is. -/
def Destination.ofMachine (m : Machine) : Destination := ⟨m.position, m.z, m.position⟩

/-- What the words of a line come to. -/
structure Reading where
  /-- The machine, with units and rates as the words left them. -/
  machine : Machine
  destination : Destination
  /-- Why the line was not read to its end. -/
  failure : Option NumeralError
  deriving DecidableEq, Repr

namespace Reading

/-- A rate that can be used: finite and above zero. -/
def isUsable (rate : Float) : Bool := rate.isFinite && 0 < rate

/-- Sets a quantity to a value in millimetres.  Rates change at once and only to
values that can be used; places are targets of the line.  The centre of an arc
counts from the position before the line. -/
def assign (m : Machine) (t : Destination) (v : Float) : Quantity → Machine × Destination
  | .x => (m, { t with position.x := v })
  | .y => (m, { t with position.y := v })
  | .z => (m, { t with z := v })
  | .centerX => (m, { t with center.x := m.position.x + v })
  | .centerY => (m, { t with center.y := m.position.y + v })
  | .feedRate => (if isUsable v then { m with feedRate := v } else m, t)
  | .acceleration => (if isUsable v then { m with acceleration := v } else m, t)

/-- One word of a line.  Its number counts in the units in force. -/
def word (m : Machine) (t : Destination) (w : Word) : Except NumeralError (Machine × Destination) :=
  match w.command with
  | .units units => .ok ({ m with units }, t)
  | .assign quantity => w.number.map fun v => assign m t (v * m.scale) quantity
  | .absolute _ | .other => .ok (m, t)

/-- The words in order, up to the first one that cannot be read. -/
def ofWords (m : Machine) (t : Destination) : List Word → Reading
  | [] => ⟨m, t, none⟩
  | w :: rest =>
    match word m t w with
    | .ok (m, t) => ofWords m t rest
    | .error cause => ⟨m, t, some cause⟩

/-- The words of a line, read on a machine. -/
def ofLine (m : Machine) (line : Text) : Reading :=
  ofWords m (Destination.ofMachine m) (Line.tokens line)

@[simp] theorem ofWords_nil (m : Machine) (t : Destination) : ofWords m t [] = ⟨m, t, none⟩ := rfl

end Reading

/-! ### Running totals -/

/-- The totals of the lines so far, and the machine behind them. -/
structure Tally where
  machine : Machine
  seconds : Float
  /-- In millimetres. -/
  length : Float
  /-- The number of moves with a length. -/
  segments : Nat
  deriving DecidableEq, Repr

/-- Nothing counted, with the machine at home. -/
def Tally.start (s : Settings) : Tally := ⟨Machine.parked s, 0, 0, 0⟩

/-- The time of a move that starts and ends at rest. -/
def moveSeconds (length cruise accel : Float) : Float := Trapezoid.seconds length 0 0 cruise accel

section

variable [Trigonometry]

/-- What the arc of a line is made from: it leads from where the machine is to the
targets of the line. -/
def Reading.arcRequest (r : Reading) (winding : Winding) : ArcRequest :=
  ⟨r.machine.position, r.destination.position, r.destination.center, winding⟩

/-- The length of the move of a line, straight or along an arc; no motion has none. -/
def Reading.moveLength (r : Reading) : Option Motion → Float
  | none => 0
  | some .linear => r.machine.position.distance r.destination.position
  | some (.arc winding) => (r.arcRequest winding).arc.length

/-- Adds the seconds of a change of height, if there is one. -/
def Tally.lift (zRate z : Float) (t : Tally) : Tally :=
  if z == t.machine.z then t
  else
    { t with
      seconds := t.seconds + moveSeconds (z - t.machine.z).abs zRate t.machine.acceleration }

/-- Adds a move, if it has a length. -/
def Tally.travel (length : Float) (t : Tally) : Tally :=
  if 0 < length then
    { t with
      seconds := t.seconds + moveSeconds length t.machine.feedRate t.machine.acceleration
      length := t.length + length
      segments := t.segments + 1 }
  else t

/-- Adds what a line came to: the pen is moved first, then the position.  The
machine ends up at the targets of the line whether or not it has a motion. -/
def Tally.move (zRate : Float) (r : Reading) (motion : Option Motion) (t : Tally) : Tally :=
  let length := r.moveLength motion
  let t := ({ t with machine := r.machine }.lift zRate r.destination.z).travel length
  { t with
    machine :=
      { t.machine with
        position := r.destination.position
        z := r.destination.z
        arcCenter := r.destination.center } }

/-- Adds a line. -/
def Tally.line (s : Settings) (t : Tally) (line : Text) : Tally :=
  t.move s.zRate (Reading.ofLine t.machine line) (Line.ofText line).motion

/-! ### Estimates -/

/-- The totals of a program. -/
structure Stats where
  milliseconds : Float := 0
  millimetres : Float := 0
  segments : Nat := 0
  deriving DecidableEq, Repr, Inhabited

/-- A line that was not read to its end. -/
structure Diagnostic where
  /-- The index of the line, from zero. -/
  line : Nat
  content : Text
  cause : NumeralError
  deriving DecidableEq, Repr

/-- What is wrong with the line, in words. -/
def Diagnostic.message (d : Diagnostic) : String := d.cause.message

/-- The totals of a program, and its lines that were not read to their end. -/
structure Estimate where
  stats : Stats := {}
  diagnostics : List Diagnostic := []
  deriving DecidableEq, Repr, Inhabited

/-- Lines added to a tally. -/
def Tally.lines (s : Settings) (t : Tally) (lines : List Text) : Tally :=
  lines.foldl (Tally.line s) t

/-- The lines that are not read to their end, the first one having an index. -/
def Tally.diagnostics (s : Settings) : Nat → Tally → List Text → List Diagnostic
  | _, _, [] => []
  | index, t, line :: rest =>
    let later := Tally.diagnostics s (index + 1) (t.line s line) rest
    match (Reading.ofLine t.machine line).failure with
    | some cause => ⟨index, line, cause⟩ :: later
    | none => later

/-- The totals as they are reported. -/
def Tally.stats (t : Tally) : Stats := ⟨t.seconds * 1000, t.length, t.segments⟩

/-- The estimate of a program. -/
def estimate (s : Settings) (program : List Text) : Estimate where
  stats := ((Tally.start s).lines s program).stats
  diagnostics := Tally.diagnostics s 0 (Tally.start s) program

/-- What an estimate reports. -/
def Estimate.notices (e : Estimate) : List Notice :=
  e.diagnostics.map (fun d => .unreadable d.line d.content d.cause) ++
    [.estimated e.stats.segments e.stats.millimetres e.stats.milliseconds]

end

end PenPlotter
