import PenPlotter.Line
import PenPlotter.Motion.Arc
import PenPlotter.Motion.Machine
import PenPlotter.Notice
import PenPlotter.Toolpath

/-!
# Compiling programs to toolpaths

A program is compiled line by line.  Each line has one effect on the machine: it
changes the tool, moves the machine, or is passed over with no trace at all.
The nodes of the toolpath and the notices on the side are both read off the
steps of the pass.  Coordinates are those of the program, which starts at its
origin and not at home.

## Main definitions

* `ToolChange.id?` — the tool number of a line that is a tool change.
* `Effect`, `Effect.ofLine` — what a line does.
* `arcStrokes`, `polyline` — an arc as a chain of strokes.
* `arcRequest`, `route` — the arc that a line asks for, and the points of a motion.
* `Step`, `trace` — the steps of a pass over a program.
* `compile` — the toolpath of a program.
-/

namespace PenPlotter

/-! ### Tool changes -/

namespace ToolChange

/-- What a line starts with to be a tool change. -/
def mark : Text := ['M', '0', '6', ' ', 'T']

/-- The text of the tool number: what follows the mark, up to a comment. -/
def idText? (line : Text) : Option Text :=
  (Text.after? mark line).map fun rest => Text.trim (Line.code rest)

/-- The number that a tool number denotes: a signed integer of 64 bits. -/
def id? (text : Text) : Option Int :=
  Text.intBetween? (-9223372036854775808) 9223372036854775808 text

end ToolChange

/-! ### The effect of a line -/

/-- What a line does to a pass. -/
inductive Effect
  /-- The following strokes are drawn in another colour. -/
  | toolChange (color : Color)
  /-- A tool change whose number cannot be used. -/
  | badToolId
  /-- The line has no words. -/
  | blank
  /-- A word holds no number where one is needed. -/
  | unreadable (cause : NumeralError)
  /-- The machine comes to a new state, along a motion if there is one. -/
  | moved (motion : Option Motion) (machine : Machine)
  deriving DecidableEq, Repr

namespace Effect

/-- A coordinate after a word: the value itself or, in relative mode, the
coordinate moved on by the value. -/
def coordinate (m : Machine) (old v : Float) : Float := if m.absolute then v else old + v

/-- Sets a quantity to the number of a word.  Lengths count in the units in
force, the height of the pen is an angle, and the centre of an arc counts from
the point where the line starts.  Rates do not show in a toolpath. -/
def assign (penUpAngle : Float) (start : Point) (m : Machine) (v : Float) : Quantity → Machine
  | .x => { m with position.x := coordinate m m.position.x (v * m.scale) }
  | .y => { m with position.y := coordinate m m.position.y (v * m.scale) }
  | .z => { m with z := v, pen := m.pen.at penUpAngle v }
  | .centerX => { m with arcCenter.x := start.x + v * m.scale }
  | .centerY => { m with arcCenter.y := start.y + v * m.scale }
  | .feedRate | .acceleration => m

/-- One word of a line that starts at a point. -/
def word (penUpAngle : Float) (start : Point) (m : Machine) (w : Word) :
    Except NumeralError Machine :=
  match w.command with
  | .units units => .ok { m with units }
  | .absolute on => .ok { m with absolute := on }
  | .assign quantity =>
    if quantity.isRate then .ok m
    else w.number.map fun v => assign penUpAngle start m v quantity
  | .other => .ok m

/-- The words in order; one that cannot be read spoils all of them. -/
def words (penUpAngle : Float) (start : Point) (m : Machine) :
    List Word → Except NumeralError Machine
  | [] => .ok m
  | w :: rest =>
    match word penUpAngle start m w with
    | .ok m => words penUpAngle start m rest
    | .error cause => .error cause

/-- The effect of the words of a line.  The centre of an arc is the point where
the line starts unless the line says otherwise. -/
def ofWords (penUpAngle : Float) (m : Machine) (ws : List Word) : Effect :=
  if ws.isEmpty then .blank
  else
    match words penUpAngle m.position { m with arcCenter := m.position } ws with
    | .ok next => .moved (ws.head?.bind Word.motion) next
    | .error cause => .unreadable cause

/-- The effect of a line; blanks in front of it do not count. -/
def ofLine (penUpAngle : Float) (m : Machine) (line : Text) : Effect :=
  let line := Text.trimStart line
  match ToolChange.idText? line with
  | some id =>
    match ToolChange.id? id with
    | some n => .toolChange (Color.ofInt n)
    | none => .badToolId
  | none => ofWords penUpAngle m (Line.tokens line)

/-- The machine behind a line.  A tool change shows in the colour of strokes from
the next move of the pen on. -/
def machine (before : Machine) : Effect → Machine
  | toolChange color => { before with pen.downColor := color }
  | moved _ next => next
  | badToolId | blank | unreadable _ => before

@[simp] theorem words_nil (penUpAngle : Float) (start : Point) (m : Machine) :
    words penUpAngle start m [] = .ok m := rfl

@[simp] theorem machine_toolChange (m : Machine) (c : Color) :
    (toolChange c).machine m = { m with pen.downColor := c } := rfl

@[simp] theorem machine_moved (m next : Machine) (motion : Option Motion) :
    (moved motion next).machine m = next := rfl

@[simp] theorem machine_badToolId (m : Machine) : badToolId.machine m = m := rfl

@[simp] theorem machine_blank (m : Machine) : blank.machine m = m := rfl

@[simp] theorem machine_unreadable (m : Machine) (cause : NumeralError) :
    (unreadable cause).machine m = m := rfl

end Effect

/-! ### The pass -/

/-- One line of a pass. -/
structure Step where
  /-- The index of the line. -/
  line : Nat
  content : Text
  /-- The machine before the line. -/
  before : Machine
  effect : Effect
  deriving DecidableEq, Repr

/-- The machine after the line. -/
def Step.after (step : Step) : Machine := step.effect.machine step.before

/-- The steps of a pass from a machine on, the first line having an index. -/
def trace (s : Settings) : Nat → Machine → List Text → List Step
  | _, _, [] => []
  | index, m, line :: rest =>
    let step : Step := ⟨index, line, m, Effect.ofLine s.penUpAngle m line⟩
    step :: trace s (index + 1) step.after rest

/-- The steps of a whole program. -/
def programTrace (s : Settings) (program : List Text) : List Step :=
  trace s 0 (Machine.zeroed s) program

@[simp] theorem trace_nil (s : Settings) (index : Nat) (m : Machine) :
    trace s index m [] = [] := rfl

/-! ### Strokes -/

/-- The most strokes that one arc is drawn with. -/
def arcStrokeLimit : Nat := 10000

/-- The least integer that is not below a number, if it is neither negative nor
beyond `2 ^ 64`. -/
def leastNotBelow (x : Float) : Nat :=
  let n := x.toUInt64.toNat
  if Float.ofNat n < x then n + 1 else n

/-- An arc of this length would need more than the most strokes. -/
def isLongArc (length : Float) : Bool := length.isFinite && Float.ofNat arcStrokeLimit < length

/-- The number of strokes of an arc: one for each millimetre begun, at least one,
and not above the most.  An arc without a finite length is a single stroke. -/
def arcStrokes (length : Float) : Nat :=
  if isLongArc length then arcStrokeLimit
  else if length.isFinite && 1 < length then leastNotBelow length
  else 1

/-- Strokes from a point through further points, each starting where the one
before it stops. -/
def polyline (color : Color) (line : Nat) : Point → List Point → List Stroke
  | _, [] => []
  | start, stop :: rest => ⟨start, stop, color, line⟩ :: polyline color line stop rest

@[simp] theorem polyline_nil (color : Color) (line : Nat) (p : Point) :
    polyline color line p [] = [] := rfl

@[simp] theorem polyline_cons (color : Color) (line : Nat) (p q : Point) (rest : List Point) :
    polyline color line p (q :: rest) = ⟨p, q, color, line⟩ :: polyline color line q rest := rfl

/-- What the arc of a line is made from: it leads from where the line starts to
where the machine is behind the line. -/
def arcRequest (start : Point) (next : Machine) (winding : Winding) : ArcRequest :=
  ⟨start, next.position, next.arcCenter, winding⟩

@[simp] theorem stop_arcRequest (start : Point) (next : Machine) (winding : Winding) :
    (arcRequest start next winding).stop = next.position := rfl

section

variable [Trigonometry]

/-- The points inside an arc that cut it into equal steps. -/
def arcPoints (arc : Arc) (steps : Nat) : List Point :=
  (List.range (steps - 1)).map fun k => arc.point (Float.ofNat (k + 1) / Float.ofNat steps)

/-- The points that an arc is drawn through.  The last one is where it was asked to
stop, and not where its sweep ends. -/
def ArcRequest.points (r : ArcRequest) : List Point :=
  arcPoints r.arc (arcStrokes r.arc.length) ++ [r.stop]

/-- The points that a motion leads through. -/
def route (start : Point) (next : Machine) : Motion → List Point
  | .linear => [next.position]
  | .arc winding => (arcRequest start next winding).points

/-! ### Nodes and notices -/

/-- Moves with the pen lifted are hidden unless they are asked for. -/
def Step.isHidden (s : Settings) (next : Machine) : Bool := next.pen.lifted && !s.showPenUp

/-- The nodes of a line. -/
def Step.nodes (s : Settings) (step : Step) : List Node :=
  match step.effect with
  | .toolChange color => [.toolChange color step.line]
  | .moved (some motion) next =>
    if Step.isHidden s next then []
    else
      (polyline next.pen.strokeColor step.line step.before.position
        (route step.before.position next motion)).map Node.stroke
  | .moved none _ | .badToolId | .blank | .unreadable _ => []

/-- What a line reports. -/
def Step.notices (s : Settings) (step : Step) : List Notice :=
  let content := Text.trimStart step.content
  match step.effect with
  | .badToolId => [.badToolId step.line content]
  | .unreadable cause => [.skipped step.line content cause]
  | .moved (some (.arc winding)) next =>
    let length := (arcRequest step.before.position next winding).arc.length
    if !Step.isHidden s next && isLongArc length then
      [.longArc step.line length arcStrokeLimit]
    else []
  | .moved _ _ | .toolChange _ | .blank => []

/-- The toolpath of a program. -/
def compile (s : Settings) (program : List Text) : List Node :=
  (programTrace s program).flatMap (Step.nodes s)

/-- What a pass over a program reports. -/
def compileNotices (s : Settings) (program : List Text) : List Notice :=
  (programTrace s program).flatMap (Step.notices s) ++
    [.compiled program.length (compile s program).length]

@[simp] theorem compile_nil (s : Settings) : compile s [] = [] := rfl

end

end PenPlotter
