import PenPlotter.Toolpath

/-!
# Playback

During playback a cursor stands at a line.  Nodes from lines before it are
executed, nodes from the lines of the look-ahead window that starts at it are
upcoming, and all others are in the future.

## Main definitions

* `windowEnd` — the last line of the look-ahead window.
* `Phase`, `Phase.ofLine` — where a line stands against the cursor.
* `PhaseCounts`, `phaseCounts` — how many nodes each phase has.
* `holderPoint` — where the pen holder is drawn.
-/

namespace PenPlotter

/-- Where a line stands against the cursor. -/
inductive Phase
  /-- Before the cursor. -/
  | executed
  /-- In the look-ahead window. -/
  | upcoming
  /-- Beyond the window. -/
  | future
  deriving DecidableEq, Repr, Inhabited

/-- Nodes in the future are only drawn on demand. -/
def Phase.isShown (drawAll : Bool) (p : Phase) : Bool := drawAll || p != .future

/-- The last index of a line that sixty-four bits can hold. -/
def lastIndex : Nat := 18446744073709551615

/-- The last line of the look-ahead window, which ends at the last index at the
latest. -/
def windowEnd (position lookAhead : Nat) : Nat := min (position + lookAhead) lastIndex

/-- The phase of a line; the window holds the line at the cursor and `lookAhead`
lines more. -/
def Phase.ofLine (line position lookAhead : Nat) : Phase :=
  if line < position then .executed
  else if line ≤ windowEnd position lookAhead then .upcoming
  else .future

/-- The phase of the line that a node comes from. -/
def Node.phase (position lookAhead : Nat) (node : Node) : Phase :=
  Phase.ofLine node.line position lookAhead

/-- How many nodes each phase has. -/
structure PhaseCounts where
  executed : Nat := 0
  upcoming : Nat := 0
  future : Nat := 0
  deriving DecidableEq, Repr, Inhabited

/-- One node more. -/
def PhaseCounts.add (counts : PhaseCounts) : Phase → PhaseCounts
  | .executed => { counts with executed := counts.executed + 1 }
  | .upcoming => { counts with upcoming := counts.upcoming + 1 }
  | .future => { counts with future := counts.future + 1 }

/-- Counts the nodes of each phase. -/
def phaseCounts (nodes : List Node) (position lookAhead : Nat) : PhaseCounts :=
  nodes.foldl (fun counts node => counts.add (node.phase position lookAhead)) {}

/-- Where the last stroke before the cursor starts. -/
def holderPoint (nodes : List Node) (position : Nat) : Option Point :=
  ((nodes.takeWhile (·.line < position)).filterMap Node.stroke?).getLast?.map Stroke.start

end PenPlotter
