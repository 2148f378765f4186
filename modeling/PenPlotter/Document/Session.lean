import PenPlotter.Document

/-!
# Sessions with a document

Everything that can be done with a document, as a list of actions with answers.

## Main definitions

* `Action`, `Reply` — what is asked of a document and what it answers.
* `Document.perform`, `Document.run` — one action, and many in a row.
* `Document.notices` — what an action reports.
-/

namespace PenPlotter

/-- Something asked of a document. -/
inductive Action
  | load (settings : Settings) (source : Source)
  | clear
  | close
  | seek (line : Nat)
  | current
  | advance
  | lastPenLift (line : Nat) (marker : Text)
  | toolpath (settings : Settings)
  | toolpathIfFree (settings : Settings)
  | discardToolpath
  deriving DecidableEq, Repr

/-- The answer of a document. -/
inductive Reply
  | done
  | refused (cause : DocumentError)
  | stats (stats : Stats)
  | line (text : Text)
  | index (line : Nat)
  | sequence (sequence : Sequence)
  /-- The toolpath is being compiled. -/
  | busy
  deriving DecidableEq, Repr

namespace Document

/-- The answer to a request for a line. -/
def lineReply : Except DocumentError Text → Reply
  | .ok text => .line text
  | .error cause => .refused cause

section

variable [Trigonometry]

/-- The answer to an action, and the document after it. -/
def perform (d : Document) : Action → Reply × Document
  | .load s source =>
    match d.load s source with
    | (.ok stats, d) => (.stats stats, d)
    | (.error cause, d) => (.refused cause, d)
  | .clear => (.done, d.clear)
  | .close => (.done, d.close)
  | .seek line => (.done, d.seek line)
  | .current => (lineReply d.current, d)
  | .advance =>
    let (line, d) := d.advance
    (lineReply line, d)
  | .lastPenLift line marker => (.index (d.lastPenLift line marker), d)
  | .toolpath s =>
    let (sequence, d) := d.toolpath s
    (.sequence sequence, d)
  | .toolpathIfFree s =>
    match d.toolpath? s with
    | some (sequence, d) => (.sequence sequence, d)
    | none => (.busy, d)
  | .discardToolpath => (.done, d.discardToolpath)

/-- The answers to actions in a row, and the document after them. -/
def run (d : Document) : List Action → List Reply × Document
  | [] => ([], d)
  | action :: rest =>
    let (reply, d) := d.perform action
    let (replies, d) := d.run rest
    (reply :: replies, d)

/-- What an action reports. -/
def notices (d : Document) : Action → List Notice
  | .load s source => loadNotices s source
  | .toolpath s => d.cache.fetchNotices s d.lines
  | .toolpathIfFree s => if d.cache.isFilling then [] else d.cache.fetchNotices s d.lines
  | _ => []

@[simp] theorem run_nil (d : Document) : d.run [] = ([], d) := rfl

end

end Document
end PenPlotter
