import PenPlotter.Toolpath.Compile

/-!
# A cache for one toolpath

The cache holds at most one compiled toolpath and hands it out to everyone who
asks, whatever program and settings they bring, until it is discarded.  While
it is being filled it is under guard: those who will not wait are sent away.  A
compilation that is given up leaves the cache as it was, but for a mark on its
guard that nobody minds.

## Main definitions

* `Sequence` — a compiled toolpath that can be told from any other compilation.
* `ToolpathCache`, `ToolpathCache.stored` — the cache, and what it hands out.
* `ToolpathCache.request`, `ToolpathCache.guard` — what asking it finds, and what
  trying its guard finds.
* `ToolpathCache.fetch`, `ToolpathCache.fetch?`, `ToolpathCache.discard` — its operations.
* `ToolpathCache.Action`, `ToolpathCache.perform` — the operations as steps of a run.
-/

namespace PenPlotter

/-- A compiled toolpath.  Two sequences of one cache are the same object exactly
if their serial numbers agree. -/
structure Sequence where
  nodes : List Node
  /-- How many compilations the cache had completed before this one. -/
  serial : Nat
  deriving DecidableEq, Repr

/-- A cache for one toolpath. -/
structure ToolpathCache where
  /-- The latest toolpath that was compiled, if it was not given up since. -/
  latest : Option Sequence := none
  /-- The next request has to compile the toolpath. -/
  isVacant : Bool := true
  /-- The number of compilations completed so far. -/
  completed : Nat := 0
  /-- A compilation is under way, and the cache is under guard. -/
  isFilling : Bool := false
  /-- Some compilation was given up, and its guard with it. -/
  isPoisoned : Bool := false
  deriving DecidableEq, Repr, Inhabited

namespace ToolpathCache

/-- The toolpath to hand out. -/
def stored (c : ToolpathCache) : Option Sequence := if c.isVacant then none else c.latest

/-- Gives up the stored toolpath. -/
def discard (c : ToolpathCache) : ToolpathCache := { c with latest := none, isVacant := true }

/-! ### The guard -/

/-- What trying the guard of a cache finds. -/
inductive Guard
  | free
  /-- Free, but a compilation under this guard was given up. -/
  | poisoned
  /-- Somebody else has it. -/
  | busy
  deriving DecidableEq, Repr

/-- Tries the guard. -/
def guard (c : ToolpathCache) : Guard :=
  if c.isFilling then .busy else if c.isPoisoned then .poisoned else .free

/-- Nobody has the cache under guard, and no compilation was ever given up. -/
def IsIdle (c : ToolpathCache) : Prop := c.isFilling = false ∧ c.isPoisoned = false

/-! ### Filling -/

/-- What asking the cache finds. -/
inductive Lookup
  /-- A toolpath to hand out. -/
  | stored (sequence : Sequence)
  /-- Nothing: the cache is put under guard until a compilation ends. -/
  | rebuild (guarded : ToolpathCache)
  deriving DecidableEq, Repr

/-- Asks for the toolpath. -/
def request (c : ToolpathCache) : Lookup :=
  match c.stored with
  | some sequence => .stored sequence
  | none => .rebuild { c with isFilling := true }

/-- Stores what a compilation has made, and lifts the guard. -/
def finish (c : ToolpathCache) (nodes : List Node) : Sequence × ToolpathCache :=
  let sequence : Sequence := ⟨nodes, c.completed⟩
  (sequence,
    { c with
      latest := some sequence
      isVacant := false
      completed := c.completed + 1
      isFilling := false })

/-- Lifts the guard when a compilation is given up, which leaves a mark on it. -/
def abandon (c : ToolpathCache) : ToolpathCache :=
  { c with isFilling := false, isPoisoned := true }

section

variable [Trigonometry]

/-- The stored toolpath, or else that of the program. -/
def fetch (c : ToolpathCache) (s : Settings) (program : List Text) : Sequence × ToolpathCache :=
  match c.request with
  | .stored sequence => (sequence, c)
  | .rebuild guarded => guarded.finish (compile s program)

/-- As `fetch`, but nothing while the cache is under guard.  What a compilation that
was given up has left is still good, since a toolpath is only ever stored whole. -/
def fetch? (c : ToolpathCache) (s : Settings) (program : List Text) :
    Option (Sequence × ToolpathCache) :=
  match c.guard with
  | .free | .poisoned => some (c.fetch s program)
  | .busy => none

/-- What `fetch` reports. -/
def fetchNotices (c : ToolpathCache) (s : Settings) (program : List Text) : List Notice :=
  match c.request with
  | .stored _ => []
  | .rebuild _ => .rebuilding program.length :: compileNotices s program

/-! ### Runs -/

/-- A step of a run over a cache. -/
inductive Action
  | fetch (settings : Settings) (program : List Text)
  | fetchIfFree (settings : Settings) (program : List Text)
  /-- A `fetch` during whose compilation somebody else tries to fetch a toolpath. -/
  | fetchAround (settings : Settings) (program : List Text) (inner : List Text)
  /-- A `fetch` of a program that cannot be read to its end. -/
  | fetchFailing (settings : Settings) (program : List Text)
  | discard

/-- The answer to a step of a run. -/
inductive Reply
  | sequence (sequence : Sequence)
  /-- The cache is under guard. -/
  | busy
  /-- The outer toolpath and the answer to the inner request; none was made if
  nothing had to be compiled. -/
  | around (sequence : Sequence) (inner : Option Reply)
  /-- The compilation was given up. -/
  | failed
  | done

/-- One step of a run. -/
def perform (c : ToolpathCache) : Action → Reply × ToolpathCache
  | .fetch s program =>
    let (sequence, c) := c.fetch s program
    (.sequence sequence, c)
  | .fetchIfFree s program =>
    match c.fetch? s program with
    | some (sequence, c) => (.sequence sequence, c)
    | none => (.busy, c)
  | .fetchAround s program inner =>
    match c.request with
    | .stored sequence => (.around sequence none, c)
    | .rebuild guarded =>
      let (reply, guarded) :=
        match guarded.fetch? s inner with
        | some (sequence, c) => (Reply.sequence sequence, c)
        | none => (.busy, guarded)
      let (sequence, c) := guarded.finish (compile s program)
      (.around sequence (some reply), c)
  | .fetchFailing _ _ =>
    match c.request with
    | .stored sequence => (.sequence sequence, c)
    | .rebuild guarded => (.failed, guarded.abandon)
  | .discard => (.done, c.discard)

/-- What one step of a run reports. -/
def notices (c : ToolpathCache) : Action → List Notice
  | .fetch s program | .fetchAround s program _ => c.fetchNotices s program
  | .fetchIfFree s program => if c.isFilling then [] else c.fetchNotices s program
  | .fetchFailing _ program =>
    match c.request with
    | .stored _ => []
    | .rebuild _ => [.rebuilding program.length]
  | .discard => []

end

@[simp] theorem stored_discard (c : ToolpathCache) : c.discard.stored = none := rfl

@[simp] theorem completed_discard (c : ToolpathCache) : c.discard.completed = c.completed := rfl

@[simp] theorem isFilling_discard (c : ToolpathCache) : c.discard.isFilling = c.isFilling := rfl

end ToolpathCache
end PenPlotter
