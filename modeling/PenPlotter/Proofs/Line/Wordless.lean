import Mathlib
import PenPlotter.Proofs.Estimate.Diagnostics
import PenPlotter.Proofs.Estimate.Timed
import PenPlotter.Proofs.Estimate.Totals
import PenPlotter.Proofs.Toolpath.Blocks
import PenPlotter.Proofs.Toolpath.Dropped

/-!
# Lines without words

Blank lines, lines with nothing but a comment, and lines with nothing that starts with a
letter are there for the reader of a program.  Both passes go through the motions of a
line on them: the estimate compares heights, counts a way of no length and leaves
another centre behind.  None of it shows.  The lines behind are counted from one further
on, and that is all that such a line does.

## Main definitions

* `Line.IsWordless` — no piece in front of the comment starts with a letter.
* `pushed` — the index of a line once another one stands in front of it.
* `Node.relined`, `Diagnostic.relined` — a node and a diagnostic of a line with another index.

## Main results

* `tokens_eq_nil_iff` — lines are wordless if no words are read from them.
* `trace_later` — a pass from a later index on goes through the same steps.
* `line_of_isWordless` — what a line without words leaves in a tally.
* `wordless_inert` — **a line without words only moves the lines behind it.**
-/

namespace PenPlotter

/-! ### Lines without words -/

/-- No piece in front of the comment starts with a letter from `A` to `Z` in either case. -/
def Line.IsWordless (line : Text) : Prop :=
  ∀ piece ∈ Text.pieces (Line.code line), ∀ c ∈ piece.head?, c.isAlpha = false

/-- A piece is no word if it does not start with a letter. -/
theorem Word.ofPiece?_eq_none_iff (piece : Text) :
    Word.ofPiece? piece = none ↔ ∀ c ∈ piece.head?, c.isAlpha = false := by
  cases piece with
  | nil => simp
  | cons c value => simp [Word.ofPiece?]

/-- **A line is wordless if no words are read from it.** -/
theorem tokens_eq_nil_iff (line : Text) : Line.tokens line = [] ↔ Line.IsWordless line := by
  unfold Line.tokens Line.IsWordless
  rw [List.filterMap_eq_nil_iff]
  simp only [Word.ofPiece?_eq_none_iff]

/-! ### Indices -/

/-- The index of a line once another line has come to stand at an index. -/
def pushed (k i : ℕ) : ℕ := if i < k then i else i + 1

theorem pushed_of_lt {k i : ℕ} (h : i < k) : pushed k i = i := if_pos h

theorem pushed_of_le {k i : ℕ} (h : k ≤ i) : pushed k i = i + 1 := if_neg (Nat.not_lt.mpr h)

/-- The node of a line with another index. -/
def Node.relined (f : ℕ → ℕ) : Node → Node
  | stroke t => stroke { t with line := f t.line }
  | toolChange color line => toolChange color (f line)

/-- The diagnostic of a line with another index. -/
def Diagnostic.relined (f : ℕ → ℕ) (d : Diagnostic) : Diagnostic := { d with line := f d.line }

/-- Another index for the line of a node matters only where it is another one. -/
theorem Node.relined_congr {f g : ℕ → ℕ} {n : Node} (h : f n.line = g n.line) :
    n.relined f = n.relined g := by
  cases n with
  | stroke t => exact congrArg (fun i => Node.stroke { t with line := i }) h
  | toolChange color line => exact congrArg (Node.toolChange color) h

theorem Diagnostic.relined_congr {f g : ℕ → ℕ} {d : Diagnostic} (h : f d.line = g d.line) :
    d.relined f = d.relined g := congrArg (fun i => { d with line := i }) h

theorem Node.relined_id (n : Node) : n.relined id = n := by
  cases n <;> rfl

theorem Node.relined_pushed {k : ℕ} {n : Node} (h : n.line < k) : n.relined (pushed k) = n := by
  rw [relined_congr (g := id) (pushed_of_lt h), relined_id]

theorem Diagnostic.relined_pushed {k : ℕ} {d : Diagnostic} (h : d.line < k) :
    d.relined (pushed k) = d := relined_congr (g := id) (pushed_of_lt h)

/-! ### Later lines -/

/-- The step of a line that is counted from one further on. -/
def Step.later (step : Step) : Step := { step with line := step.line + 1 }

/-- **A pass from a later index on goes through the same steps.** -/
theorem trace_later (s : Settings) (index : ℕ) (m : Machine) (lines : List Text) :
    trace s (index + 1) m lines = (trace s index m lines).map Step.later := by
  induction lines generalizing index m with
  | nil => rfl
  | cons line rest ih =>
    rw [trace_cons, trace_cons, ih, List.map_cons]
    rfl

theorem polyline_later (color : Color) (line : ℕ) (start : Point) (ps : List Point) :
    (polyline color (line + 1) start ps).map Node.stroke =
      ((polyline color line start ps).map Node.stroke).map (Node.relined (· + 1)) := by
  induction ps generalizing start with
  | nil => rfl
  | cons p ps ih =>
    rw [polyline_cons, polyline_cons, List.map_cons, List.map_cons, List.map_cons, ih]
    rfl

/-- A line without words is blank to the compiler. -/
theorem ofLine_of_isWordless {line : Text} (h : Line.IsWordless line) (penUpAngle : Float)
    (m : Machine) : Effect.ofLine penUpAngle m line = .blank := by
  have htokens := (tokens_eq_nil_iff line).mpr h
  have hid : ToolChange.idText? (Text.trimStart line) = none := by
    -- the mark of a tool change starts with a word
    apply idText?_eq_none_of_head?
    rw [htokens]
    exact nofun
  rw [ofLine_of_idText? hid, htokens]
  rfl

section

variable [Trigonometry]

theorem Step.nodes_later (s : Settings) (step : Step) :
    step.later.nodes s = (step.nodes s).map (Node.relined (· + 1)) := by
  obtain ⟨line, content, before, effect⟩ := step
  cases effect with
  | moved motion next =>
    cases motion with
    | none => rfl
    | some motion =>
      unfold Step.nodes Step.later
      dsimp only
      split_ifs
      · rfl
      · exact polyline_later _ _ _ _
  | _ => rfl

/-- A pass from a later index on shows the same nodes. -/
theorem nodes_trace_later (s : Settings) (index : ℕ) (m : Machine) (lines : List Text) :
    (trace s (index + 1) m lines).flatMap (Step.nodes s) =
      ((trace s index m lines).flatMap (Step.nodes s)).map (Node.relined (· + 1)) := by
  rw [trace_later, List.flatMap_map, List.map_flatMap]
  exact List.flatMap_congr fun step _ => Step.nodes_later s step

/-! ### Toolpaths -/

/-- **A line without words only moves the lines of the nodes behind it.** -/
theorem compile_wordless (s : Settings) (pre suf : List Text) {line : Text}
    (h : Line.IsWordless line) : compile s (pre ++ line :: suf) =
      (compile s (pre ++ suf)).map (Node.relined (pushed pre.length)) := by
  have hnodes : ∀ m, (Step.ofLine s pre.length m line).nodes s = [] := by
    intro m
    unfold Step.nodes Step.ofLine
    rw [ofLine_of_isWordless h]
  have hnext : ∀ m : Machine, m.next s line = m := by
    intro m
    rw [Machine.next, ofLine_of_isWordless h, Effect.machine_blank]
  have hpre : (compile s pre).map (Node.relined (pushed pre.length)) = compile s pre := by
    obtain ⟨-, hbounds⟩ := trace_lines s 0 (Machine.zeroed s) pre
    refine (List.map_congr_left fun n hn => Node.relined_pushed ?_).trans (List.map_id _)
    simpa using (hbounds n hn).2
  rw [compile_append_cons, compile_append, List.map_append, hpre, hnodes, hnext, List.nil_append,
    nodes_trace_later]
  congr 1
  refine List.map_congr_left fun n hn => Node.relined_congr ?_
  obtain ⟨-, hbounds⟩ := trace_lines s pre.length ((Machine.zeroed s).run s pre) suf
  exact (pushed_of_le (hbounds n hn).1).symm

/-! ### Estimates -/

/-- **What a line without words leaves in a tally**: another centre, and no time and no way. -/
theorem line_of_isWordless {line : Text} (h : Line.IsWordless line) (s : Settings) {t : Tally}
    (hz : t.machine.z.isNaN = false) : t.line s line =
      { t with machine := { t.machine with arcCenter := t.machine.position } } := by
  have htokens := (tokens_eq_nil_iff line).mpr h
  have hread : Reading.ofLine t.machine line =
      ⟨t.machine, Destination.ofMachine t.machine, none⟩ := by
    rw [Reading.ofLine, htokens, Reading.ofWords_nil]
  have hmotion : (Line.ofText line).motion = none := by
    rw [Line.motion, Line.words_ofText, htokens]
    rfl
  have hheight : (t.machine.z == t.machine.z) = true := (Binary64.beq_iff_value hz hz).mpr rfl
  have hlift : t.lift s.zRate t.machine.z = t := if_pos hheight
  have htravel : t.travel 0 = t := if_neg not_pos_zero
  have hmoved : (t.lift s.zRate t.machine.z).travel 0 = t := by
    rw [hlift, htravel]
  unfold Tally.line
  rw [hread, hmotion]
  exact congrArg (fun u : Tally => { u with machine := { u.machine with
    position := t.machine.position, z := t.machine.z, arcCenter := t.machine.position } }) hmoved

/-- A line without words does not show in the totals. -/
theorem stats_wordless {s : Settings} (hangle : s.penUpAngle.isNaN = false) (pre suf : List Text)
    {line : Text} (h : Line.IsWordless line) :
    (estimate s (pre ++ line :: suf)).stats = (estimate s (pre ++ suf)).stats := by
  have hstart : (Tally.start s).machine.z.isNaN = false := hangle
  have hbefore := Tally.lines_height s hstart pre
  unfold estimate Tally.lines
  rw [List.foldl_append, List.foldl_append, List.foldl_cons]
  refine Tally.stats_congr rfl ?_ suf
  change (Tally.line s ((Tally.start s).lines s pre) line).timed = _
  rw [line_of_isWordless h s hbefore]
  rfl

/-- The diagnostics of lines from a later index on are about later lines. -/
theorem diagnostics_later (s : Settings) (index : ℕ) (t : Tally) (p : List Text) :
    Tally.diagnostics s (index + 1) t p =
      (Tally.diagnostics s index t p).map (Diagnostic.relined (· + 1)) := by
  induction p generalizing index t with
  | nil => rfl
  | cons line rest ih =>
    unfold Tally.diagnostics
    rw [ih]
    cases (Reading.ofLine t.machine line).failure <;> rfl

/-- **A line without words only moves the lines of the diagnostics behind it.** -/
theorem diagnostics_wordless (s : Settings) (pre suf : List Text) {line : Text}
    (h : Line.IsWordless line) : (estimate s (pre ++ line :: suf)).diagnostics =
      (estimate s (pre ++ suf)).diagnostics.map (Diagnostic.relined (pushed pre.length)) := by
  have hline : Line.diagnostic? line pre.length = none := by
    unfold Line.diagnostic? Line.failure?
    rw [(tokens_eq_nil_iff line).mpr h]
    rfl
  have hpre : (Tally.diagnostics s 0 (Tally.start s) pre).map
      (Diagnostic.relined (pushed pre.length)) = Tally.diagnostics s 0 (Tally.start s) pre := by
    refine (List.map_congr_left fun d hd => Diagnostic.relined_pushed ?_).trans (List.map_id _)
    simpa using (line_of_mem_diagnostics hd).2
  unfold estimate
  dsimp only
  rw [← List.singleton_append, diagnostics_append, diagnostics_append, diagnostics_append,
    diagnostics_singleton, Nat.zero_add, hline, Option.toList_none, List.nil_append,
    List.length_singleton, diagnostics_later, List.map_append, hpre]
  congr 1
  refine List.map_congr_left fun d hd => Diagnostic.relined_congr ?_
  exact (pushed_of_le (line_of_mem_diagnostics hd).1).symm

/-- **A line without words only moves the lines behind it.**  With such a line somewhere in a
program, the nodes of its toolpath and the diagnostics of its estimate are the same, but
that those of the lines behind it count their line from one further on.  The totals
are the same if the height at which the machine starts is a number. -/
theorem wordless_inert (s : Settings) (pre suf : List Text) {line : Text}
    (h : Line.IsWordless line) :
    compile s (pre ++ line :: suf) =
      (compile s (pre ++ suf)).map (Node.relined (pushed pre.length)) ∧
    (estimate s (pre ++ line :: suf)).diagnostics =
      (estimate s (pre ++ suf)).diagnostics.map (Diagnostic.relined (pushed pre.length)) ∧
    (s.penUpAngle.isNaN = false →
      (estimate s (pre ++ line :: suf)).stats = (estimate s (pre ++ suf)).stats) :=
  ⟨compile_wordless s pre suf h, diagnostics_wordless s pre suf h,
    fun hangle => stats_wordless hangle pre suf h⟩

end

/-- Pieces that do not start with a letter, and a comment. -/
def Line.wordlessSample : Text :=
  ['\t', '1', '0', ' ', '%', 'X', '5', ';', ' ', 'G', '1', ' ', 'X', '9']

/-- The number of a place is missing behind the line. -/
theorem wordless_inert_sample :
    (Line.IsWordless Line.wordlessSample ∧ (default : Settings).penUpAngle.isNaN = false) ∧
    (estimate default ([['G', '1', ' ', 'X', '5']] ++
        Line.wordlessSample :: [['Y'], ['G', '1', ' ', 'Y', '2']])).stats =
      (estimate default ([['G', '1', ' ', 'X', '5']] ++
        [['Y'], ['G', '1', ' ', 'Y', '2']])).stats ∧
    (estimate default ([['G', '1', ' ', 'X', '5']] ++
        Line.wordlessSample :: [['Y'], ['G', '1', ' ', 'Y', '2']])).diagnostics =
      [⟨2, ['Y'], .missing 'Y'⟩] := by
  have hline : Line.IsWordless Line.wordlessSample := (tokens_eq_nil_iff _).mp (by decide)
  have hangle : (default : Settings).penUpAngle.isNaN = false := by decide
  obtain ⟨-, hdiagnostics, hstats⟩ := wordless_inert default [['G', '1', ' ', 'X', '5']]
    [['Y'], ['G', '1', ' ', 'Y', '2']] hline
  exact ⟨⟨hline, hangle⟩, hstats hangle, hdiagnostics⟩

end PenPlotter
