import Mathlib
import PenPlotter.Proofs.Estimate.Diagnostics
import PenPlotter.Proofs.Estimate.Reading

/-!
# The estimate follows the path of the toolpath

The estimate and the compiler are passes of their own over a program.  Where the
estimate has nothing to report, they are at the same place behind every line, make
arcs from the same points, and count the same strokes.

## Main definitions

* `Tally.Measures` — a line adds the length of an arc to the totals.
* `ArcRequest.Agrees` — arcs from agreeing points in the same winding.
* `Tally.Follows` — the estimate of a line and the step of the compiler go together.
* `positiveLengths` — the lengths above zero among the nodes of a toolpath.

## Main results

* `run_agrees` — the passes agree behind every line.
* `arc_agrees` — the arc that is measured and the one that is drawn are made from the
  same points.
* `lines_counts` — the estimate of straight lines counts the nodes of the lines.
* `estimate_agrees` — **the estimate and the toolpath follow one path.**
-/

namespace PenPlotter

open Binary64

/-- Arcs that are made from agreeing points, in the same winding. -/
structure ArcRequest.Agrees (exactly : Prop) (r r' : ArcRequest) : Prop where
  start : r.start.Agrees exactly r'.start
  stop : r.stop.Agrees exactly r'.stop
  center : r.center.Agrees exactly r'.center
  winding : r.winding = r'.winding

/-! ### Lines with a motion -/

/-- The compiler's step of a line whose words are all read. -/
theorem effect_of_motion {s : Settings} {exactly : Prop} {m n : Machine} (h : m.Agrees exactly n)
    {line : Text} (hline : Line.IsComparable line) (hread : (Reading.ofLine m line).failure = none)
    {motion : Motion} (hmotion : (Line.ofText line).motion = some motion) :
    ∃ next, Effect.ofLine s.penUpAngle n line = .moved (some motion) next ∧
      Staged exactly (Reading.ofLine m line).machine (Reading.ofLine m line).destination n.position
        next := by
  rw [ofLine_of_idText? (idText?_eq_none_of_motion hmotion), ← hmotion]
  apply (ofWords_agrees s.penUpAngle h hline hread).resolve_left
  -- a line without words selects no motion
  rintro ⟨hempty, -⟩
  rw [Line.motion, Line.words_ofText, hempty] at hmotion
  cases hmotion

/-- No move is hidden if all moves are shown. -/
theorem not_isHidden_of_showPenUp {s : Settings} (h : s.showPenUp = true) (m : Machine) :
    ¬ Step.isHidden s m = true := by
  rw [Step.isHidden, h, Bool.not_true, Bool.and_false]
  exact Bool.false_ne_true

/-- Home is the place where a toolpath starts, if both its coordinates are zero. -/
theorem parked_agrees {s : Settings} (hx : (s.home.x == 0) = true) (hy : (s.home.y == 0) = true) :
    (Machine.parked s).Agrees (s.home = Point.origin) (Machine.zeroed s) where
  position :=
    ⟨⟨(sameNumber_zero_iff _).mpr hx, fun he => congrArg Point.x he⟩,
      ⟨(sameNumber_zero_iff _).mpr hy, fun he => congrArg Point.y he⟩⟩
  units := rfl
  absolute := rfl

/-! ### Straight lines -/

/-- The lengths above zero among the nodes, in order. -/
def positiveLengths (nodes : List Node) : List Float :=
  (nodes.map Node.length).filter fun length => 0 < length

@[simp] theorem positiveLengths_nil : positiveLengths [] = [] := rfl

@[simp] theorem positiveLengths_append (nodes rest : List Node) :
    positiveLengths (nodes ++ rest) = positiveLengths nodes ++ positiveLengths rest := by
  rw [positiveLengths, List.map_append, List.filter_append]
  rfl

theorem positiveLengths_toolChange (color : Color) (line : ℕ) :
    positiveLengths [.toolChange color line] = [] :=
  List.filter_cons_of_neg (by rw [decide_eq_true_eq]; exact not_pos_zero)

theorem positiveLengths_stroke (t : Stroke) : positiveLengths [.stroke t] =
    if 0 < t.start.distance t.stop then [t.start.distance t.stop] else [] := by
  split_ifs with h
  · exact List.filter_cons_of_pos (decide_eq_true h)
  · exact List.filter_cons_of_neg (by rw [decide_eq_true_eq]; exact h)

section

variable [Trigonometry]

/-! ### Arcs -/

/-- The estimate of a line measures an arc.  The arc leads from the place of the machine
before the line to its place behind the line, around the centre that the line leaves, in
the winding that it selects, and its length is added to the totals. -/
structure Tally.Measures (s : Settings) (t : Tally) (line : Text) (r : ArcRequest) : Prop where
  winding : (Line.ofText line).motion = some (.arc r.winding)
  start : r.start = t.machine.position
  stop : r.stop = (t.line s line).machine.position
  center : r.center = (t.line s line).machine.arcCenter
  length : (t.line s line).length =
    let length := (Arc.between r.start r.stop r.center r.winding).length
    if 0 < length then t.length + length else t.length
  segments : (t.line s line).segments =
    let length := (Arc.between r.start r.stop r.center r.winding).length
    if 0 < length then t.segments + 1 else t.segments

/-- **Which arc the estimate of a line measures.** -/
theorem Tally.measures_line (s : Settings) (t : Tally) {line : Text} {winding : Winding}
    (hmotion : (Line.ofText line).motion = some (.arc winding)) :
    t.Measures s line ((Reading.ofLine t.machine line).arcRequest winding) := by
  obtain ⟨hlength, hsegments⟩ := Tally.counts_line s t line
  rw [hmotion] at hlength hsegments
  -- the words have moved the targets only, so the way starts where the machine was
  refine ⟨hmotion, reading_position _ _ _, ?_, ?_, ?_, ?_⟩
  · rw [Tally.machine_line]
    rfl
  · rw [Tally.machine_line]
    rfl
  · rw [hlength, Reading.moveLength, ArcRequest.arc]
    dsimp only
    split_ifs <;> rfl
  · rw [hsegments, Reading.moveLength, ArcRequest.arc]
    dsimp only
    split_ifs <;> rfl

/-- **The arc that is measured and the one that is drawn are made from the same points**,
in the winding that the line selects. -/
theorem arc_agrees {s : Settings} (hshow : s.showPenUp = true) {exactly : Prop} {t : Tally}
    {n : Machine} (h : t.machine.Agrees exactly n) {line : Text} (hline : Line.IsComparable line)
    (hread : (Reading.ofLine t.machine line).failure = none) (index : ℕ) {winding : Winding}
    (hmotion : (Line.ofText line).motion = some (.arc winding)) :
    ∃ r r', r.winding = winding ∧ t.Measures s line r ∧
      (Step.ofLine s index n line).Draws s r' ∧ r.Agrees exactly r' := by
  obtain ⟨next, heffect, hstaged⟩ := effect_of_motion (s := s) h hline hread hmotion
  exact ⟨_, _, rfl, Tally.measures_line s t hmotion,
    Step.draws_ofLine index heffect (not_isHidden_of_showPenUp hshow next),
    ⟨hstaged.start, hstaged.position, hstaged.center, rfl⟩⟩

/-! ### Lines that are read to their end -/

/-- Without diagnostics the first line is read to its end, and the others are. -/
theorem diagnostics_cons_eq_nil {s : Settings} {index : ℕ} {t : Tally} {line : Text}
    {rest : List Text} (h : Tally.diagnostics s index t (line :: rest) = []) :
    (Reading.ofLine t.machine line).failure = none ∧
      Tally.diagnostics s (index + 1) (t.line s line) rest = [] := by
  obtain ⟨hline, hrest⟩ := List.forall_mem_cons.mp (diagnostics_eq_nil_iff.mp h)
  exact ⟨(failure_ofLine _ line).trans hline, diagnostics_eq_nil_iff.mpr hrest⟩

/-- Without diagnostics every line is read to its end. -/
theorem failure_of_diagnostics {s : Settings} {index : ℕ} {t : Tally} {p : List Text}
    (h : Tally.diagnostics s index t p = []) {i : ℕ} {line : Text} (hi : p[i]? = some line) :
    (Reading.ofLine (t.lines s (p.take i)).machine line).failure = none :=
  (failure_ofLine _ line).trans (diagnostics_eq_nil_iff.mp h line (List.mem_of_getElem? hi))

/-- **The passes agree behind every line** of a program without diagnostics. -/
theorem run_agrees (s : Settings) {exactly : Prop} {index : ℕ} {t : Tally} {n : Machine}
    (h : t.machine.Agrees exactly n) {p : List Text} (hp : ∀ line ∈ p, Line.IsComparable line)
    (hdiagnostics : Tally.diagnostics s index t p = []) (k : ℕ) :
    (t.lines s (p.take k)).machine.Agrees exactly (n.run s (p.take k)) := by
  induction p generalizing index t n k with
  | nil => rw [List.take_nil]; exact h
  | cons line rest ih =>
    cases k with
    | zero => exact h
    | succ k =>
      obtain ⟨hline, hrest⟩ := List.forall_mem_cons.mp hp
      obtain ⟨hread, hnext⟩ := diagnostics_cons_eq_nil hdiagnostics
      exact ih (line_agrees s h hline hread) hrest hnext k

/-- The nodes of a line without an arc have the length that the estimate counts. -/
theorem positiveLengths_line {s : Settings} (hshow : s.showPenUp = true) {exactly : Prop} {m n : Machine}
    (h : m.Agrees exactly n) {line : Text} (hline : Line.IsComparable line)
    (hread : (Reading.ofLine m line).failure = none) (index : ℕ)
    (hstraight : ∀ winding, (Line.ofText line).motion ≠ some (.arc winding)) :
    let length := (Reading.ofLine m line).moveLength (Line.ofText line).motion
    positiveLengths ((Step.ofLine s index n line).nodes s) = if 0 < length then [length] else [] := by
  dsimp only
  cases hmotion : (Line.ofText line).motion with
  | none =>
    rw [Reading.moveLength, if_neg not_pos_zero]
    unfold Step.nodes Step.ofLine
    dsimp only
    cases heffect : Effect.ofLine s.penUpAngle n line with
    | moved motion next =>
      -- a move that no motion was selected for draws nothing
      rw [motion_of_ofLine heffect] at hmotion
      rw [hmotion]
      exact positiveLengths_nil
    | toolChange color => exact positiveLengths_toolChange color index
    | _ => exact positiveLengths_nil
  | some motion =>
    obtain ⟨next, heffect, hstaged⟩ := effect_of_motion (s := s) h hline hread hmotion
    cases motion with
    | arc winding => exact absurd hmotion (hstraight winding)
    | linear =>
      have hnodes : (Step.ofLine s index n line).nodes s =
          [.stroke ⟨n.position, next.position, next.pen.strokeColor, index⟩] :=
        Step.nodes_of_not_isHidden index heffect (not_isHidden_of_showPenUp hshow next)
      rw [hnodes, positiveLengths_stroke, Reading.moveLength, hstaged.start.distance_eq hstaged.position]

/-- **The totals of straight lines are those of their nodes**, added in order. -/
theorem lines_counts {s : Settings} (hshow : s.showPenUp = true) {exactly : Prop} (index : ℕ)
    {t : Tally} {n : Machine} (h : t.machine.Agrees exactly n) {p : List Text}
    (hp : ∀ line ∈ p, Line.IsComparable line)
    (hdiagnostics : Tally.diagnostics s index t p = [])
    (hstraight : ∀ line ∈ p, ∀ winding, (Line.ofText line).motion ≠ some (.arc winding)) :
    let lengths := positiveLengths ((trace s index n p).flatMap (Step.nodes s))
    (t.lines s p).length = lengths.foldl (· + ·) t.length ∧
      (t.lines s p).segments = t.segments + lengths.length := by
  induction p generalizing index t n with
  | nil => exact ⟨rfl, rfl⟩
  | cons line rest ih =>
    obtain ⟨hline, hrest⟩ := List.forall_mem_cons.mp hp
    obtain ⟨hread, hnext⟩ := diagnostics_cons_eq_nil hdiagnostics
    obtain ⟨hstraight, hstraights⟩ := List.forall_mem_cons.mp hstraight
    have hnodes := positiveLengths_line hshow h hline hread index hstraight
    obtain ⟨hlength, hsegments⟩ := Tally.counts_line s t line
    obtain ⟨hlengths, hsegments'⟩ := ih (index + 1) (line_agrees s h hline hread) hrest hnext hstraights
    dsimp only at hnodes hlength hsegments hlengths hsegments' ⊢
    rw [← hnodes] at hlength hsegments
    rw [trace_cons, List.flatMap_cons, positiveLengths_append, List.foldl_append, List.length_append,
      Tally.lines_cons, hlengths, hsegments', hlength, hsegments, Nat.add_assoc]
    exact ⟨rfl, rfl⟩

/-! ### Programs -/

/-- The estimate of a line follows the step that the compiler takes for it: the passes
agree before and behind the line, and if it is an arc, the one measures and the other
draws the arc between agreeing points. -/
structure Tally.Follows (s : Settings) (exactly : Prop) (t : Tally) (step : Step) : Prop where
  before : t.machine.Agrees exactly step.before
  after : (t.line s step.content).machine.Agrees exactly step.after
  arc : ∀ winding, (Line.ofText step.content).motion = some (.arc winding) →
    ∃ r r', r.winding = winding ∧ t.Measures s step.content r ∧ step.Draws s r' ∧
      r.Agrees exactly r'

/-- **The estimate and the toolpath follow one path.**  For a program that the
estimate reads to its end, with home at zero and all moves shown, the estimate follows
the compiler line by line: the step that it follows is the one whose nodes the line adds to
the toolpath.  Without arcs the estimate adds up the lengths of the strokes. -/
theorem estimate_agrees (s : Settings) (p : List Text) (hdiagnostics : (estimate s p).diagnostics = [])
    (hp : ∀ line ∈ p, Line.IsComparable line) (hx : (s.home.x == 0) = true)
    (hy : (s.home.y == 0) = true) (hshow : s.showPenUp = true) :
    (∀ i line, p[i]? = some line → ∃ step, (programTrace s p)[i]? = some step ∧
      step.content = line ∧
      ((Tally.start s).lines s (p.take i)).Follows s (s.home = Point.origin) step ∧
      compile s (p.take (i + 1)) = compile s (p.take i) ++ step.nodes s) ∧
    ((∀ line ∈ p, ∀ winding, (Line.ofText line).motion ≠ some (.arc winding)) →
      (estimate s p).stats.segments = (positiveLengths (compile s p)).length ∧
      (estimate s p).stats.millimetres = (positiveLengths (compile s p)).foldl (· + ·) 0) := by
  have hstart : (Tally.start s).machine.Agrees (s.home = Point.origin) (Machine.zeroed s) :=
    parked_agrees hx hy
  refine ⟨?_, ?_⟩
  · intro i line hi
    have hbefore := run_agrees s hstart hp hdiagnostics i
    have hread := failure_of_diagnostics hdiagnostics hi
    have hline := hp line (List.mem_of_getElem? hi)
    rw [programTrace_getElem?, hi]
    refine ⟨_, rfl, rfl, ⟨hbefore, line_agrees s hbefore hline hread, ?_⟩, compile_take_succ s hi⟩
    intro winding hmotion
    exact arc_agrees hshow hbefore hline hread i hmotion
  · intro hstraight
    obtain ⟨hlength, hsegments⟩ := lines_counts hshow 0 hstart hp hdiagnostics hstraight
    exact ⟨hsegments.trans (Nat.zero_add _), hlength⟩

end

/-- A program with a change of units, a straight move, a tool change and an arc. -/
def Estimate.sample : List Text :=
  [['G', '2', '0'], ['G', '1', ' ', 'X', '1', ' ', 'G', '2', '1', ' ', 'Y', '2', '.', '5'],
    ['M', '0', '6', ' ', 'T', '9', ' ', 'F', '3'], ['G', '3', ' ', 'X', '0', ' ', 'I', '-', '1']]

/-- A program with a stroke on the spot between two others. -/
def Estimate.strokeSample : List Text :=
  [['G', '1', ' ', 'X', '3', ' ', 'Y', '4'], ['M', '0', '6', ' ', 'T', '9'], ['G', '1'],
    ['G', '0', ' ', 'X', '0']]

/-- All moves are shown. -/
def Estimate.sampleSettings : Settings := { showPenUp := true }

/-- The arc of the first program is measured and drawn between the same points.  Of the
four nodes of the second one two have a length, and these are added up. -/
theorem estimate_agrees_sample :
    let s := Estimate.sampleSettings
    let p := Estimate.sample
    let q := Estimate.strokeSample
    (((estimate s p).diagnostics = [] ∧ ∀ line ∈ p, Line.IsComparable line) ∧
      ((estimate s q).diagnostics = [] ∧ ∀ line ∈ q, Line.IsComparable line)) ∧
    (∃ step, (programTrace s p)[3]? = some step ∧
      ((Tally.start s).lines s (p.take 3)).machine.Agrees True step.before ∧
      ∃ r r', r.winding = .counterClockwise ∧
        ((Tally.start s).lines s (p.take 3)).Measures s step.content r ∧ step.Draws s r' ∧
        r.Agrees True r') ∧
    (compile s q).length = 4 ∧ (estimate s q).stats.segments = 2 ∧
    (estimate s q).stats.millimetres = 8 := by
  have hhome : (Estimate.sampleSettings.home = Point.origin) = True := eq_true rfl
  have hdiagnostics : (estimate Estimate.sampleSettings Estimate.sample).diagnostics = [] := rfl
  have hdiagnostics' : (estimate Estimate.sampleSettings Estimate.strokeSample).diagnostics = [] :=
    rfl
  have hp : ∀ line ∈ Estimate.sample, Line.IsComparable line := by decide
  have hq : ∀ line ∈ Estimate.strokeSample, Line.IsComparable line := by decide
  have hstraight : ∀ line ∈ Estimate.strokeSample,
      ∀ winding, (Line.ofText line).motion ≠ some (.arc winding) := by
    have hmotion : ∀ line ∈ Estimate.strokeSample,
        (Line.ofText line).motion = none ∨ (Line.ofText line).motion = some .linear := by
      decide
    intro line hline winding harc
    rcases hmotion line hline with h | h <;> rw [h] at harc <;> cases harc
  obtain ⟨hlines, -⟩ :=
    estimate_agrees Estimate.sampleSettings Estimate.sample hdiagnostics hp rfl rfl rfl
  obtain ⟨-, hcounts⟩ :=
    estimate_agrees Estimate.sampleSettings Estimate.strokeSample hdiagnostics' hq rfl rfl rfl
  refine ⟨⟨⟨hdiagnostics, hp⟩, hdiagnostics', hq⟩, ?_, by decide +kernel, ?_⟩
  · obtain ⟨step, hstep, hcontent, hfollows, -⟩ := hlines 3 _ rfl
    rw [hhome] at hfollows
    refine ⟨step, hstep, hfollows.before, hfollows.arc .counterClockwise ?_⟩
    rw [hcontent]
    decide
  · have hlengths : positiveLengths (compile Estimate.sampleSettings Estimate.strokeSample) =
        [5, 3] := by
      decide +kernel
    obtain ⟨hsegments, hlength⟩ := hcounts hstraight
    rw [hlengths] at hsegments hlength
    exact ⟨hsegments, hlength.trans (by decide +kernel)⟩

end PenPlotter
