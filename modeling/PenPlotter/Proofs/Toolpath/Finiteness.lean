import Mathlib
import PenPlotter.Proofs.Motion.ArcRange
import PenPlotter.Proofs.Toolpath.Blocks
import PenPlotter.Proofs.Toolpath.Overflow

/-!
# Finite toolpaths

What is drawn between finite positions is finite: the points of an arc do not overflow
unless its ends do.  So a toolpath is finite as long as no position of the machine is
lost.

## Main definitions

* `Stroke.IsFinite` — a stroke between finite points.

## Main results

* `Step.strokes_isFinite_iff` — the strokes of a line are finite if its ends are.
* `compile_isFinite` — a toolpath is finite if all positions are.
* `toolpath_isFinite` — **when a toolpath is finite.**
* `toolpath_isFinite_fails` — it is not always.
-/

namespace PenPlotter

open Binary64

/-- A stroke between finite points. -/
structure Stroke.IsFinite (t : Stroke) : Prop where
  start : t.start.IsFinite
  stop : t.stop.IsFinite

/-! ### The strokes of a line -/

/-- Strokes through points are finite if the points are. -/
theorem polyline_isFinite_iff (color : Color) (line : ℕ) (start p : Point) (ps : List Point) :
    (∀ t ∈ polyline color line start (p :: ps), t.IsFinite) ↔
      start.IsFinite ∧ ∀ q ∈ p :: ps, q.IsFinite := by
  induction ps generalizing start p with
  | nil =>
    simp only [polyline_cons, polyline_nil, List.mem_singleton, forall_eq]
    exact ⟨fun h => ⟨h.start, h.stop⟩, fun h => ⟨h.1, h.2⟩⟩
  | cons q ps ih =>
    rw [polyline_cons, List.forall_mem_cons, ih, List.forall_mem_cons (a := p)]
    constructor
    · rintro ⟨hfirst, hp, hrest⟩
      exact ⟨hfirst.start, hp, hrest⟩
    · rintro ⟨hstart, hp, hrest⟩
      exact ⟨⟨hstart, hp⟩, hp, hrest⟩

/-- An arc that is drawn with more than one stroke has a finite length. -/
theorem isFinite_of_arcStrokes {length : Float} (h : 1 < arcStrokes length) :
    length.isFinite = true := by
  unfold arcStrokes isLongArc at h
  split_ifs at h with hlong hshort
  · exact (Bool.and_eq_true_iff.mp hlong).1
  · exact (Bool.and_eq_true_iff.mp hshort).1
  · exact absurd h (lt_irrefl 1)

section

variable [Trigonometry]

/-- **A motion from a finite point leads through finite points**, if it ends at one. -/
theorem route_isFinite_iff (htrig : Trigonometry.IsBounded) {start : Point} (hstart : start.IsFinite)
    (next : Machine) (motion : Motion) :
    (∀ q ∈ route start next motion, q.IsFinite) ↔ next.position.IsFinite := by
  cases motion with
  | linear => simp [route]
  | arc winding =>
    rw [route, ArcRequest.points, List.forall_mem_append, List.forall_mem_singleton, stop_arcRequest,
      and_iff_right_iff_imp]
    intro hstop q hq
    obtain ⟨k, hk, rfl⟩ := List.mem_map.mp hq
    rw [List.mem_range] at hk
    have hsteps : k + 1 < arcStrokes (arcRequest start next winding).arc.length := by omega
    have hle := (arcStrokes_bounds (arcRequest start next winding).arc.length).2
    have hlength := isFinite_of_arcStrokes (lt_of_le_of_lt (Nat.le_add_left 1 k) hsteps)
    refine Arc.point_isFinite htrig hstart hstop hlength (within_div_natCast hsteps ?_)
    exact hle.trans_lt (by decide)

/-- The strokes of a motion are finite if its ends are. -/
theorem strokes_isFinite_iff (htrig : Trigonometry.IsBounded) (color : Color) (line : ℕ)
    (start : Point) (next : Machine) (motion : Motion) :
    (∀ t ∈ polyline color line start (route start next motion), t.IsFinite) ↔
      start.IsFinite ∧ next.position.IsFinite := by
  have hstrokes : (∀ t ∈ polyline color line start (route start next motion), t.IsFinite) ↔
      start.IsFinite ∧ ∀ q ∈ route start next motion, q.IsFinite := by
    obtain ⟨ps, hroute, -, -⟩ := exists_route start next motion
    cases hpoints : route start next motion with
    | nil => simp [hpoints] at hroute
    | cons p ps => exact polyline_isFinite_iff color line start p ps
  rw [hstrokes]
  exact and_congr_right fun hstart => route_isFinite_iff htrig hstart next motion

/-- **The strokes of a line are finite if its ends are**, provided that it draws any. -/
theorem Step.strokes_isFinite_iff (htrig : Trigonometry.IsBounded) (s : Settings) (step : Step)
    {t : Stroke} (ht : .stroke t ∈ step.nodes s) :
    (∀ t, .stroke t ∈ step.nodes s → t.IsFinite) ↔
      step.before.position.IsFinite ∧ step.after.position.IsFinite := by
  obtain ⟨line, content, before, effect⟩ := step
  unfold Step.nodes Step.after at *
  dsimp only at *
  cases effect with
  | toolChange color => simp at ht
  | badToolId => cases ht
  | blank => cases ht
  | unreadable cause => cases ht
  | moved motion next =>
    cases motion with
    | none => cases ht
    | some motion =>
      dsimp only at *
      split_ifs at ht ⊢
      · cases ht
      · have hmotion := PenPlotter.strokes_isFinite_iff htrig next.pen.strokeColor line
          before.position next motion
        simpa using hmotion

end

/-! ### Toolpaths -/

section

variable [Trigonometry]

/-- **A toolpath is finite if every line that draws starts and ends at a finite point.** -/
theorem compile_isFinite_iff (htrig : Trigonometry.IsBounded) (s : Settings) (p : List Text) :
    (∀ t, .stroke t ∈ compile s p → t.IsFinite) ↔
      ∀ step ∈ programTrace s p, ∀ t, .stroke t ∈ step.nodes s →
        step.before.position.IsFinite ∧ step.after.position.IsFinite := by
  unfold compile
  simp only [List.mem_flatMap]
  constructor
  · intro h step hstep t ht
    refine (step.strokes_isFinite_iff htrig s ht).mp ?_
    intro t' ht'
    exact h t' ⟨step, hstep, ht'⟩
  · rintro h t ⟨step, hstep, ht⟩
    exact (step.strokes_isFinite_iff htrig s ht).mpr (h step hstep t ht) t ht

/-- A toolpath is finite if all positions of the machine are. -/
theorem compile_isFinite (htrig : Trigonometry.IsBounded) (s : Settings) {p : List Text}
    (hrun : ∀ i, ((Machine.zeroed s).run s (p.take i)).position.IsFinite) :
    ∀ t, .stroke t ∈ compile s p → t.IsFinite := by
  rw [compile_isFinite_iff htrig]
  intro step hstep t ht
  obtain ⟨i, hi⟩ := List.mem_iff_getElem?.mp hstep
  rw [programTrace_getElem?] at hi
  obtain ⟨line, hline, rfl⟩ := Option.map_eq_some_iff.mp hi
  refine ⟨hrun i, ?_⟩
  rw [Step.after_ofLine, ← Machine.run_take_succ s _ hline]
  exact hrun (i + 1)

/-- Without a line that overflows a toolpath is finite. -/
theorem compile_isFinite_of_not_overflows (htrig : Trigonometry.IsBounded) (s : Settings)
    {p : List Text} (h : ∀ i line, p[i]? = some line →
      ¬ Line.Overflows s.penUpAngle ((Machine.zeroed s).run s (p.take i)) line) :
    ∀ t, .stroke t ∈ compile s p → t.IsFinite := by
  apply compile_isFinite htrig
  intro i
  rcases run_isFinite s (m := Machine.zeroed s) origin_isFinite p i with
    hfinite | ⟨j, line, -, hline, -, hover⟩
  · exact hfinite
  · exact absurd hover (h j line hline)

/-- **When a toolpath is finite.**  All its strokes are finite unless some line overflows.
No line does in millimetres from the origin; and none does in any mix of modes if no
coordinate is larger than `2 ^ 966`.  A toolpath is finite exactly if the lines that draw
start and end at finite points, and the first line behind which the position is not finite
overflows.  A numeral that is not finite itself drops its line without a trace. -/
theorem toolpath_isFinite (htrig : Trigonometry.IsBounded) (s : Settings) (p : List Text) :
    let machine i := (Machine.zeroed s).run s (p.take i)
    ((∀ i line, p[i]? = some line → ¬ Line.Overflows s.penUpAngle (machine i) line) →
      ∀ t, .stroke t ∈ compile s p → t.IsFinite) ∧
    ((∀ line ∈ p, Line.IsMetric line) → ∀ t, .stroke t ∈ compile s p → t.IsFinite) ∧
    ((∀ line ∈ p, ∀ w ∈ Line.tokens line, w.IsModerate) → wordCount p < 2 ^ 53 →
      ∀ t, .stroke t ∈ compile s p → t.IsFinite) ∧
    ((∀ t, .stroke t ∈ compile s p → t.IsFinite) ↔
      ∀ step ∈ programTrace s p, ∀ t, .stroke t ∈ step.nodes s →
        step.before.position.IsFinite ∧ step.after.position.IsFinite) ∧
    (∀ i, ¬ (machine i).position.IsFinite → ∃ j line, j < i ∧ p[j]? = some line ∧
      (machine j).position.IsFinite ∧ Line.Overflows s.penUpAngle (machine j) line) ∧
    (∀ i line w, p[i]? = some line → ToolChange.idText? (Text.trimStart line) = none →
      w ∈ Line.tokens line → w.IsUnreadable →
        machine (i + 1) = machine i ∧ (Step.ofLine s i (machine i) line).nodes s = []) := by
  dsimp only
  refine ⟨compile_isFinite_of_not_overflows htrig s, ?_, ?_, compile_isFinite_iff htrig s p, ?_, ?_⟩
  · intro hp
    apply compile_isFinite_of_not_overflows htrig s
    intro i line hline
    exact not_overflows_of_isMetric s hp hline
  · intro hp hcount
    apply compile_isFinite htrig
    intro i
    have hle := wordCount_take_le p i
    have hspans := run_spans s (m := Machine.zeroed s) spans_origin (p := p.take i) (by omega) (by
      intro line hline
      exact hp line (List.mem_of_mem_take hline))
    exact hspans.isFinite
  · intro i hi
    exact (run_isFinite s (m := Machine.zeroed s) origin_isFinite p i).resolve_left hi
  · intro i line w hline htool hw h
    obtain ⟨cause, heffect⟩ := ofLine_of_isUnreadable (m := (Machine.zeroed s).run s (p.take i))
      htool hw h
    rw [Machine.run_take_succ s _ hline]
    constructor
    · unfold Machine.next
      rw [heffect]
      rfl
    · unfold Step.nodes Step.ofLine
      rw [heffect]

end

/-- The functions of angles, as far as a quarter of the unit circle needs them. -/
@[reducible]
def quarterTrigonometry : Trigonometry where
  sin angle := if angle == 0.7853981633974483 then 0.7071067811865475 else 0
  cos angle := if angle == 0.7853981633974483 then 0.7071067811865476 else 1
  atan2 y x := if x < y then 1.5707963267948966 else 0

/-- A quarter of the unit circle. -/
def quarterSample : List Text :=
  [['G', '1', ' ', 'Z', '5', '0'], ['G', '1', ' ', 'X', '1'],
    ['G', '3', ' ', 'X', '0', ' ', 'Y', '1', ' ', 'I', '-', '1']]

theorem toolpath_isFinite_sample :
    @Trigonometry.IsBounded quarterTrigonometry ∧
    (@compile quarterTrigonometry default quarterSample).length = 4 ∧
    ∀ t, .stroke t ∈ @compile quarterTrigonometry default quarterSample → t.IsFinite := by
  have htrig : @Trigonometry.IsBounded quarterTrigonometry := by
    refine @Trigonometry.IsBounded.mk quarterTrigonometry ?_ ?_ ?_
    · intro angle _
      change Float.abs (if angle == 0.7853981633974483 then 0.7071067811865475 else 0) ≤ 1
      split_ifs <;> decide +kernel
    · intro angle _
      change Float.abs (if angle == 0.7853981633974483 then 0.7071067811865476 else 1) ≤ 1
      split_ifs <;> decide +kernel
    · intro y x _ _
      change Float.abs (if x < y then 1.5707963267948966 else 0) ≤ halfTurn
      split_ifs <;> decide +kernel
  refine ⟨htrig, by decide +kernel, ?_⟩
  exact (@toolpath_isFinite quarterTrigonometry htrig default quarterSample).2.1 (by decide)

/-- A length that cannot be converted to millimetres. -/
def overflowSample : List Text :=
  [['G', '1', ' ', 'Z', '5', '0'], ['G', '2', '0'], ['G', '1', ' ', 'X', '1', 'e', '3', '0', '8']]

/-- Toolpaths are not always finite: a finite length in inches can be infinite in
millimetres. -/
theorem toolpath_isFinite_fails :
    ¬ ∀ (s : Settings) (p : List Text) (t : Stroke), .stroke t ∈ compile s p → t.IsFinite := by
  intro h
  have hcompile : compile default overflowSample =
      [.stroke ⟨Point.origin, Point.origin, Color.black, 0⟩,
        .stroke ⟨Point.origin, ⟨Numeral.infinity, 0⟩, Color.black, 2⟩] := by
    decide +kernel
  have hmem : .stroke ⟨Point.origin, ⟨Numeral.infinity, 0⟩, Color.black, 2⟩ ∈
      compile default overflowSample := by
    rw [hcompile]
    exact List.mem_cons_of_mem _ (List.mem_singleton_self _)
  have hfinite := (h default overflowSample _ hmem).stop.x
  revert hfinite
  decide +kernel

end PenPlotter
