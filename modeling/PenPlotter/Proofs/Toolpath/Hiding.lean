import Mathlib
import PenPlotter.Proofs.Toolpath.Blocks

/-!
# Hiding the moves of a lifted pen

Whether the moves of a lifted pen are shown decides which nodes a step gives and
nothing else: the machine passes through the same states either way.

## Main definitions

* `Settings.showing` — settings with the moves of a lifted pen shown or hidden.
* `isLiftedAfter` — the pen is lifted behind a line of a program.
* `Node.isKept` — the nodes that are left when those moves are hidden.

## Main results

* `trace_congr` — the steps of a pass hang on the settings by the upper angle of the
  pen alone.
* `Step.nodes_hiding` — the nodes of one step without the hidden ones.
* `compile_hiding` — **hiding moves takes their strokes away and changes nothing else.**
-/

namespace PenPlotter

/-- The settings with the moves of a lifted pen shown or hidden. -/
def Settings.showing (s : Settings) (shown : Bool) : Settings := { s with showPenUp := shown }

/-- The pen is lifted behind the line with an index. -/
def isLiftedAfter (s : Settings) (p : List Text) (i : ℕ) : Bool :=
  ((Machine.zeroed s).run s (p.take (i + 1))).pen.lifted

/-- What is kept when the moves of a lifted pen are hidden: every tool change, and the
strokes of the lines behind which the pen is down. -/
def Node.isKept (lifted : ℕ → Bool) : Node → Bool
  | stroke t => !lifted t.line
  | toolChange .. => true

@[simp] theorem Node.isKept_stroke (lifted : ℕ → Bool) (t : Stroke) :
    (stroke t).isKept lifted = !lifted t.line := rfl

@[simp] theorem Node.isKept_toolChange (lifted : ℕ → Bool) (c : Color) (i : ℕ) :
    (toolChange c i).isKept lifted = true := rfl

/-! ### The same steps -/

/-- The steps of a pass hang on the settings by the upper angle of the pen alone. -/
theorem trace_congr {s s' : Settings} (h : s.penUpAngle = s'.penUpAngle) (index : ℕ) (m : Machine)
    (lines : List Text) : trace s index m lines = trace s' index m lines := by
  induction lines generalizing index m with
  | nil => rfl
  | cons line rest ih =>
    have hstep : Step.ofLine s index m line = Step.ofLine s' index m line := by
      unfold Step.ofLine
      rw [h]
    have hnext : m.next s line = m.next s' line := congrArg Step.after hstep
    rw [trace_cons, trace_cons, hstep, hnext, ih]

@[simp] theorem programTrace_showing (s : Settings) (shown : Bool) (p : List Text) :
    programTrace (s.showing shown) p = programTrace s p := by
  have hangle : (s.showing shown).penUpAngle = s.penUpAngle := rfl
  exact trace_congr hangle 0 (Machine.zeroed s) p

/-! ### One step -/

/-- Strokes of one line are kept or hidden together. -/
theorem filter_polyline (lifted : ℕ → Bool) (color : Color) (line : ℕ) (start : Point)
    (ps : List Point) :
    ((polyline color line start ps).map Node.stroke).filter (Node.isKept lifted) =
      if lifted line then [] else (polyline color line start ps).map Node.stroke := by
  have hkept : ∀ n ∈ (polyline color line start ps).map Node.stroke,
      n.isKept lifted = !lifted line := by
    intro n hn
    obtain ⟨t, ht, rfl⟩ := List.mem_map.mp hn
    rw [Node.isKept_stroke, line_of_mem_polyline ht]
  split_ifs with h
  · rw [List.filter_eq_nil_iff]
    intro n hn
    rw [hkept n hn, h]
    decide
  · rw [List.filter_eq_self]
    intro n hn
    rw [hkept n hn, Bool.eq_false_iff.mpr h]
    rfl

section

variable [Trigonometry]

/-- **The nodes of a step without the hidden ones** are those that are kept of all. -/
theorem Step.nodes_hiding (s : Settings) {lifted : ℕ → Bool} {step : Step}
    (h : lifted step.line = step.after.pen.lifted) :
    step.nodes (s.showing false) = (step.nodes (s.showing true)).filter (Node.isKept lifted) := by
  obtain ⟨line, content, before, effect⟩ := step
  cases effect with
  | toolChange color => rfl
  | badToolId => rfl
  | blank => rfl
  | unreadable cause => rfl
  | moved motion next =>
    cases motion with
    | none => rfl
    | some motion =>
      have hshown : Step.isHidden (s.showing true) next = false := Bool.and_false _
      have hhidden : Step.isHidden (s.showing false) next = next.pen.lifted := Bool.and_true _
      change lifted line = next.pen.lifted at h
      unfold Step.nodes
      dsimp only
      rw [hshown, hhidden, if_neg Bool.false_ne_true, filter_polyline, h]

/-! ### Programs -/

/-- **Hiding the moves of a lifted pen only hides.**  What is left are all the tool
changes and the strokes of the lines behind which the pen is down, each one as it was
and in the same order. -/
theorem compile_hiding (s : Settings) (p : List Text) :
    compile (s.showing false) p =
      (compile (s.showing true) p).filter (Node.isKept (isLiftedAfter s p)) := by
  unfold compile
  rw [programTrace_showing, programTrace_showing, List.filter_flatMap]
  apply List.flatMap_congr
  intro step hstep
  obtain ⟨i, hi⟩ := List.mem_iff_getElem?.mp hstep
  rw [programTrace_getElem?, Option.map_eq_some_iff] at hi
  obtain ⟨line, hline, rfl⟩ := hi
  apply Step.nodes_hiding
  rw [Step.after_ofLine, ← Machine.run_take_succ s _ hline]
  rfl

end

end PenPlotter
