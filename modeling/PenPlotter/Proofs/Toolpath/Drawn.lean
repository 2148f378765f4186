import Mathlib
import PenPlotter.Proofs.Toolpath.Trace

/-!
# What a toolpath looks at

The compiler carries the rates of the machine and never looks at them: a word for a rate
is passed over, and no other word, no effect and no node has to do with one.  So a pass
from a machine with other rates goes through the same steps and shows the same nodes.

## Main definitions

* `Machine.drawn`, `Effect.drawn`, `Step.drawn` — a machine, an effect and a step
  without rates.

## Main results

* `Effect.ofLine_drawn` — a line has the same effect without rates.
* `trace_drawn` — so has a whole pass.
* `nodes_trace_congr` — **machines that differ in their rates show the same nodes.**
-/

namespace PenPlotter

/-- The machine without its rates. -/
def Machine.drawn (m : Machine) : Machine := { m with feedRate := 0, acceleration := 0 }

/-- The effect without the rates of the machine that it leads to. -/
def Effect.drawn : Effect → Effect
  | moved motion next => moved motion next.drawn
  | effect => effect

/-- The step of a machine without its rates. -/
def Step.drawn (step : Step) : Step :=
  { step with before := step.before.drawn, effect := step.effect.drawn }

/-! ### Words -/

theorem assign_drawn (penUpAngle : Float) (start : Point) (m : Machine) (v : Float) (q : Quantity) :
    Effect.assign penUpAngle start m.drawn v q = (Effect.assign penUpAngle start m v q).drawn := by
  cases q <;> rfl

/-- A word has the same effect without rates. -/
theorem effect_word_drawn (penUpAngle : Float) (start : Point) (m : Machine) (w : Word) :
    Effect.word penUpAngle start m.drawn w =
      (Effect.word penUpAngle start m w).map Machine.drawn := by
  unfold Effect.word
  cases w.command with
  | assign q =>
    dsimp only
    split_ifs
    · rfl
    · cases w.number with
      | error cause => rfl
      | ok v => exact congrArg Except.ok (assign_drawn penUpAngle start m v q)
  | _ => rfl

theorem words_drawn (penUpAngle : Float) (start : Point) (m : Machine) (ws : List Word) :
    Effect.words penUpAngle start m.drawn ws =
      (Effect.words penUpAngle start m ws).map Machine.drawn := by
  induction ws generalizing m with
  | nil => rfl
  | cons w rest ih =>
    rw [Effect.words, Effect.words, effect_word_drawn]
    cases Effect.word penUpAngle start m w with
    | error cause => rfl
    | ok next => exact ih next

/-! ### Lines -/

theorem Effect.ofWords_drawn (penUpAngle : Float) (m : Machine) (ws : List Word) :
    ofWords penUpAngle m.drawn ws = (ofWords penUpAngle m ws).drawn := by
  have hwords : words penUpAngle m.drawn.position { m.drawn with arcCenter := m.drawn.position } ws =
      (words penUpAngle m.position { m with arcCenter := m.position } ws).map Machine.drawn :=
    words_drawn penUpAngle m.position { m with arcCenter := m.position } ws
  unfold ofWords
  rw [hwords]
  split_ifs
  · rfl
  · cases words penUpAngle m.position { m with arcCenter := m.position } ws <;> rfl

/-- **A line has the same effect without rates.** -/
theorem Effect.ofLine_drawn (penUpAngle : Float) (m : Machine) (line : Text) :
    ofLine penUpAngle m.drawn line = (ofLine penUpAngle m line).drawn := by
  unfold ofLine
  dsimp only
  split
  · split <;> rfl
  · exact ofWords_drawn penUpAngle m _

theorem Effect.machine_drawn (m : Machine) (effect : Effect) :
    effect.drawn.machine m.drawn = (effect.machine m).drawn := by
  cases effect <;> rfl

theorem Step.ofLine_drawn (s : Settings) (index : ℕ) (m : Machine) (line : Text) :
    Step.ofLine s index m.drawn line = (Step.ofLine s index m line).drawn := by
  unfold Step.ofLine
  rw [Effect.ofLine_drawn]
  rfl

theorem Machine.next_drawn (s : Settings) (m : Machine) (line : Text) :
    m.drawn.next s line = (m.next s line).drawn := by
  unfold Machine.next
  rw [Effect.ofLine_drawn, Effect.machine_drawn]

/-! ### Passes -/

/-- **A pass goes through the same steps without rates.** -/
theorem trace_drawn (s : Settings) (index : ℕ) (m : Machine) (lines : List Text) :
    trace s index m.drawn lines = (trace s index m lines).map Step.drawn := by
  induction lines generalizing index m with
  | nil => rfl
  | cons line rest ih =>
    rw [trace_cons, trace_cons, Step.ofLine_drawn, Machine.next_drawn, ih, List.map_cons]

section

variable [Trigonometry]

/-- A step shows the same nodes without rates. -/
theorem Step.nodes_drawn (s : Settings) (step : Step) : step.drawn.nodes s = step.nodes s := by
  obtain ⟨line, content, before, effect⟩ := step
  cases effect with
  | moved motion next => cases motion <;> rfl
  | _ => rfl

/-- **Machines that differ in their rates show the same nodes.** -/
theorem nodes_trace_congr (s : Settings) (index : ℕ) {m n : Machine} (h : m.drawn = n.drawn)
    (lines : List Text) : (trace s index m lines).flatMap (Step.nodes s) =
      (trace s index n lines).flatMap (Step.nodes s) := by
  have hdrawn : ∀ m : Machine, (trace s index m.drawn lines).flatMap (Step.nodes s) =
      (trace s index m lines).flatMap (Step.nodes s) := by
    intro m
    rw [trace_drawn, List.flatMap_map]
    exact List.flatMap_congr fun step _ => Step.nodes_drawn s step
  rw [← hdrawn, h, hdrawn]

end

end PenPlotter
