import Mathlib
import PenPlotter.Proofs.Estimate.Diagnostics
import PenPlotter.Proofs.Estimate.Timed
import PenPlotter.Proofs.Toolpath.Drawn
import PenPlotter.Proofs.Toolpath.Hiding

/-!
# What hangs on the settings

The two passes over a program start from machines that hold nearly all of the settings.
A toolpath hangs on four of them all the same, and an estimate on the home, the upper
angle of the pen and the three rates.  So a toolpath that is kept stays right while
those four stay, whatever else is set.

## Main definitions

* `Settings.DrawsAs` — settings with the same pen: the four that a toolpath hangs on.
* `Settings.TimesAs` — settings with the same home and rates, which an estimate hangs on.

## Main results

* `compile_congr`, `estimate_congr` — a toolpath and an estimate by the settings.
* `passes_congr` — **what the settings can change, and what they cannot.**
-/

namespace PenPlotter

/-- The settings have the same pen: its upper angle, its colours, and whether its moves
are shown when it is lifted. -/
structure Settings.DrawsAs (s s' : Settings) : Prop where
  penUpAngle : s.penUpAngle = s'.penUpAngle
  penUpColor : s.penUpColor = s'.penUpColor
  penDownColor : s.penDownColor = s'.penDownColor
  showPenUp : s.showPenUp = s'.showPenUp

/-- The settings have the same home and the same rates, and the lift starts at the same
height. -/
structure Settings.TimesAs (s s' : Settings) : Prop where
  homeX : s.home.x = s'.home.x
  homeY : s.home.y = s'.home.y
  penUpAngle : s.penUpAngle = s'.penUpAngle
  feedRate : s.feedRate = s'.feedRate
  acceleration : s.acceleration = s'.acceleration
  zRate : s.zRate = s'.zRate

/-! ### Where the passes start -/

/-- With the same pen a pass starts from the same machine but for its rates. -/
theorem Settings.DrawsAs.zeroed {s s' : Settings} (h : s.DrawsAs s') :
    (Machine.zeroed s).drawn = (Machine.zeroed s').drawn := by
  unfold Machine.zeroed Machine.drawn
  rw [h.penUpAngle, h.penUpColor, h.penDownColor]

/-- With the same home and rates an estimate starts from tallies that are alike. -/
theorem Settings.TimesAs.start {s s' : Settings} (h : s.TimesAs s') :
    (Tally.start s).timed = (Tally.start s').timed := by
  have hhome : s.home = s'.home := by
    rw [Point.mk.injEq]
    exact ⟨h.homeX, h.homeY⟩
  unfold Tally.start Machine.parked Machine.zeroed Tally.timed Machine.timed
  dsimp only
  rw [hhome, h.penUpAngle, h.feedRate, h.acceleration]

section

variable [Trigonometry]

/-! ### Toolpaths -/

theorem Settings.DrawsAs.nodes {s s' : Settings} (h : s.DrawsAs s') (step : Step) :
    step.nodes s = step.nodes s' := by
  unfold Step.nodes Step.isHidden
  rw [h.showPenUp]

/-- **A toolpath hangs on four of the settings.** -/
theorem compile_congr {s s' : Settings} (h : s.DrawsAs s') (p : List Text) :
    compile s p = compile s' p := by
  calc compile s p
      = (trace s 0 (Machine.zeroed s) p).flatMap (Step.nodes s) := rfl
    _ = (trace s 0 (Machine.zeroed s') p).flatMap (Step.nodes s) := nodes_trace_congr s 0 h.zeroed p
    _ = (trace s' 0 (Machine.zeroed s') p).flatMap (Step.nodes s) := by
        rw [trace_congr h.penUpAngle]
    _ = (trace s' 0 (Machine.zeroed s') p).flatMap (Step.nodes s') :=
        List.flatMap_congr fun step _ => h.nodes step
    _ = compile s' p := rfl

/-! ### Estimates -/

/-- **An estimate hangs on the home, the rates and the upper angle of the pen.** -/
theorem estimate_congr {s s' : Settings} (h : s.TimesAs s') (p : List Text) :
    estimate s p = estimate s' p := by
  unfold estimate
  rw [Tally.stats_congr h.zRate h.start, diagnostics_eq_filterMap, diagnostics_eq_filterMap]

/-- **What the settings can change, and what they cannot.**  Settings with the same pen
give every program the same toolpath, whatever the home, the rates, the way of playback
and the reflection on load.  Settings with the same home, rates and upper angle give it
the same estimate, diagnostics included, whatever the colours and all that is shown. -/
theorem passes_congr (s s' : Settings) (p : List Text) :
    (s.DrawsAs s' → compile s p = compile s' p) ∧
    (s.TimesAs s' → estimate s p = estimate s' p) :=
  ⟨fun h => compile_congr h p, fun h => estimate_congr h p⟩

end

/-- Settings that are as far from the usual ones as a toolpath can bear. -/
def Settings.drawsSample : Settings :=
  { home := ⟨5, -7⟩, penDownAngle := 3, feedRate := 1, acceleration := 0, zRate := -1,
    reverseForGlass := true, lookAhead := 0, drawAll := false }

/-- Settings that are as far from the usual ones as an estimate can bear. -/
def Settings.timesSample : Settings :=
  { penDownAngle := 3, penUpColor := Color.black, penDownColor := Color.lime, showPenUp := true,
    reverseForGlass := true, lookAhead := 0, drawAll := false }

/-- A program with a word for a rate, a tool change, a move of the pen and an arc. -/
def Settings.programSample : List Text :=
  [['G', '1', ' ', 'F', '9', ' ', 'Z', '5', '0'], ['M', '0', '6', ' ', 'T', '9'],
    ['G', '2', ' ', 'X', '4', ' ', 'I', '2'], ['G', '1', ' ', 'A', 'o']]

theorem passes_congr_sample :
    (Settings.DrawsAs default Settings.drawsSample ∧ Settings.TimesAs default Settings.timesSample) ∧
    compile default Settings.programSample = compile Settings.drawsSample Settings.programSample ∧
    estimate default Settings.programSample = estimate Settings.timesSample Settings.programSample := by
  have hdraws : Settings.DrawsAs default Settings.drawsSample := ⟨rfl, rfl, rfl, rfl⟩
  have htimes : Settings.TimesAs default Settings.timesSample := ⟨rfl, rfl, rfl, rfl, rfl, rfl⟩
  exact ⟨⟨hdraws, htimes⟩, (passes_congr default Settings.drawsSample _).1 hdraws,
    (passes_congr default Settings.timesSample _).2 htimes⟩

end PenPlotter
