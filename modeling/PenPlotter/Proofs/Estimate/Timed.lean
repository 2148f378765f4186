import Mathlib
import PenPlotter.Proofs.Estimate.Reading

/-!
# What an estimate looks at

Of the machine that it carries, an estimate looks at the place, the height, the units and
the two rates.  It looks neither at the pen, nor at the mode of coordinates, nor at the
centre of the arc before, and of the settings it needs only the cruise speed of the lift
once it is under way.  So two estimates that start alike in the one stay alike, however
they differ in the other.

## Main definitions

* `Machine.timed`, `Tally.timed` — a machine and a tally without what is not looked at.

## Main results

* `ofLine_timed` — a line is read alike without it.
* `Tally.line_congr`, `Tally.lines_congr` — **tallies that are alike stay alike.**
-/

namespace PenPlotter

/-- The machine without what an estimate does not look at. -/
def Machine.timed (m : Machine) : Machine :=
  { m with
    arcCenter := Point.origin
    absolute := true
    pen := ⟨true, Color.black, Color.black, Color.black⟩ }

/-- The tally of a machine without what an estimate does not look at. -/
def Tally.timed (t : Tally) : Tally := { t with machine := t.machine.timed }

/-! ### Lines -/

theorem assign_timed (m : Machine) (t : Destination) (v : Float) (q : Quantity) :
    Reading.assign m.timed t v q =
      ((Reading.assign m t v q).1.timed, (Reading.assign m t v q).2) := by
  unfold Reading.assign
  cases q with
  | feedRate => dsimp only; split_ifs <;> rfl
  | acceleration => dsimp only; split_ifs <;> rfl
  | _ => rfl

/-- A word is read alike without what is not looked at. -/
theorem word_timed (m : Machine) (t : Destination) (w : Word) :
    Reading.word m.timed t w = (Reading.word m t w).map (Prod.map Machine.timed id) := by
  unfold Reading.word
  cases w.command with
  | assign q =>
    cases w.number with
    | error cause => rfl
    | ok v => exact congrArg Except.ok (assign_timed m t (v * m.scale) q)
  | _ => rfl

theorem ofWords_timed (m : Machine) (t : Destination) (ws : List Word) :
    Reading.ofWords m.timed t ws = { Reading.ofWords m t ws with
      machine := (Reading.ofWords m t ws).machine.timed } := by
  induction ws generalizing m t with
  | nil => rfl
  | cons w rest ih =>
    rw [Reading.ofWords, Reading.ofWords, word_timed]
    cases Reading.word m t w with
    | error cause => rfl
    | ok next => exact ih next.1 next.2

/-- **A line is read alike** without what is not looked at. -/
theorem ofLine_timed (m : Machine) (line : Text) :
    Reading.ofLine m.timed line = { Reading.ofLine m line with
      machine := (Reading.ofLine m line).machine.timed } :=
  ofWords_timed m (Destination.ofMachine m) (Line.tokens line)

/-! ### Tallies -/

theorem Tally.lift_timed (zRate z : Float) (t : Tally) :
    t.timed.lift zRate z = (t.lift zRate z).timed := by
  unfold Tally.lift Tally.timed Machine.timed
  dsimp only
  split_ifs <;> rfl

theorem Tally.travel_timed (length : Float) (t : Tally) :
    t.timed.travel length = (t.travel length).timed := by
  unfold Tally.travel Tally.timed Machine.timed
  dsimp only
  split_ifs <;> rfl

section

variable [Trigonometry]

/-- A line adds alike without what is not looked at.  The centre that it leaves is not
looked at again. -/
theorem Tally.line_timed (s : Settings) (t : Tally) (line : Text) :
    (t.timed.line s line).timed = (t.line s line).timed := by
  have hmoved : ∀ (m : Machine) (z length : Float),
      (({ t.timed with machine := m.timed } : Tally).lift s.zRate z).travel length =
        ((({ t with machine := m } : Tally).lift s.zRate z).travel length).timed := by
    intro m z length
    rw [← travel_timed, ← lift_timed]
    rfl
  have hread : Reading.ofLine t.timed.machine line = { Reading.ofLine t.machine line with
      machine := (Reading.ofLine t.machine line).machine.timed } := ofLine_timed t.machine line
  unfold Tally.line Tally.move
  dsimp only
  rw [hread, hmoved]
  rfl

/-- **Tallies that are alike stay alike**, also under settings that only lift alike. -/
theorem Tally.line_congr {s s' : Settings} (hz : s.zRate = s'.zRate) {t u : Tally}
    (h : t.timed = u.timed) (line : Text) : (t.line s line).timed = (u.line s' line).timed := by
  have hsettings : u.line s line = u.line s' line := by
    unfold Tally.line
    rw [hz]
  rw [← line_timed, h, line_timed, hsettings]

theorem Tally.lines_congr {s s' : Settings} (hz : s.zRate = s'.zRate) {t u : Tally}
    (h : t.timed = u.timed) (p : List Text) : (t.lines s p).timed = (u.lines s' p).timed := by
  induction p generalizing t u with
  | nil => exact h
  | cons line rest ih => exact ih (line_congr hz h line)

/-- Tallies that are alike come to the same totals. -/
theorem Tally.stats_congr {s s' : Settings} (hz : s.zRate = s'.zRate) {t u : Tally}
    (h : t.timed = u.timed) (p : List Text) : (t.lines s p).stats = (u.lines s' p).stats := by
  have hstats : ∀ v : Tally, v.stats = v.timed.stats := fun _ => rfl
  rw [hstats, lines_congr hz h p, ← hstats]

end

end PenPlotter
