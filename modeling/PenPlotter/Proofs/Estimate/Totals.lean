import Mathlib
import PenPlotter.Proofs.Estimate.Reading
import PenPlotter.Proofs.Estimate.Seconds

/-!
# The totals of an estimate

An estimate adds up the times of the moves of a program.  All of them have a length and
rates that can be used, whatever the words of the program are, so that the total is a
number that is not negative unless the way of the ramps of some move is lost.

## Main definitions

* `Machine.IsSound` — the rates can be used, and the height is a number.
* `Tally.moves`, `Tally.allMoves` — the moves of a line and of many lines.

## Main results

* `ofLine_isSound`, `line_isSound` — reading a line keeps a machine sound.
* `allMoves_isUsable` — every move has a length and rates that can be used.
* `estimate_totals` — **when the totals of an estimate are numbers.**
* `estimate_totals_fail` — the time is not always a number.
-/

namespace PenPlotter

open Binary64

/-! ### Sums -/

theorem sum_isNonneg {start : Float} (hstart : IsNonneg start) {xs : List Float}
    (h : ∀ x ∈ xs, IsNonneg x) : IsNonneg (xs.foldl (· + ·) start) := by
  induction xs generalizing start with
  | nil => exact hstart
  | cons x xs ih =>
    obtain ⟨hx, hxs⟩ := List.forall_mem_cons.mp h
    exact ih (hstart.add hx) hxs

theorem isNaN_sum_of_start {start : Float} (hstart : start.isNaN = true) (xs : List Float) :
    (xs.foldl (· + ·) start).isNaN = true := by
  induction xs generalizing start with
  | nil => exact hstart
  | cons x xs ih => exact ih (isNaN_add_left hstart x)

/-- One summand that is no number spoils the sum. -/
theorem isNaN_sum (start : Float) {xs : List Float} {x : Float} (hmem : x ∈ xs)
    (hx : x.isNaN = true) : (xs.foldl (· + ·) start).isNaN = true := by
  induction xs generalizing start with
  | nil => cases hmem
  | cons y xs ih =>
    rcases List.mem_cons.mp hmem with rfl | hmem
    · exact isNaN_sum_of_start (isNaN_add_right start hx) xs
    · exact ih (start + y) hmem

/-! ### Rates that can be used -/

/-- The rates of the machine can be used, and its height is a number. -/
structure Machine.IsSound (m : Machine) : Prop where
  feedRate : Reading.isUsable m.feedRate = true
  acceleration : Reading.isUsable m.acceleration = true
  height : m.z.isNaN = false

/-- A value in millimetres may overflow, but it is a number. -/
theorem isNaN_scaled {w : Word} {v : Float} (h : w.number = .ok v) (m : Machine) :
    (v * m.scale).isNaN = false :=
  (value_mul (isFinite_of_number h) (isFinite_scale m.units)).1

/-- A height that is asked for is a number. -/
theorem word_height {m m' : Machine} {t t' : Destination} {w : Word} (ht : t.z.isNaN = false)
    (h : Reading.word m t w = .ok (m', t')) : t'.z.isNaN = false := by
  rcases reading_word_cases h with ⟨units, -, -, rfl⟩ | ⟨q, v, -, hn, hassign⟩ | ⟨-, rfl⟩
  · exact ht
  · cases q with
    | z => cases hassign; exact isNaN_scaled hn m
    | _ => cases hassign; exact ht
  · exact ht

theorem ofWords_height (m : Machine) {t : Destination} (ht : t.z.isNaN = false) (ws : List Word) :
    (Reading.ofWords m t ws).destination.z.isNaN = false := by
  induction ws generalizing m t with
  | nil => exact ht
  | cons w rest ih =>
    unfold Reading.ofWords
    cases hw : Reading.word m t w with
    | error cause => exact ht
    | ok next => exact ih next.1 (word_height ht hw)

/-- **A word keeps the machine sound**: rates are taken over only if they can be used. -/
theorem word_isSound {m m' : Machine} {t t' : Destination} {w : Word} (hm : m.IsSound)
    (h : Reading.word m t w = .ok (m', t')) : m'.IsSound := by
  rcases reading_word_cases h with ⟨units, -, rfl, -⟩ | ⟨q, v, -, -, hassign⟩ | ⟨rfl, -⟩
  · exact ⟨hm.feedRate, hm.acceleration, hm.height⟩
  · cases q with
    | feedRate =>
      cases hassign
      split_ifs with husable
      · exact ⟨husable, hm.acceleration, hm.height⟩
      · exact hm
    | acceleration =>
      cases hassign
      split_ifs with husable
      · exact ⟨hm.feedRate, husable, hm.height⟩
      · exact hm
    | _ => cases hassign; exact hm
  · exact hm

theorem ofWords_isSound {m : Machine} (hm : m.IsSound) (t : Destination) (ws : List Word) :
    (Reading.ofWords m t ws).machine.IsSound := by
  induction ws generalizing m t with
  | nil => exact hm
  | cons w rest ih =>
    unfold Reading.ofWords
    cases hw : Reading.word m t w with
    | error cause => exact hm
    | ok next => exact ih (word_isSound hm hw) next.2

/-- The height that a line asks for is a number if the one before it is. -/
theorem ofLine_height {m : Machine} (hz : m.z.isNaN = false) (line : Text) :
    (Reading.ofLine m line).destination.z.isNaN = false :=
  ofWords_height m (t := Destination.ofMachine m) hz (Line.tokens line)

/-- Reading a line keeps the machine sound. -/
theorem ofLine_isSound {m : Machine} (hm : m.IsSound) (line : Text) :
    (Reading.ofLine m line).machine.IsSound ∧
      (Reading.ofLine m line).destination.z.isNaN = false :=
  ⟨ofWords_isSound hm _ (Line.tokens line), ofLine_height hm.height line⟩

/-- At home the rates are those of the settings. -/
theorem start_isSound {s : Settings} (hangle : s.penUpAngle.isFinite = true)
    (hfeed : Reading.isUsable s.feedRate = true)
    (hacceleration : Reading.isUsable s.acceleration = true) : (Tally.start s).machine.IsSound :=
  ⟨hfeed, hacceleration, isNaN_of_isFinite hangle⟩

section

variable [Trigonometry]

/-! ### Moves -/

/-- The moves of a line: the pen first, if its height changes, and then the way. -/
def Tally.moves (s : Settings) (t : Tally) (line : Text) : List Move :=
  let r := Reading.ofLine t.machine line
  let length := r.moveLength (Line.ofText line).motion
  (if r.destination.z == r.machine.z then []
    else [⟨(r.destination.z - r.machine.z).abs, s.zRate, r.machine.acceleration⟩]) ++
  if 0 < length then [⟨length, r.machine.feedRate, r.machine.acceleration⟩] else []

/-- The moves of lines in order. -/
def Tally.allMoves (s : Settings) : Tally → List Text → List Move
  | _, [] => []
  | t, line :: rest => t.moves s line ++ Tally.allMoves s (t.line s line) rest

/-- The moves of a program. -/
def programMoves (s : Settings) (p : List Text) : List Move := (Tally.start s).allMoves s p

/-- A line adds the times of its moves in order. -/
theorem Tally.seconds_line (s : Settings) (t : Tally) (line : Text) :
    (t.line s line).seconds = ((t.moves s line).map Move.seconds).foldl (· + ·) t.seconds := by
  unfold Tally.line Tally.move Tally.moves Tally.travel Tally.lift
  dsimp only
  split_ifs <;> rfl

theorem Tally.seconds_lines (s : Settings) (t : Tally) (p : List Text) :
    (t.lines s p).seconds = ((t.allMoves s p).map Move.seconds).foldl (· + ·) t.seconds := by
  induction p generalizing t with
  | nil => rfl
  | cons line rest ih =>
    rw [Tally.lines_cons, ih, Tally.seconds_line, Tally.allMoves, List.map_append, List.foldl_append]

/-- The height stays a number behind any lines. -/
theorem Tally.lines_height (s : Settings) {t : Tally} (ht : t.machine.z.isNaN = false)
    (p : List Text) : (t.lines s p).machine.z.isNaN = false := by
  induction p generalizing t with
  | nil => exact ht
  | cons line rest ih =>
    refine ih ?_
    rw [Tally.machine_line]
    exact ofLine_height ht line

theorem line_isSound (s : Settings) {t : Tally} (ht : t.machine.IsSound) (line : Text) :
    (t.line s line).machine.IsSound := by
  obtain ⟨hm, hz⟩ := ofLine_isSound ht line
  rw [Tally.machine_line]
  exact ⟨hm.feedRate, hm.acceleration, hz⟩

/-- The moves of a line have a length and rates that can be used: a height that changes
changes by more than zero. -/
theorem moves_isUsable {s : Settings} (hz : Reading.isUsable s.zRate = true) {t : Tally}
    (ht : t.machine.IsSound) (line : Text) {v : Move} (hv : v ∈ t.moves s line) : v.IsUsable := by
  obtain ⟨hm, hheight⟩ := ofLine_isSound ht line
  unfold Tally.moves at hv
  rcases List.mem_append.mp hv with hv | hv
  · split_ifs at hv with hsame
    · cases hv
    · rw [List.mem_singleton.mp hv]
      exact ⟨abs_sub_pos hheight hm.height hsame, hz, hm.acceleration⟩
  · split_ifs at hv with hlength
    · rw [List.mem_singleton.mp hv]
      exact ⟨hlength, hm.feedRate, hm.acceleration⟩
    · cases hv

/-- **Every move that is counted has a length and rates that can be used.** -/
theorem allMoves_isUsable {s : Settings} (hz : Reading.isUsable s.zRate = true) {t : Tally}
    (ht : t.machine.IsSound) {p : List Text} {v : Move} (hv : v ∈ t.allMoves s p) : v.IsUsable := by
  induction p generalizing t with
  | nil => cases hv
  | cons line rest ih =>
    rcases List.mem_append.mp hv with hv | hv
    · exact moves_isUsable hz ht line hv
    · exact ih (line_isSound s ht line) hv

/-- The length of a program is never negative. -/
theorem length_isNonneg (s : Settings) {t : Tally} (ht : IsNonneg t.length) (p : List Text) :
    IsNonneg (t.lines s p).length := by
  induction p generalizing t with
  | nil => exact ht
  | cons line rest ih =>
    refine ih ?_
    rw [(Tally.counts_line s t line).1]
    refine sum_isNonneg ht ?_
    intro x hx
    split_ifs at hx with hlength
    · rw [List.mem_singleton.mp hx]
      exact isNonneg_of_pos hlength
    · cases hx

/-! ### Estimates -/

/-- **When the totals of an estimate are numbers.**  The length always is one and not
negative.  The time is never negative, and it is a number unless the way of the ramps of
some move of the program is lost by overflow. -/
theorem estimate_totals {s : Settings} (p : List Text) (hangle : s.penUpAngle.isFinite = true)
    (hfeed : Reading.isUsable s.feedRate = true)
    (hacceleration : Reading.isUsable s.acceleration = true)
    (hz : Reading.isUsable s.zRate = true) :
    let stats := (estimate s p).stats
    IsNonneg stats.millimetres ∧ ¬ stats.milliseconds < 0 ∧
      (stats.milliseconds.isNaN = true ↔ ∃ v ∈ programMoves s p, v.IsLost) := by
  have hsound := start_isSound hangle hfeed hacceleration
  have husable : ∀ v ∈ programMoves s p, v.IsUsable := fun v hv => allMoves_isUsable hz hsound hv
  have hstats : (estimate s p).stats.milliseconds =
      ((programMoves s p).map Move.seconds).foldl (· + ·) 0 * 1000 := by
    unfold estimate Tally.stats
    rw [Tally.seconds_lines]
    rfl
  have hlength : (estimate s p).stats.millimetres = ((Tally.start s).lines s p).length := rfl
  dsimp only
  rw [hstats, hlength]
  refine ⟨length_isNonneg s (t := Tally.start s) isNonneg_zero p, ?_⟩
  by_cases hlost : ∃ v ∈ programMoves s p, v.IsLost
  · obtain ⟨v, hv, hvlost⟩ := hlost
    have hnan := isNaN_mul_left (isNaN_sum 0 (List.mem_map_of_mem hv)
      (Move.seconds_of_isLost (husable v hv) hvlost)) 1000
    refine ⟨?_, iff_of_true hnan ⟨v, hv, hvlost⟩⟩
    intro hlt
    rw [(isNaN_of_lt hlt).1] at hnan
    cases hnan
  · have hsum : IsNonneg (((programMoves s p).map Move.seconds).foldl (· + ·) 0) := by
      refine sum_isNonneg isNonneg_zero ?_
      intro x hx
      obtain ⟨v, hv, rfl⟩ := List.mem_map.mp hx
      exact Move.seconds_isNonneg (husable v hv) fun hvlost => hlost ⟨v, hv, hvlost⟩
    obtain ⟨hnan, hneg⟩ := hsum.mul (y := 1000) (by decide) (by decide)
    refine ⟨hneg, ?_⟩
    rw [hnan]
    exact iff_of_false Bool.false_ne_true hlost

end

/-- A move with a rate whose square overflows, as does twice its acceleration. -/
def Move.lostSample : List Text :=
  [['G', '1', ' ', 'F', '1', 'e', '2', '0', '0', ' ', 'A', '1', 'e', '3', '0', '8', ' ', 'X', '1']]

theorem estimate_totals_sample :
    ((default : Settings).penUpAngle.isFinite = true ∧
      Reading.isUsable (default : Settings).feedRate = true ∧
      Reading.isUsable (default : Settings).acceleration = true ∧
      Reading.isUsable (default : Settings).zRate = true) ∧
    ((estimate default Move.lostSample).stats.milliseconds.isNaN = true ↔
      ∃ v ∈ programMoves default Move.lostSample, v.IsLost) := by
  have hangle : (default : Settings).penUpAngle.isFinite = true := by decide
  have hfeed : Reading.isUsable (default : Settings).feedRate = true := by decide
  have hacceleration : Reading.isUsable (default : Settings).acceleration = true := by decide
  have hz : Reading.isUsable (default : Settings).zRate = true := by decide
  exact ⟨⟨hangle, hfeed, hacceleration, hz⟩,
    (estimate_totals Move.lostSample hangle hfeed hacceleration hz).2.2⟩

/-- The time of an estimate is not always a number. -/
theorem estimate_totals_fail :
    ¬ ∀ (s : Settings) (p : List Text), s.home.x.isFinite = true → s.home.y.isFinite = true →
      s.penUpAngle.isFinite = true → Reading.isUsable s.feedRate = true →
      Reading.isUsable s.acceleration = true → Reading.isUsable s.zRate = true →
      IsNonneg (estimate s p).stats.milliseconds ∧ IsNonneg (estimate s p).stats.millimetres := by
  intro h
  obtain ⟨⟨hnan, -⟩, -⟩ := h default Move.lostSample (by decide) (by decide) (by decide) (by decide)
    (by decide) (by decide)
  revert hnan
  decide +kernel

end PenPlotter
