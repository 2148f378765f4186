import Mathlib
import PenPlotter.Proofs.Estimate.Reading
import PenPlotter.Proofs.Reflection.Toolpath

/-!
# The estimate of a reflected program

The estimate looks at X coordinates only through the lengths of moves, and these do
not change when both ends of a move are reflected.  So a program without arcs and its
reflection are estimated alike: line by line the machines stand on opposite sides of
the Y axis, with the same totals.  Offsets of arc centres are read on the way, but no
straight move looks at them; so it does not matter that some of them are kept.

## Main definitions

* `Machine.Across`, `Destination.Across`, `Reading.Across`, `Tally.Across` — one is on
  the other side of the Y axis, as far as straight moves can tell.
* `Diagnostic.reflected` — what is said about a line, said about its reflection.

## Main results

* `word_across`, `ofLine_across` — words keep two readings across, or fail alike.
* `line_across`, `lines_across` — so does a line, with the same totals, and so do all.
* `estimate_reflected` — **a reflection does not change the estimate of straight moves.**
-/

namespace PenPlotter

open Binary64

/-! ### Both sides of the Y axis -/

/-- The machine of an estimate on the other side of the Y axis.  The centre of an arc,
the pen and the mode of coordinates do not count. -/
structure Machine.Across (m n : Machine) : Prop where
  position : m.position.Mirrored n.position
  z : n.z = m.z
  units : n.units = m.units
  feedRate : n.feedRate = m.feedRate
  acceleration : n.acceleration = m.acceleration

/-- The place that a line leads to, on the other side; the centre of an arc does not
count. -/
structure Destination.Across (t u : Destination) : Prop where
  position : t.position.Mirrored u.position
  z : u.z = t.z

/-- The same outcome of reading a word on both sides: states across, or the same failure. -/
inductive Reading.AcrossOutcome :
    Except NumeralError (Machine × Destination) → Except NumeralError (Machine × Destination) → Prop
  | ok {m n : Machine} {t u : Destination} (hm : m.Across n) (ht : t.Across u) :
      AcrossOutcome (.ok (m, t)) (.ok (n, u))
  | error (cause : NumeralError) : AcrossOutcome (.error cause) (.error cause)

/-- The readings of a line and of its reflection. -/
structure Reading.Across (r q : Reading) : Prop where
  machine : r.machine.Across q.machine
  destination : r.destination.Across q.destination
  failure : q.failure = r.failure

/-- The same totals, with the machines on opposite sides. -/
structure Tally.Across (t u : Tally) : Prop where
  machine : t.machine.Across u.machine
  seconds : u.seconds = t.seconds
  length : u.length = t.length
  segments : u.segments = t.segments

theorem Machine.Across.scale {m n : Machine} (h : m.Across n) : n.scale = m.scale := by
  simp [Machine.scale, h.units]

theorem Machine.Across.ofMachine {m n : Machine} (h : m.Across n) :
    (Destination.ofMachine m).Across (Destination.ofMachine n) := ⟨h.position, h.z⟩

/-- The way between reflected points is as long. -/
theorem Point.Mirrored.distance_eq {p p' q q' : Point} (hp : p.Mirrored p') (hq : q.Mirrored q') :
    p'.distance q' = p.distance q := by
  have hx : SameNumber (q'.x - p'.x) (-(q.x - p.x)) := by
    rw [sub_eq_add q.x p.x]
    refine (hq.x.sub hp.x).trans ?_
    rw [sub_eq_add]
    exact sameNumber_neg_add _ _
  exact hypotenuse_congr (by rw [hx.abs_eq, abs_neg_eq]) (by rw [hq.y, hp.y])

/-! ### Words -/

/-- An X word is horizontal, whether or not offsets are kept. -/
theorem Word.isHorizontal_of_x (keepOffsets : Bool) {w : Word} (h : w.command = .assign .x) :
    w.isHorizontal keepOffsets = true := by
  have hletter : w.letter = 'X' := letter_of_assign h
  simp [isHorizontal, hletter]

/-- A horizontal word sets a horizontal quantity. -/
theorem Word.isHorizontal_quantity {keepOffsets : Bool} {w : Word} {q : Quantity}
    (h : w.command = .assign q) (hw : w.isHorizontal keepOffsets = true) : q.IsHorizontal := by
  rw [← isHorizontal_iff h]
  rcases horizontal_letter hw with hl | hl <;> simp [isHorizontal, hl]

/-- Setting a quantity to a number, or a horizontal one to the opposite number, keeps
the two sides across. -/
theorem assign_across {m n : Machine} {t u : Destination} {v v' : Float} (q : Quantity)
    (hm : m.Across n) (ht : t.Across u) (hx : q = .x → SameNumber v' (-v))
    (hsame : ¬ q.IsHorizontal → v' = v) :
    (Reading.assign m t v q).1.Across (Reading.assign n u v' q).1 ∧
      (Reading.assign m t v q).2.Across (Reading.assign n u v' q).2 := by
  have hother : ∀ {q : Quantity}, q ≠ .x → q ≠ .centerX → ¬ q.IsHorizontal := by
    rintro q hx hc (h | h)
    · exact hx h
    · exact hc h
  unfold Reading.assign
  cases q with
  | x => exact ⟨hm, { ht with position := ⟨hx rfl, ht.position.y⟩ }⟩
  | y => exact ⟨hm, { ht with position := ⟨ht.position.x, hsame (hother (by simp) (by simp))⟩ }⟩
  | z => exact ⟨hm, { ht with z := hsame (hother (by simp) (by simp)) }⟩
  | centerX => exact ⟨hm, { ht with }⟩
  | centerY => exact ⟨hm, { ht with }⟩
  | feedRate =>
    obtain rfl := hsame (hother (by simp) (by simp))
    dsimp only
    split_ifs
    · exact ⟨{ hm with feedRate := rfl }, ht⟩
    · exact ⟨hm, ht⟩
  | acceleration =>
    obtain rfl := hsame (hother (by simp) (by simp))
    dsimp only
    split_ifs
    · exact ⟨{ hm with acceleration := rfl }, ht⟩
    · exact ⟨hm, ht⟩

/-- A number that is set on both sides keeps them across. -/
theorem number_across {m n : Machine} {t u : Destination} (q : Quantity) (hm : m.Across n)
    (ht : t.Across u) {v v' : Float} (hx : q = .x → SameNumber v' (-v))
    (hsame : ¬ q.IsHorizontal → v' = v) :
    Reading.AcrossOutcome (.ok (Reading.assign m t (v * m.scale) q))
      (.ok (Reading.assign n u (v' * n.scale) q)) := by
  have hscaled : q = .x → SameNumber (v' * m.scale) (-(v * m.scale)) := by
    intro h
    exact sameNumber_scaled (hx h) m.scale
  have hkept : ¬ q.IsHorizontal → v' * m.scale = v * m.scale := by
    intro h
    rw [hsame h]
  obtain ⟨hm', ht'⟩ := assign_across q hm ht hscaled hkept
  rw [hm.scale]
  exact .ok hm' ht'

/-- **A word and its reflection keep the two sides across**, or fail for one reason. -/
theorem word_across (keepOffsets : Bool) {m n : Machine} {t u : Destination} (hm : m.Across n)
    (ht : t.Across u) (w : Word) :
    Reading.AcrossOutcome (Reading.word m t w) (Reading.word n u (w.reflected keepOffsets)) := by
  unfold Reading.word
  rw [Word.command_reflected]
  cases hc : w.command with
  | units units => exact .ok { hm with units := rfl } ht
  | absolute on => exact .ok hm ht
  | other => exact .ok hm ht
  | assign q =>
    dsimp only
    by_cases hw : w.isHorizontal keepOffsets = true
    · have hq := Word.isHorizontal_quantity hc hw
      cases hn : w.number with
      | error cause =>
        rw [Word.number_reflected_error hw hn]
        exact .error cause
      | ok v =>
        obtain ⟨v', hv', hsame⟩ := Word.number_reflected hw hn
        rw [hv']
        exact number_across q hm ht (fun _ => hsame) (absurd hq)
    · -- the word stays, and is no X word
      rw [Word.reflected_of_not_horizontal hc hw]
      cases w.number with
      | error cause => exact .error cause
      | ok v =>
        refine number_across q hm ht ?_ fun _ => rfl
        rintro rfl
        exact absurd (Word.isHorizontal_of_x keepOffsets hc) hw

/-- The words of a line and of its reflection are read to the same word. -/
theorem ofWords_across (keepOffsets : Bool) {m n : Machine} {t u : Destination} (hm : m.Across n)
    (ht : t.Across u) (ws : List Word) :
    (Reading.ofWords m t ws).Across (Reading.ofWords n u (ws.map (Word.reflected keepOffsets))) := by
  induction ws generalizing m n t u with
  | nil => exact ⟨hm, ht, rfl⟩
  | cons w rest ih =>
    rw [List.map_cons, Reading.ofWords, Reading.ofWords]
    have hword := word_across keepOffsets hm ht w
    generalize Reading.word m t w = o at hword ⊢
    generalize Reading.word n u (w.reflected keepOffsets) = o' at hword ⊢
    cases hword with
    | ok hm' ht' => exact ih hm' ht'
    | error cause => exact ⟨hm, ht, rfl⟩

/-! ### Lines -/

/-- **A line and its reflection are read across.** -/
theorem ofLine_across {m n : Machine} (h : m.Across n) (line : Text) :
    (Reading.ofLine m line).Across (Reading.ofLine n (Reflection.line line)) := by
  unfold Reading.ofLine
  rw [Reflection.tokens_line]
  exact ofWords_across _ h h.ofMachine _

/-- The motion of a reflected line is that of the line, the other way around. -/
theorem motion_line (line : Text) : (Line.ofText (Reflection.line line)).motion =
    (Line.ofText line).motion.map Motion.reverse := by
  unfold Line.motion
  rw [Line.words_ofText, Line.words_ofText, Reflection.tokens_line, List.head?_map]
  cases (Line.tokens line).head? with
  | none => rfl
  | some w => exact Word.motion_reflected _ w

/-- The line has no arc. -/
def Line.IsStraight (line : Text) : Prop :=
  ∀ winding, (Line.ofText line).motion ≠ some (.arc winding)

/-- Without an arc the motion of a reflected line is that of the line. -/
theorem motion_line_of_isStraight {line : Text} (h : Line.IsStraight line) :
    (Line.ofText (Reflection.line line)).motion = (Line.ofText line).motion := by
  rw [motion_line]
  cases hmotion : (Line.ofText line).motion with
  | none => rfl
  | some motion =>
    cases motion with
    | linear => rfl
    | arc winding => exact absurd hmotion (h winding)

theorem Tally.lift_across {t u : Tally} (h : t.Across u) (zRate z : Float) :
    (t.lift zRate z).Across (u.lift zRate z) := by
  unfold Tally.lift
  rw [h.machine.z, h.machine.acceleration]
  split_ifs
  · exact h
  · exact { h with seconds := by simp [h.seconds] }

theorem Tally.travel_across {t u : Tally} (h : t.Across u) (length : Float) :
    (t.travel length).Across (u.travel length) := by
  unfold Tally.travel
  rw [h.machine.feedRate, h.machine.acceleration]
  split_ifs
  · exact ⟨h.machine, by simp [h.seconds], by simp [h.length], by simp [h.segments]⟩
  · exact h

/-- At home both sides are at one place, if home is on the Y axis. -/
theorem start_across {s : Settings} (hx : (s.home.x == 0) = true) :
    (Tally.start s).Across (Tally.start s) := by
  have hzero : SameNumber s.home.x 0 := (sameNumber_zero_iff _).mpr hx
  have hneg : SameNumber (-s.home.x) 0 := (sameNumber_zero_iff _).mpr (by rw [neg_beq_zero, hx])
  exact ⟨⟨⟨hzero.trans hneg.symm, rfl⟩, rfl, rfl, rfl, rfl⟩, rfl, rfl, rfl⟩

section

variable [Trigonometry]

/-- A move that is no arc is as long on both sides. -/
theorem moveLength_across {r q : Reading} (hr : r.Across q) {motion : Option Motion}
    (h : ∀ winding, motion ≠ some (.arc winding)) : q.moveLength motion = r.moveLength motion := by
  cases motion with
  | none => rfl
  | some motion =>
    cases motion with
    | linear => exact hr.machine.position.distance_eq hr.destination.position
    | arc winding => exact absurd rfl (h winding)

/-- A move that is no arc adds the same to the totals on both sides. -/
theorem Tally.move_across {t u : Tally} (h : t.Across u) {r q : Reading} (hr : r.Across q)
    (zRate : Float) {motion : Option Motion} (hmotion : ∀ winding, motion ≠ some (.arc winding)) :
    (t.move zRate r motion).Across (u.move zRate q motion) := by
  have hlength := moveLength_across hr hmotion
  have hread : ({ t with machine := r.machine } : Tally).Across { u with machine := q.machine } :=
    { h with machine := hr.machine }
  have htotals := Tally.travel_across (Tally.lift_across hread zRate r.destination.z)
    (r.moveLength motion)
  unfold Tally.move
  dsimp only
  rw [hlength, hr.destination.z]
  exact
    { htotals with
      machine := { htotals.machine with position := hr.destination.position, z := rfl } }

/-- **A straight line and its reflection add the same to the totals.** -/
theorem line_across (s : Settings) {t u : Tally} (h : t.Across u) {line : Text}
    (hline : Line.IsStraight line) : (t.line s line).Across (u.line s (Reflection.line line)) := by
  unfold Tally.line
  rw [motion_line_of_isStraight hline]
  exact Tally.move_across h (ofLine_across h.machine line) s.zRate hline

/-! ### Programs -/

/-- **Straight lines and their reflections add the same to the totals.** -/
theorem lines_across (s : Settings) {t u : Tally} (h : t.Across u) {p : List Text}
    (hp : ∀ line ∈ p, Line.IsStraight line) :
    (t.lines s p).Across (u.lines s (Reflection.program p)) := by
  induction p generalizing t u with
  | nil => exact h
  | cons line rest ih =>
    obtain ⟨hline, hrest⟩ := List.forall_mem_cons.mp hp
    exact ih (line_across s h hline) hrest

/-- What is said about a line, said about its reflection. -/
def Diagnostic.reflected (d : Diagnostic) : Diagnostic :=
  { d with content := Reflection.line d.content }

/-- The same lines are not read to their end, for the same reasons. -/
theorem diagnostics_across (s : Settings) (index : ℕ) {t u : Tally} (h : t.Across u)
    {p : List Text} (hp : ∀ line ∈ p, Line.IsStraight line) :
    Tally.diagnostics s index u (Reflection.program p) =
      (Tally.diagnostics s index t p).map Diagnostic.reflected := by
  induction p generalizing index t u with
  | nil => rfl
  | cons line rest ih =>
    obtain ⟨hline, hrest⟩ := List.forall_mem_cons.mp hp
    have hlater := ih (index + 1) (line_across s h hline) hrest
    rw [Reflection.program, List.map_cons, ← Reflection.program]
    unfold Tally.diagnostics
    rw [hlater, (ofLine_across h.machine line).failure]
    cases (Reading.ofLine t.machine line).failure <;> rfl

/-- **A reflection does not change the estimate of straight moves.**  For a program
without arcs, with home on the Y axis, the time, the length and the number of moves are
the same, and the same lines are not read to their end, in the same order and with the
same messages. -/
theorem estimate_reflected (s : Settings) (p : List Text) (hx : (s.home.x == 0) = true)
    (hp : ∀ line ∈ p, Line.IsStraight line) :
    (estimate s (Reflection.program p)).stats = (estimate s p).stats ∧
    (estimate s (Reflection.program p)).diagnostics =
      (estimate s p).diagnostics.map Diagnostic.reflected ∧
    (estimate s (Reflection.program p)).diagnostics.map (fun d => (d.line, d.message)) =
      (estimate s p).diagnostics.map fun d => (d.line, d.message) := by
  have hstart := start_across hx
  have htotals := lines_across s hstart hp
  have hdiagnostics := diagnostics_across s 0 hstart hp
  refine ⟨?_, hdiagnostics, ?_⟩
  · simp [estimate, Tally.stats, htotals.seconds, htotals.length, htotals.segments]
  · unfold estimate
    rw [hdiagnostics, List.map_map]
    rfl

end

/-- Straight moves with a change of units, a word that is no number in the middle of a
line, rates and heights, and an offset that is kept. -/
def Estimate.straightSample : List Text :=
  [['G', '2', '0', ' ', 'F', '9'], ['G', '1', ' ', 'X', '1', ' ', 'X', 'a', ' ', 'Y', '2'],
    ['M', '1', '0', '1', ' ', 'I', '5', ' ', 'X', '3', ' ', 'Z', '2'],
    ['G', '0', '1', ' ', 'G', '2', '1', ' ', 'X', '-', '2', '.', '5']]

theorem estimate_reflected_sample :
    (∀ line ∈ Estimate.straightSample, Line.IsStraight line) ∧
      (estimate default (Reflection.program Estimate.straightSample)).stats =
        (estimate default Estimate.straightSample).stats := by
  have hp : ∀ line ∈ Estimate.straightSample, Line.IsStraight line := by
    unfold Estimate.straightSample
    simp only [List.forall_mem_cons]
    refine ⟨?_, ?_, ?_, ?_, fun line hline => absurd hline List.not_mem_nil⟩ <;>
      intro winding h <;> cases h
  exact ⟨hp, (estimate_reflected default _ (by decide) hp).1⟩

end PenPlotter
