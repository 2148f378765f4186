import Mathlib
import PenPlotter.CommandLine.Report
import PenPlotter.Proofs.Document.Playback

/-!
# The search for a line to resume from

The search goes down from a line, looks at every line on its way, and stops at the
first one that is the marker.  So what it finds is the last marker up to where it
starts.  It does not look at the first two lines, and when it finds nothing it answers
with the index of the second of them, whether or not the program has that line.  That
it looks at no line out of bounds is proved where it is defined, `exists_searchDown`.

## Main definitions

* `Document.markers` — the indices that a search can find.

## Main results

* `searchDown_cases`, `lastPenLift_monotone` — what the search finds, and from where.
* `lastPenLift_nearest` — **the search finds the last marker.**
* `seek_lastPenLift` — **a run is resumed at the line that was found**, or at the end of
  a program of one line.
-/

namespace PenPlotter
namespace Document

/-! ### The search -/

section

variable {lines : List Text} {marker : Text}

/-- The indices from two up to a given one of lines that are the marker but for blanks. -/
def markers (lines : List Text) (marker : Text) (index : ℕ) : Set ℕ :=
  {i | 2 ≤ i ∧ i ≤ index ∧ lines[i]?.map Text.trim = some marker}

theorem markers_eq_empty {index : ℕ} (h : index ≤ 1) : markers lines marker index = ∅ := by
  refine Set.eq_empty_of_forall_notMem ?_
  rintro i ⟨htwo, hle, -⟩
  omega

/-- A line that is not the marker can be left out of the search. -/
theorem markers_succ {index : ℕ} (h : lines[index + 1]?.map Text.trim ≠ some marker) :
    markers lines marker (index + 1) = markers lines marker index := by
  ext i
  constructor
  · rintro ⟨htwo, hle, hmarker⟩
    have hne : i ≠ index + 1 := by
      rintro rfl
      exact h hmarker
    exact ⟨htwo, by omega, hmarker⟩
  · rintro ⟨htwo, hle, hmarker⟩
    exact ⟨htwo, by omega, hmarker⟩

/-- **What the search finds**: the greatest index of a marker, or nothing. -/
theorem searchDown_cases {index found : ℕ} (h : searchDown lines marker index = .ok found) :
    IsGreatest (markers lines marker index) found ∨ markers lines marker index = ∅ ∧ found = 1 := by
  induction index using Nat.twoStepInduction with
  | zero =>
    cases h
    exact .inr ⟨markers_eq_empty (Nat.zero_le 1), rfl⟩
  | one =>
    cases h
    exact .inr ⟨markers_eq_empty le_rfl, rfl⟩
  | more index _ ih =>
    rcases Nat.lt_or_ge (index + 2) lines.length with hlt | hle
    · rw [searchDown_add_two hlt] at h
      have hline : lines[index + 2]?.map Text.trim = some (Text.trim lines[index + 2]) := by
        rw [List.getElem?_eq_getElem hlt, Option.map_some]
      split_ifs at h with hmarker
      · -- the search comes down to the greatest index first
        cases h
        rw [hmarker] at hline
        exact .inl ⟨⟨by omega, le_rfl, hline⟩, fun i hi => hi.2.1⟩
      · rw [markers_succ (by rw [hline]; exact mt Option.some.inj hmarker)]
        exact ih h
    · -- out of bounds there is no result
      rw [searchDown_of_le hle] at h
      cases h

theorem markers_mono {i j : ℕ} (h : i ≤ j) : markers lines marker i ⊆ markers lines marker j :=
  fun _ hk => ⟨hk.1, hk.2.1.trans h, hk.2.2⟩

/-- The search finds the last marker up to where it starts, or nothing. -/
theorem lastPenLift_cases (d : Document) (line : ℕ) (marker : Text) :
    IsGreatest (markers d.lines (Text.trim marker) (min line (d.lines.length - 1)))
        (d.lastPenLift line marker) ∨
      markers d.lines (Text.trim marker) (min line (d.lines.length - 1)) = ∅ ∧
        d.lastPenLift line marker = 1 :=
  searchDown_cases (d.findPenLift_eq line marker)

theorem one_le_lastPenLift (d : Document) (line : ℕ) (marker : Text) :
    1 ≤ d.lastPenLift line marker := by
  rcases d.lastPenLift_cases line marker with h | ⟨-, h⟩
  · exact one_le_two.trans h.1.1
  · exact h.ge

/-- From further down the program the search finds no earlier line. -/
theorem lastPenLift_monotone (d : Document) (marker : Text) :
    Monotone fun line => d.lastPenLift line marker := by
  intro i j hij
  have hmono : markers d.lines (Text.trim marker) (min i (d.lines.length - 1)) ⊆
      markers d.lines (Text.trim marker) (min j (d.lines.length - 1)) :=
    markers_mono (min_le_min_right _ hij)
  dsimp only
  rcases d.lastPenLift_cases i marker with hi | ⟨-, hi⟩
  · rcases d.lastPenLift_cases j marker with hj | ⟨hj, -⟩
    · exact hj.2 (hmono hi.1)
    · -- what the shorter search finds is there for the longer one
      exact absurd (hmono hi.1) (hj ▸ Set.notMem_empty _)
  · rw [hi]
    exact d.one_le_lastPenLift j marker

/-- **The search finds the last marker.**  Whatever the program, the line and the marker,
the search ends well, which it would not if it looked at a line that is not there.  The
answer is the greatest index from two up to the line, and within the program, of a line
that is the marker but for blanks, or else one; and from a later line it finds no earlier
one. -/
theorem lastPenLift_nearest (d : Document) (marker : Text) :
    (∀ line, let start := min line (d.lines.length - 1)
      let found := d.lastPenLift line marker
      d.findPenLift line marker = .ok found ∧
      (IsGreatest (markers d.lines (Text.trim marker) start) found ∨
        markers d.lines (Text.trim marker) start = ∅ ∧ found = 1)) ∧
    Monotone fun line => d.lastPenLift line marker := by
  refine ⟨?_, d.lastPenLift_monotone marker⟩
  intro line
  exact ⟨d.findPenLift_eq line marker, d.lastPenLift_cases line marker⟩

/-- Of three markers, two of them with blanks, the search takes the last one up to its start;
the first one stands where it does not look. -/
example :
    let d : Document := { lines := [['U'], ['D'], [' ', 'U'], ['D'], ['U', ' '], ['D']] }
    [0, 1, 2, 3, 4, 9].map (d.lastPenLift · ['U']) = [1, 1, 2, 2, 4, 4] := by decide

end

/-! ### Resuming -/

/-- The answer is an index of the program, if that has more than one line. -/
theorem lastPenLift_lt (d : Document) (line : ℕ) (marker : Text) :
    d.lastPenLift line marker < max 2 d.lines.length := by
  rcases d.lastPenLift_cases line marker with h | ⟨-, h⟩
  · obtain ⟨htwo, hle, -⟩ := h.1
    omega
  · omega

section

variable [Trigonometry]

open CommandLine

/-- A report shows the line that was found and the cursor that was put there. -/
theorem ofDocument_resume (c : Configuration) (d : Document) {line : ℕ}
    (h : c.resumeFrom = some line) :
    (Report.ofDocument c d).resumeLine = some (d.lastPenLift line c.settings.liftLine) ∧
      (Report.ofDocument c d).cursor = (d.seek (d.lastPenLift line c.settings.liftLine)).cursor := by
  have hresume : resume c d = (some (d.lastPenLift line c.settings.liftLine),
      d.seek (d.lastPenLift line c.settings.liftLine)) := by
    unfold resume
    rw [h]
  unfold Report.ofDocument
  rw [hresume]
  exact ⟨rfl, rfl⟩

/-- **A run is resumed at the line that was found.**  In an open program with lines the
cursor stands exactly at the index that was found, and a report shows the same index
twice.  From two lines on that is a line of the program, which is handed out next; in a
program of one line it is the end. -/
theorem seek_lastPenLift (history : List Action) (line : ℕ) (marker : Text)
    (hopen : (after {} history).cursor.isOpen = true) (hlines : (after {} history).lines ≠ []) :
    let d := after {} history
    let found := d.lastPenLift line marker
    let e := d.seek found
    e.lines = d.lines ∧ e.cursor = ⟨found, d.lines.length, true⟩ ∧
    (2 ≤ d.lines.length → e.cursor.hasNext = true ∧
      ∃ t, d.lines[found]? = some t ∧ e.current = .ok (Text.trim t)) ∧
    (d.lines.length = 1 → found = 1 ∧ e.cursor.hasNext = false) ∧
    ∀ c : Configuration, c.resumeFrom = some line → c.settings.liftLine = marker →
      (Report.ofDocument c d).resumeLine = some found ∧ (Report.ofDocument c d).cursor = e.cursor := by
  dsimp only
  set d := after {} history
  set found := d.lastPenLift line marker
  have hone : 1 ≤ found := one_le_lastPenLift d line marker
  have hlt : found < max 2 d.lines.length := lastPenLift_lt d line marker
  have hpos : 0 < d.lines.length := List.length_pos_iff.mpr hlines
  have hplays : Plays d.lines (min found d.lines.length) (d.seek found) :=
    (after_isConsistent isConsistent_empty history).plays_seek hopen found
  -- the cursor is not held back at the end of the program
  rw [Nat.min_eq_left (by omega : found ≤ d.lines.length)] at hplays
  refine ⟨hplays.lines_eq, hplays.cursor_eq, ?_, ?_, ?_⟩
  · intro htwo
    have hnext := hplays.hasNext_iff.mpr (by omega)
    obtain ⟨t, ht, hcurrent, -⟩ := current_of_not_isAtEnd hplays.isConsistent
      (hplays.isConsistent.hasNext_iff.mp hnext)
    rw [hplays.cursor_eq] at ht
    exact ⟨hnext, t, ht, hcurrent⟩
  · intro hlength
    refine ⟨by omega, Bool.eq_false_iff.mpr ?_⟩
    rw [ne_eq, hplays.hasNext_iff]
    omega
  · rintro c hline rfl
    exact ofDocument_resume c d hline

end

/-- A program of four lines, one of them a pen lift. -/
def liftHistory : List Action :=
  [.load default (.bytes ("G1 Z50\nG1 X1\n G00 Z90\nG1 X2".toList.map fun c => c.toNat.toUInt8)),
    .advance]

/-- A run that is to be resumed from the last one of four lines. -/
def resumedRun : CommandLine.Configuration where
  program := []
  settings := default
  settingsPath := none
  json := false
  showNodes := false
  resumeFrom := some 3
  watch := false
  logLevel := []

/-- From its last line the run is taken back to the pen lift, and so the report says. -/
theorem seek_lastPenLift_sample :
    ((after {} liftHistory).cursor.isOpen = true ∧ (after {} liftHistory).lines ≠ [] ∧
      2 ≤ (after {} liftHistory).lines.length) ∧
    let d := after {} liftHistory
    let e := d.seek (d.lastPenLift 3 (default : Settings).liftLine)
    e.cursor = ⟨2, 4, true⟩ ∧ e.cursor.hasNext = true ∧
      (CommandLine.Report.ofDocument resumedRun d).resumeLine = some 2 ∧
      (CommandLine.Report.ofDocument resumedRun d).cursor = ⟨2, 4, true⟩ := by
  have hlines : (after {} liftHistory).lines.length = 4 := by decide +kernel
  have hfound : (after {} liftHistory).lastPenLift 3 (default : Settings).liftLine = 2 := by
    decide +kernel
  have hopen : (after {} liftHistory).cursor.isOpen = true := rfl
  have hne : (after {} liftHistory).lines ≠ [] := by
    intro h
    rw [h] at hlines
    cases hlines
  have htwo : 2 ≤ (after {} liftHistory).lines.length := by omega
  obtain ⟨-, hcursor, hnext, -, hreport⟩ :=
    seek_lastPenLift liftHistory 3 (default : Settings).liftLine hopen hne
  obtain ⟨hline, hsame⟩ := hreport resumedRun rfl rfl
  rw [hcursor] at hsame
  rw [hfound] at hline hsame
  rw [hlines] at hsame
  refine ⟨⟨hopen, hne, htwo⟩, ?_, (hnext htwo).1, hline, hsame⟩
  rw [hcursor, hfound, hlines]

/-- A program of one line. -/
def lineHistory : List Action :=
  [.load default (.bytes ("G1 X1".toList.map fun c => c.toNat.toUInt8))]

/-- Against the expectation that there is always a line to resume from: in a program of one
line the search answers with its end. -/
theorem seek_lastPenLift_fails :
    let d := after {} lineHistory
    let e := d.seek (d.lastPenLift 0 (default : Settings).liftLine)
    d.cursor.isOpen = true ∧ d.lines = [['G', '1', ' ', 'X', '1']] ∧
      ¬ (e.cursor.hasNext = true) := by
  decide +kernel

end Document
end PenPlotter
