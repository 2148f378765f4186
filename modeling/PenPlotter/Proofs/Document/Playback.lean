import Mathlib
import PenPlotter.Proofs.Document.Cursor

/-!
# Playback

While a program is open and nothing else is loaded, only advancing moves the cursor,
and only by one line.  So the lines from the cursor on are handed out one after the
other, whatever is asked of the document in between, and when they are used up every
further request is refused and changes nothing.

## Main definitions

* `Action.isPlayback` — what can be asked of a document while its program is played.
* `Document.Plays` — a program is open, with the cursor at one of its lines or its end.
* `Document.handedOut` — the answers to the requests for the next line.

## Main results

* `perform_current` — looking at a line shows what advancing will hand out.
* `Plays.advance_of_lt`, `advance_of_end` — what advancing hands out, and what it leaves.
* `Plays.after` — where the cursor is behind a run of playback.
* `Plays.handedOut_eq` — the answers of a run of playback.
* `playback` — **every line from the cursor on is handed out once, in order.**
-/

namespace PenPlotter

/-- What can be asked of a document while its program is played: lines and the toolpath,
which leave the program alone. -/
def Action.isPlayback : Action → Bool
  | current | advance | lastPenLift _ _ | toolpath _ | toolpathIfFree _ | discardToolpath => true
  | load _ _ | clear | close | seek _ => false

namespace Document

/-- The document has a program open, with the cursor at one of its lines or at its end. -/
structure Plays (lines : List Text) (position : ℕ) (d : Document) : Prop where
  lines_eq : d.lines = lines
  cursor_eq : d.cursor = ⟨position, lines.length, true⟩
  position_le : position ≤ lines.length

variable {lines : List Text} {position : ℕ} {d : Document}

theorem Plays.isConsistent (h : Plays lines position d) : IsConsistent d where
  total := by rw [h.cursor_eq, h.lines_eq]
  position_le := by rw [h.cursor_eq]; exact h.position_le
  closed := by
    intro hclosed
    rw [h.cursor_eq] at hclosed
    cases hclosed

theorem Plays.isAtEnd_iff (h : Plays lines position d) : IsAtEnd d ↔ position = lines.length := by
  unfold IsAtEnd
  rw [h.cursor_eq]
  exact or_iff_left Bool.noConfusion

/-- The cursor allows for a line exactly if there is one. -/
theorem Plays.hasNext_iff (h : Plays lines position d) :
    d.cursor.hasNext = true ↔ position < lines.length := by
  rw [h.isConsistent.hasNext_iff, h.isAtEnd_iff, ← ne_eq, Nat.lt_iff_le_and_ne, and_iff_right h.position_le]

/-- An open program is played from where the cursor is put. -/
theorem IsConsistent.plays_seek (h : IsConsistent d) (hopen : d.cursor.isOpen = true) (k : ℕ) :
    Plays d.lines (min k d.lines.length) (d.seek k) where
  lines_eq := rfl
  cursor_eq := by
    unfold Document.seek
    rw [← hopen, ← h.total]
  position_le := Nat.min_le_right _ _

section

variable [Trigonometry]

/-- The answers to the requests for the next line, in order. -/
def handedOut (d : Document) (actions : List Action) : List Reply :=
  (actions.zip (d.run actions).1).filterMap fun entry =>
    if entry.1 = .advance then some entry.2 else none

@[simp] theorem handedOut_nil (d : Document) : d.handedOut [] = [] := rfl

theorem handedOut_cons_advance (d : Document) (rest : List Action) :
    d.handedOut (.advance :: rest) =
      (d.perform .advance).1 :: (d.perform .advance).2.handedOut rest := rfl

theorem handedOut_cons_of_ne {a : Action} (h : a ≠ .advance) (d : Document) (rest : List Action) :
    d.handedOut (a :: rest) = (d.perform a).2.handedOut rest :=
  List.filterMap_cons_none (if_neg h)

/-! ### Single actions -/

/-- **Looking at a line shows what advancing will hand out**, and leaves the document as
it is. -/
theorem perform_current (d : Document) : d.perform .current = ((d.perform .advance).1, d) := by
  unfold perform advance
  dsimp only
  cases d.current <;> rfl

/-- Before the end advancing hands out the line at the cursor and moves past it. -/
theorem Plays.advance_of_lt (h : Plays lines position d) (hlt : position < lines.length) :
    (d.perform .advance).1 = .line (Text.trim lines[position]) ∧
      Plays lines (position + 1) (d.perform .advance).2 := by
  have hend : ¬ IsAtEnd d := fun hend => hlt.ne (h.isAtEnd_iff.mp hend)
  obtain ⟨line, hline, -, hadvance⟩ := current_of_not_isAtEnd h.isConsistent hend
  rw [h.lines_eq, h.cursor_eq, List.getElem?_eq_getElem hlt] at hline
  cases hline
  unfold perform
  rw [hadvance]
  exact ⟨rfl, h.lines_eq, by rw [h.cursor_eq], hlt⟩

/-- At the end advancing is refused and changes nothing. -/
theorem Plays.advance_of_end (h : Plays lines lines.length d) :
    d.perform .advance = (.refused (.pastEnd lines.length lines.length), d) := by
  unfold perform
  rw [(current_of_isAtEnd h.isConsistent (h.isAtEnd_iff.mpr rfl)).2, h.cursor_eq]
  rfl

/-- Advancing moves the cursor by one line, but not past the end. -/
theorem Plays.advance (h : Plays lines position d) :
    Plays lines (min (position + 1) lines.length) (d.perform .advance).2 := by
  rcases h.position_le.lt_or_eq with hlt | rfl
  · rw [Nat.min_eq_left hlt]
    exact (h.advance_of_lt hlt).2
  · rw [h.advance_of_end, Nat.min_eq_right (Nat.le_succ _)]
    exact h

/-- What is handed out depends on the program and the cursor alone. -/
theorem Plays.advance_congr {e : Document} (h : Plays lines position d) (h' : Plays lines position e) :
    (d.perform .advance).1 = (e.perform .advance).1 := by
  rcases h.position_le.lt_or_eq with hlt | rfl
  · rw [(h.advance_of_lt hlt).1, (h'.advance_of_lt hlt).1]
  · rw [h.advance_of_end, h'.advance_of_end]

/-- Nothing else in playback moves the cursor. -/
theorem Plays.perform_of_ne (h : Plays lines position d) {a : Action} (ha : a.isPlayback = true)
    (hne : a ≠ .advance) : Plays lines position (d.perform a).2 := by
  obtain ⟨hlines, hcursor, hle⟩ := h
  cases a with
  | advance => exact absurd rfl hne
  | toolpathIfFree s =>
    obtain ⟨hlines', hcursor', -⟩ := perform_toolpathIfFree d s
    exact ⟨hlines'.trans hlines, hcursor'.trans hcursor, hle⟩
  | current => exact ⟨hlines, hcursor, hle⟩
  | lastPenLift line marker => exact ⟨hlines, hcursor, hle⟩
  | toolpath s => exact ⟨hlines, hcursor, hle⟩
  | discardToolpath => exact ⟨hlines, hcursor, hle⟩
  | _ => cases ha

/-! ### Runs -/

/-- **Behind a run of playback the cursor has moved by the number of requests for the
next line**, up to the end. -/
theorem Plays.after (h : Plays lines position d) {actions : List Action}
    (hactions : ∀ a ∈ actions, a.isPlayback = true) :
    Plays lines (min (position + actions.count .advance) lines.length) (d.after actions) := by
  induction actions generalizing d position with
  | nil => rw [List.count_nil, Nat.add_zero, Nat.min_eq_left h.position_le]; exact h
  | cons a rest ih =>
    obtain ⟨ha, hrest⟩ := List.forall_mem_cons.mp hactions
    rw [after_cons]
    by_cases hadvance : a = .advance
    · subst hadvance
      have hmin : min (position + (Action.advance :: rest).count .advance) lines.length =
          min (min (position + 1) lines.length + rest.count .advance) lines.length := by
        rw [List.count_cons_self]
        omega
      rw [hmin]
      exact ih h.advance hrest
    · rw [List.count_cons_of_ne hadvance]
      exact ih (h.perform_of_ne ha hadvance) hrest

/-- **The answers of a run of playback** are the lines from the cursor on, and then
refusals for as long as more are asked for. -/
theorem Plays.handedOut_eq (h : Plays lines position d) {actions : List Action}
    (hactions : ∀ a ∈ actions, a.isPlayback = true) {bound : ℕ}
    (hbound : actions.count .advance ≤ bound) :
    d.handedOut actions = ((lines.drop position).map (fun line => Reply.line (Text.trim line)) ++
      List.replicate bound (Reply.refused (.pastEnd lines.length lines.length))).take
        (actions.count .advance) := by
  induction actions generalizing d position bound with
  | nil => rw [List.count_nil, List.take_zero, handedOut_nil]
  | cons a rest ih =>
    obtain ⟨ha, hrest⟩ := List.forall_mem_cons.mp hactions
    by_cases hadvance : a = .advance
    · subst hadvance
      rw [List.count_cons_self] at hbound
      rw [handedOut_cons_advance, List.count_cons_self]
      rcases h.position_le.lt_or_eq with hlt | rfl
      · obtain ⟨hreply, hnext⟩ := h.advance_of_lt hlt
        rw [hreply, ih hnext hrest (Nat.le_of_succ_le hbound), List.drop_eq_getElem_cons hlt]
        rfl
      · -- no line is left, so the first answer is a refusal
        obtain ⟨bound, rfl⟩ := Nat.exists_eq_add_of_lt hbound
        rw [h.advance_of_end, ih h hrest (Nat.le_add_right _ bound), List.drop_length]
        rfl
    · rw [List.count_cons_of_ne hadvance] at hbound ⊢
      rw [handedOut_cons_of_ne hadvance, ih (h.perform_of_ne ha hadvance) hrest hbound]

/-- What a request for a line shows at one time is what the next request hands out,
whatever is asked of the document in between. -/
theorem Plays.current_eq_next (h : Plays lines position d) {quiet : List Action}
    (hquiet : ∀ a ∈ quiet, a.isPlayback = true ∧ a ≠ .advance) :
    (d.perform .current).1 = ((d.after quiet).perform .advance).1 := by
  have hcount : quiet.count .advance = 0 :=
    List.count_eq_zero.mpr fun hmem => (hquiet _ hmem).2 rfl
  have hafter := h.after fun a ha => (hquiet a ha).1
  rw [hcount, Nat.add_zero, Nat.min_eq_left h.position_le] at hafter
  rw [perform_current]
  exact h.advance_congr hafter

/-- **Every line from the cursor on is handed out once, in order.**  An open program is
played from any line, with requests of other kinds in between.  The requests for the
next line are answered with the lines from there on and then with refusals.  Behind every
such run the cursor has moved by the number of these requests up to the end; looking at
a line shows what the next request will hand out, and the cursor tells whether that is
a line, or a refusal that changes nothing. -/
theorem playback (history : List Action) (k : ℕ) {actions : List Action}
    (hopen : (after {} history).cursor.isOpen = true)
    (hactions : ∀ a ∈ actions, a.isPlayback = true) :
    let d := after {} history
    let n := d.lines.length
    let requests := actions.count .advance
    let e := (d.seek k).after actions
    (d.seek k).handedOut actions =
      ((d.lines.drop (min k n)).map (fun line => Reply.line (Text.trim line)) ++
        List.replicate requests (Reply.refused (.pastEnd n n))).take requests ∧
    e.lines = d.lines ∧ e.cursor = ⟨min (min k n + requests) n, n, true⟩ ∧
    (e.perform .current).2 = e ∧
    (∀ quiet : List Action, (∀ a ∈ quiet, a.isPlayback = true ∧ a ≠ .advance) →
      (e.perform .current).1 = ((e.after quiet).perform .advance).1) ∧
    (e.cursor.hasNext = true → ∃ line, d.lines[e.cursor.position]? = some line ∧
      (e.perform .advance).1 = .line (Text.trim line)) ∧
    (e.cursor.hasNext = false → e.perform .advance = (.refused (.pastEnd n n), e)) := by
  dsimp only
  have hstart := (after_isConsistent isConsistent_empty history).plays_seek hopen k
  have hend := hstart.after hactions
  refine ⟨hstart.handedOut_eq hactions le_rfl, hend.lines_eq, hend.cursor_eq, ?_, ?_, ?_, ?_⟩
  · rw [perform_current]
  · intro quiet hquiet
    exact hend.current_eq_next hquiet
  · intro hnext
    have hlt := hend.hasNext_iff.mp hnext
    refine ⟨_, ?_, (hend.advance_of_lt hlt).1⟩
    rw [hend.cursor_eq]
    exact List.getElem?_eq_getElem hlt
  · intro hnext
    have hlast := hend.position_le.eq_of_not_lt (mt hend.hasNext_iff.mpr (Bool.eq_false_iff.mp hnext))
    rw [hlast] at hend
    exact hend.advance_of_end

end

/-- A program of three lines, with blanks behind the second one. -/
def playbackHistory : List Action :=
  [.load default (.bytes ("G1\nX2 \nY3".toList.map fun c => c.toNat.toUInt8)), .advance]

/-- Three requests for the next line, with others in between. -/
def playbackSample : List Action :=
  [.current, .advance, .toolpathIfFree default, .advance, .lastPenLift 2 [], .advance]

/-- Two lines are left behind the first one. -/
theorem playback_sample :
    ((after {} playbackHistory).cursor.isOpen = true ∧
      (∀ a ∈ playbackSample, a.isPlayback = true) ∧
      ∀ a ∈ [Action.current], a.isPlayback = true ∧ a ≠ .advance) ∧
    ((after {} playbackHistory).seek 1).handedOut playbackSample =
      [.line ['X', '2'], .line ['Y', '3'], .refused (.pastEnd 3 3)] ∧
    let e := ((after {} playbackHistory).seek 1).after playbackSample
    (e.perform .current).1 = ((e.after [.current]).perform .advance).1 := by
  have hopen : (after {} playbackHistory).cursor.isOpen = true := rfl
  have hactions : ∀ a ∈ playbackSample, a.isPlayback = true := by decide
  have hquiet : ∀ a ∈ [Action.current], a.isPlayback = true ∧ a ≠ .advance := by decide
  have hlines : (after {} playbackHistory).lines = [['G', '1'], ['X', '2', ' '], ['Y', '3']] := by
    decide +kernel
  obtain ⟨hanswers, -, -, -, hnext, -⟩ := playback playbackHistory 1 hopen hactions
  rw [hlines] at hanswers
  exact ⟨⟨hopen, hactions, hquiet⟩, hanswers.trans (by decide +kernel), hnext _ hquiet⟩

end Document
end PenPlotter
