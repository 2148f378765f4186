import Mathlib
import PenPlotter.Proofs.Document.Freshness

/-!
# The cursor stays within the program

A document looks a line up by its cursor, which has a count of the lines of its
own.  Every action keeps that count right and the cursor at or before the end, so
that the look-up finds a line whenever the cursor allows it.  A look-up out of bounds
would be an answer of its own, which is neither of the two that are given.

## Main definitions

* `Document.IsConsistent` — the cursor fits the lines; a closed document is bare.
* `Document.IsAtEnd` — there is no line to hand out.

## Main results

* `perform_isConsistent`, `after_isConsistent` — every action keeps a document
  consistent, and so does every run.
* `current_of_isAtEnd`, `current_of_not_isAtEnd` — when a line is handed out, and
  which one it is.
* `current_ne_unreadable` — no look-up is out of bounds.
* `after_cursor` — **the cursor never leads out of the program.**
-/

namespace PenPlotter
namespace Document

/-- The cursor counts the lines of the program and stands at one of them or behind
the last one; a document that is not open has no lines, and its cursor is fresh. -/
structure IsConsistent (d : Document) : Prop where
  total : d.cursor.total = d.lines.length
  position_le : d.cursor.position ≤ d.cursor.total
  closed : d.cursor.isOpen = false → d.lines = [] ∧ d.cursor = {}

/-- There is no line to hand out: the cursor is at the end, or nothing is open. -/
def IsAtEnd (d : Document) : Prop :=
  d.cursor.position = d.cursor.total ∨ d.cursor.isOpen = false

theorem isConsistent_empty : IsConsistent {} where
  total := rfl
  position_le := le_refl _
  closed := fun _ => ⟨rfl, rfl⟩

/-- A document without lines and with a fresh cursor is consistent, whatever its
estimate and its cache hold. -/
theorem isConsistent_bare {d : Document} (hlines : d.lines = []) (hcursor : d.cursor = {}) :
    IsConsistent d where
  total := by rw [hlines, hcursor]; rfl
  position_le := by rw [hcursor]
  closed := fun _ => ⟨hlines, hcursor⟩

/-- Consistency does not depend on the estimate and the cache. -/
theorem IsConsistent.congr {d e : Document} (h : IsConsistent d) (hlines : e.lines = d.lines)
    (hcursor : e.cursor = d.cursor) : IsConsistent e where
  total := by rw [hlines, hcursor]; exact h.total
  position_le := by rw [hcursor]; exact h.position_le
  closed := by rw [hlines, hcursor]; exact h.closed

/-! ### What is handed out -/

/-- The guard of the look-up, in a consistent document. -/
theorem IsConsistent.hasNext_iff {d : Document} (h : IsConsistent d) :
    d.cursor.hasNext = true ↔ ¬ IsAtEnd d := by
  have hle := h.position_le
  unfold Cursor.hasNext IsAtEnd
  rw [Bool.and_eq_true, decide_eq_true_eq, not_or, Bool.not_eq_false, and_comm]
  refine and_congr_left' ⟨?_, ?_⟩
  · exact Nat.ne_of_lt
  · exact Nat.lt_of_le_of_ne hle

/-- **At the end a request for a line is refused** with the place of the cursor, and
it changes nothing. -/
theorem current_of_isAtEnd {d : Document} (h : IsConsistent d) (hend : IsAtEnd d) :
    d.current = .error (.pastEnd d.cursor.position d.cursor.total) ∧
      d.advance = (.error (.pastEnd d.cursor.position d.cursor.total), d) := by
  have hnext : ¬ d.cursor.hasNext = true := by
    intro hnext
    exact h.hasNext_iff.mp hnext hend
  have hcurrent : d.current = .error (.pastEnd d.cursor.position d.cursor.total) := if_neg hnext
  refine ⟨hcurrent, ?_⟩
  unfold advance
  rw [hcurrent]

/-- **Before the end there is a line at the cursor**, which is handed out without the
blanks around it; advancing moves the cursor past it and does nothing else. -/
theorem current_of_not_isAtEnd {d : Document} (h : IsConsistent d) (hend : ¬ IsAtEnd d) :
    ∃ line, d.lines[d.cursor.position]? = some line ∧ d.current = .ok (Text.trim line) ∧
      d.advance =
        (.ok (Text.trim line), { d with cursor.position := d.cursor.position + 1 }) := by
  have hnext := h.hasNext_iff.mpr hend
  have hlt : d.cursor.position < d.lines.length := by
    have hlt := (Bool.and_eq_true_iff.mp hnext).2
    rw [decide_eq_true_eq, h.total] at hlt
    exact hlt
  have hline : d.lines[d.cursor.position]? = some d.lines[d.cursor.position] :=
    List.getElem?_eq_getElem hlt
  have hcurrent : d.current = .ok (Text.trim d.lines[d.cursor.position]) := by
    unfold current
    rw [if_pos hnext, lineAt_of_lt hlt]
  refine ⟨_, hline, hcurrent, ?_⟩
  unfold advance
  rw [hcurrent]

/-! ### Actions -/

theorem IsConsistent.close {d : Document} (h : IsConsistent d) : IsConsistent d.close := by
  unfold Document.close
  split_ifs
  · exact isConsistent_bare rfl rfl
  · exact h

/-- On a closed document the cursor cannot be moved: the end of no lines is where it
stands already. -/
theorem IsConsistent.seek {d : Document} (h : IsConsistent d) (line : ℕ) :
    IsConsistent (d.seek line) where
  total := h.total
  position_le := Nat.min_le_right _ _
  closed := by
    intro hopen
    obtain ⟨hlines, hcursor⟩ := h.closed hopen
    refine ⟨hlines, ?_⟩
    unfold Document.seek
    rw [hcursor]
    simp

theorem IsConsistent.advance {d : Document} (h : IsConsistent d) : IsConsistent d.advance.2 := by
  by_cases hend : IsAtEnd d
  · rw [(current_of_isAtEnd h hend).2]
    exact h
  · obtain ⟨line, -, -, hadvance⟩ := current_of_not_isAtEnd h hend
    have hle := h.position_le
    obtain ⟨hne, hopen⟩ := not_or.mp hend
    rw [hadvance]
    refine ⟨h.total, ?_, ?_⟩
    · change d.cursor.position + 1 ≤ d.cursor.total
      omega
    · intro hclosed
      exact absurd hclosed hopen

section

variable [Trigonometry]

theorem isConsistent_replace (d : Document) (s : Settings) (lines : List Text) :
    IsConsistent (d.replace s lines) where
  total := rfl
  position_le := Nat.zero_le _
  closed := by
    intro h
    cases h

theorem IsConsistent.load (d : Document) (s : Settings) (source : Source) :
    IsConsistent (d.load s source).2 := by
  unfold Document.load
  cases source.lines s.reverseForGlass with
  | ok lines => exact isConsistent_replace d s lines
  | error reason => exact isConsistent_bare rfl rfl

/-- **Every action keeps a document consistent.** -/
theorem perform_isConsistent {d : Document} (h : IsConsistent d) (a : Action) :
    IsConsistent (d.perform a).2 := by
  cases a with
  | load s source =>
    rw [perform_load]
    exact .load d s source
  | clear => exact isConsistent_bare rfl rfl
  | close => exact h.close
  | seek line => exact h.seek line
  | current => exact h
  | advance => exact h.advance
  | lastPenLift line marker => exact h
  | toolpath s => exact h.congr rfl rfl
  | toolpathIfFree s =>
    obtain ⟨hlines, hcursor, -⟩ := perform_toolpathIfFree d s
    exact h.congr hlines hcursor
  | discardToolpath => exact h.congr rfl rfl

theorem after_isConsistent {d : Document} (h : IsConsistent d) (actions : List Action) :
    IsConsistent (d.after actions) := by
  induction actions generalizing d with
  | nil => exact h
  | cons a rest ih => exact ih (perform_isConsistent h a)

/-- No look-up is out of bounds, whatever was done to the document before. -/
theorem current_ne_unreadable (actions : List Action) (cause : ReadError) :
    (after {} actions).current ≠ .error (.unreadable cause) := by
  have h := after_isConsistent isConsistent_empty actions
  by_cases hend : IsAtEnd (after {} actions)
  · rw [(current_of_isAtEnd h hend).1]
    simp
  · obtain ⟨line, -, hcurrent, -⟩ := current_of_not_isAtEnd h hend
    rw [hcurrent]
    simp

/-- **The cursor never leads out of the program.**  Behind every run of actions the
cursor counts the lines and is at or before their end, and a closed document is
bare.  So a request for a line is refused exactly at the end or when nothing is open,
and then it changes nothing; in all other states the line is there. -/
theorem after_cursor (actions : List Action) :
    let d := after {} actions
    IsConsistent d ∧ (d.cursor.hasNext = true ↔ ¬ IsAtEnd d) ∧
    (IsAtEnd d → d.current = .error (.pastEnd d.cursor.position d.cursor.total) ∧
      d.advance = (.error (.pastEnd d.cursor.position d.cursor.total), d)) ∧
    (¬ IsAtEnd d →
      ∃ line, d.lines[d.cursor.position]? = some line ∧ d.current = .ok (Text.trim line) ∧
        d.advance =
          (.ok (Text.trim line), { d with cursor.position := d.cursor.position + 1 })) := by
  have h := after_isConsistent isConsistent_empty actions
  exact ⟨h, h.hasNext_iff, current_of_isAtEnd h, current_of_not_isAtEnd h⟩

end

end Document
end PenPlotter
