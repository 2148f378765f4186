import Mathlib
import PenPlotter.Proofs.Document.Freshness

/-!
# Loading forgets the past

A document is a handful of parts that have to be replaced together when a program
is loaded, and cleared together when it cannot be read; closing touches only some
of them.  So nothing of what was there before a load shows behind it, and the
estimate is at all times that of the last program that was loaded.

## Main definitions

* `Loaded`, `Action.loaded`, `lastLoaded` — the last program loaded in a run, with
  the settings it was loaded with.
* `Loaded.estimate` — its estimate; an empty one if there is no program.
* `Document.Remembers` — the estimate is that of the last program, and so are the
  lines while the document is open.

## Main results

* `load_eq` — what a load gives and leaves, by the source alone.
* `perform_remembers`, `after_remembers` — every action and every run keeps the
  estimate and the lines those of the last program.
* `after_load` — **loading forgets the past.**
-/

namespace PenPlotter

/-! ### The last program -/

/-- A program that was loaded, with its settings; or none, if there was no load or
if a failed load or a clearing came behind it. -/
abbrev Loaded := Option (Settings × List Text)

/-- The last program behind an action.  A load brings the lines as they are stored,
reflected if the settings ask for it. -/
def Action.loaded (before : Loaded) : Action → Loaded
  | load s source =>
    match source.lines s.reverseForGlass with
    | .ok lines => some (s, lines)
    | .error _ => none
  | clear => none
  | _ => before

/-- The last program behind some actions on a new document. -/
def lastLoaded (actions : List Action) : Loaded := actions.foldl Action.loaded none

@[simp] theorem Action.loaded_of_ok (before : Loaded) {s : Settings} {source : Source}
    {lines : List Text} (h : source.lines s.reverseForGlass = .ok lines) :
    (Action.load s source).loaded before = some (s, lines) := by
  simp only [loaded, h]

@[simp] theorem Action.loaded_of_error (before : Loaded) {s : Settings} {source : Source}
    {reason : String} (h : source.lines s.reverseForGlass = .error reason) :
    (Action.load s source).loaded before = none := by
  simp only [loaded, h]

section

variable [Trigonometry]

/-- The estimate of the last program. -/
def Loaded.estimate : Loaded → Estimate
  | some (s, lines) => PenPlotter.estimate s lines
  | none => {}

@[simp] theorem Loaded.estimate_none : Loaded.estimate none = {} := rfl

@[simp] theorem Loaded.estimate_some (s : Settings) (lines : List Text) :
    Loaded.estimate (some (s, lines)) = PenPlotter.estimate s lines := rfl

namespace Document

/-! ### Loads -/

theorem load_of_ok (d : Document) {s : Settings} {source : Source} {lines : List Text}
    (h : source.lines s.reverseForGlass = .ok lines) :
    d.load s source = (.ok (PenPlotter.estimate s lines).stats, d.replace s lines) := by
  unfold load
  rw [h]
  rfl

theorem load_of_error (d : Document) {s : Settings} {source : Source} {reason : String}
    (h : source.lines s.reverseForGlass = .error reason) :
    d.load s source = (.error (.unreadable (.source reason)), d.clear) := by
  unfold load
  rw [h]

/-- **What a load gives and leaves depends on the source and the settings alone.**
Only the count of finished compilations is carried over, and the cache is vacant. -/
theorem load_eq {d : Document} (hidle : d.cache.IsIdle) (s : Settings) (source : Source) :
    d.load s source = ((load {} s source).1,
      { (load {} s source).2 with cache := { completed := d.cache.completed } }) := by
  have hdiscard : d.cache.discard = { completed := d.cache.completed } := by
    unfold ToolpathCache.discard
    rw [hidle.1, hidle.2]
  cases h : source.lines s.reverseForGlass with
  | ok lines =>
    rw [load_of_ok d h, load_of_ok {} h]
    unfold replace
    rw [hdiscard]
  | error reason =>
    rw [load_of_error d h, load_of_error {} h]
    unfold clear
    rw [hdiscard]

/-- A load that fails leaves what clearing leaves. -/
theorem clear_of_load_error {d : Document} {s : Settings} {source : Source} {cause : DocumentError}
    (h : (d.load s source).1 = .error cause) : (d.load s source).2 = d.clear := by
  cases hlines : source.lines s.reverseForGlass with
  | ok lines =>
    rw [load_of_ok d hlines] at h
    cases h
  | error reason => rw [load_of_error d hlines]

/-! ### The estimate of the last program -/

/-- The estimate is that of the last program; while the document is open its lines
are those of that program. -/
structure Remembers (d : Document) (last : Loaded) : Prop where
  estimate : d.estimate = last.estimate
  lines : d.cursor.isOpen = true → ∃ s, last = some (s, d.lines)

theorem remembers_empty : Remembers {} none where
  estimate := rfl
  lines := by
    intro h
    cases h

/-- What is remembered shows in the estimate, and in the lines of an open document. -/
theorem Remembers.congr {d e : Document} {last : Loaded} (h : Remembers d last)
    (hestimate : e.estimate = d.estimate) (hlines : e.lines = d.lines)
    (hopen : e.cursor.isOpen = d.cursor.isOpen) : Remembers e last where
  estimate := hestimate.trans h.estimate
  lines := by
    rw [hlines, hopen]
    exact h.lines

theorem Remembers.load (d : Document) (before : Loaded) (s : Settings) (source : Source) :
    Remembers (d.load s source).2 ((Action.load s source).loaded before) := by
  cases h : source.lines s.reverseForGlass with
  | ok lines =>
    rw [load_of_ok d h, Action.loaded_of_ok before h]
    exact ⟨rfl, fun _ => ⟨s, rfl⟩⟩
  | error reason =>
    rw [load_of_error d h, Action.loaded_of_error before h]
    refine ⟨rfl, ?_⟩
    intro hopen
    cases hopen

/-- Closing gives up the lines, but not the estimate. -/
theorem Remembers.close {d : Document} {last : Loaded} (h : Remembers d last) :
    Remembers d.close last := by
  unfold Document.close
  split_ifs
  · refine ⟨h.estimate, ?_⟩
    intro hopen
    cases hopen
  · exact h

theorem Remembers.advance {d : Document} {last : Loaded} (h : Remembers d last) :
    Remembers d.advance.2 last := by
  unfold Document.advance
  cases d.current with
  | ok line => exact h.congr rfl rfl rfl
  | error cause => exact h

/-- **Every action keeps the estimate and the lines those of the last program.** -/
theorem perform_remembers {d : Document} {last : Loaded} (h : Remembers d last) (a : Action) :
    Remembers (d.perform a).2 (a.loaded last) := by
  cases a with
  | load s source =>
    rw [perform_load]
    exact .load d last s source
  | clear =>
    refine ⟨rfl, ?_⟩
    intro hopen
    cases hopen
  | close => exact h.close
  | seek line => exact h.congr rfl rfl rfl
  | current => exact h
  | advance => exact h.advance
  | lastPenLift line marker => exact h
  | toolpath s => exact h.congr rfl rfl rfl
  | toolpathIfFree s =>
    obtain ⟨hlines, hcursor, hestimate⟩ := perform_toolpathIfFree d s
    exact h.congr hestimate hlines (congrArg Cursor.isOpen hcursor)
  | discardToolpath => exact h.congr rfl rfl rfl

theorem remembers_foldl {d : Document} {last : Loaded} (h : Remembers d last)
    (actions : List Action) : Remembers (d.after actions) (actions.foldl Action.loaded last) := by
  induction actions generalizing d last with
  | nil => exact h
  | cons a rest ih => exact ih (perform_remembers h a)

/-- Behind every run the estimate is that of the last program. -/
theorem after_remembers (actions : List Action) :
    Remembers (after {} actions) (lastLoaded actions) := remembers_foldl remembers_empty actions

/-- **Loading forgets the past**, whatever was done to the document before.  A load
gives and leaves the same as on a new document, with nothing compiled; if it fails
it leaves what clearing leaves.  And the estimate of a document is at all times that
of the last program loaded, the lines as they were stored, or an empty one. -/
theorem after_load (actions : List Action) (s : Settings) (source : Source) :
    let d := after {} actions
    (d.load s source = ((load {} s source).1,
      { (load {} s source).2 with cache := { completed := d.cache.completed } }) ∧
      (load {} s source).2.cache.isVacant = true) ∧
    (∀ cause, (d.load s source).1 = .error cause → (d.load s source).2 = d.clear) ∧
    d.estimate = (lastLoaded actions).estimate ∧
    (d.cursor.isOpen = true → ∃ t, lastLoaded actions = some (t, d.lines)) := by
  have hremembers := after_remembers actions
  have hidle := (after_isFresh isFresh_empty actions).idle
  refine ⟨⟨load_eq hidle s source, ?_⟩, ?_, hremembers.estimate, hremembers.lines⟩
  · cases h : source.lines s.reverseForGlass with
    | ok lines => rw [load_of_ok {} h]; rfl
    | error reason => rw [load_of_error {} h]; rfl
  · intro cause h
    exact clear_of_load_error h

end Document

end

end PenPlotter
