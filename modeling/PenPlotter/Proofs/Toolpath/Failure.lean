import Mathlib
import PenPlotter.Estimate
import PenPlotter.Proofs.Toolpath.Trace

/-!
# Words without their number

Both passes over a program stop at the first word of a line that needs a number and
holds none.  They differ in the words that need one: the compiler does not look at
rates.  So the failure of a line is that of the first such word, whatever the machine
and the words around it.

## Main definitions

* `placeLetters`, `numberLetters` — the letters of words that need a number.
* `Word.Fails`, `Word.failure?` — a word that needs a number and holds none, and why.
* `Line.failure?` — the failure of the first such word of a line.

## Main results

* `effect_word_eq_error_iff`, `reading_word_eq_error_iff` — the words at which each pass
  stops.
* `words_eq_error_iff`, `failure_ofWords` — each pass stops at the first of them.
* `failure?_eq_some_iff` — **the failure of a line, by the words in front of it.**
-/

namespace PenPlotter

/-! ### Letters -/

/-- The letters of the words that set a place. -/
def placeLetters : List Char := ['X', 'Y', 'Z', 'I', 'J']

/-- The letters of all words that need a number, those that set a rate among them. -/
def numberLetters : List Char := 'F' :: 'A' :: placeLetters

theorem mem_numberLetters_of_mem_placeLetters {c : Char} (h : c ∈ placeLetters) :
    c ∈ numberLetters := List.mem_cons_of_mem _ (List.mem_cons_of_mem _ h)

theorem Quantity.letter_mem_numberLetters (q : Quantity) : q.letter ∈ numberLetters := by
  cases q <;> decide

/-- A quantity that is no rate is a place. -/
theorem Quantity.letter_mem_placeLetters {q : Quantity} (h : q.isRate = false) :
    q.letter ∈ placeLetters := by
  cases q with
  | feedRate => cases h
  | acceleration => cases h
  | _ => decide

/-- A word with one of the letters sets a quantity. -/
theorem Word.exists_assign {w : Word} (h : w.letter ∈ numberLetters) :
    ∃ q, w.command = .assign q := by
  obtain ⟨letter, value⟩ := w
  simp only [numberLetters, placeLetters, List.mem_cons, List.not_mem_nil, or_false] at h
  rcases h with rfl | rfl | rfl | rfl | rfl | rfl | rfl <;> exact ⟨_, rfl⟩

theorem Word.exists_assign_place {w : Word} (h : w.letter ∈ placeLetters) :
    ∃ q, w.command = .assign q ∧ q.isRate = false := by
  obtain ⟨q, hq⟩ := exists_assign (mem_numberLetters_of_mem_placeLetters h)
  refine ⟨q, hq, ?_⟩
  rw [letter_of_assign hq] at h
  cases q with
  | feedRate => exact absurd h (by decide)
  | acceleration => exact absurd h (by decide)
  | _ => rfl

/-! ### Words that fail -/

/-- The word has one of the letters and no number. -/
structure Word.Fails (letters : List Char) (w : Word) : Prop where
  letter : w.letter ∈ letters
  number : ∀ v, w.number ≠ .ok v

/-- A word at which the compiler stops is one at which the estimate stops. -/
theorem Word.Fails.of_placeLetters {w : Word} (h : w.Fails placeLetters) : w.Fails numberLetters :=
  ⟨mem_numberLetters_of_mem_placeLetters h.letter, h.number⟩

/-- Why the word has no number, if it has one of the letters. -/
def Word.failure? (letters : List Char) (w : Word) : Option NumeralError :=
  if w.letter ∈ letters then
    match w.number with
    | .ok _ => none
    | .error cause => some cause
  else none

/-- The failure of the first word of a line that fails. -/
def Line.failure? (letters : List Char) (line : Text) : Option NumeralError :=
  (Line.tokens line).findSome? (Word.failure? letters)

theorem Word.failure?_eq_some_iff {letters : List Char} {w : Word} {cause : NumeralError} :
    w.failure? letters = some cause ↔ w.letter ∈ letters ∧ w.number = .error cause := by
  unfold failure?
  split_ifs with h
  · cases hn : w.number <;> simp [h]
  · simp [h]

theorem Word.failure?_eq_none_iff {letters : List Char} {w : Word} :
    w.failure? letters = none ↔ ¬ w.Fails letters := by
  rw [Option.eq_none_iff_forall_ne_some]
  constructor
  · rintro h ⟨hletter, hnumber⟩
    cases hn : w.number with
    | ok v => exact hnumber v hn
    | error cause => exact h cause (failure?_eq_some_iff.mpr ⟨hletter, hn⟩)
  · intro h cause hcause
    obtain ⟨hletter, hn⟩ := failure?_eq_some_iff.mp hcause
    refine h ⟨hletter, ?_⟩
    intro v hv
    rw [hn] at hv
    cases hv

theorem Word.fails_of_failure? {letters : List Char} {w : Word} {cause : NumeralError}
    (h : w.failure? letters = some cause) : w.Fails letters := by
  rw [← not_not (a := w.Fails letters), ← failure?_eq_none_iff, h]
  exact Option.some_ne_none cause

/-- The message about a word without a number says which of the two things is wrong. -/
theorem Word.message_of_number {w : Word} {cause : NumeralError} (h : w.number = .error cause) :
    cause.message = if w.value = [] then s!"word '{w.letter}' has no value"
      else s!"'{w.letter}{String.ofList w.value}' is not a number" := by
  unfold number at h
  split_ifs at h with hempty
  · cases h
    rw [if_pos (List.isEmpty_iff.mp hempty)]
    rfl
  · rw [if_neg (fun hnil => hempty (List.isEmpty_iff.mpr hnil))]
    split at h
    · split_ifs at h
      cases h
      rfl
    · cases h
      rfl

/-- **The failure of a line is that of a word behind words that do not fail.** -/
theorem Line.failure?_eq_some_iff {letters : List Char} {line : Text} {cause : NumeralError} :
    Line.failure? letters line = some cause ↔ ∃ front w rest,
      Line.tokens line = front ++ w :: rest ∧ (∀ v ∈ front, ¬ v.Fails letters) ∧
        w.letter ∈ letters ∧ w.number = .error cause := by
  unfold failure?
  simp only [List.findSome?_eq_some_iff, Word.failure?_eq_some_iff, Word.failure?_eq_none_iff]
  constructor
  · rintro ⟨front, w, rest, htokens, ⟨hletter, hnumber⟩, hfront⟩
    exact ⟨front, w, rest, htokens, hfront, hletter, hnumber⟩
  · rintro ⟨front, w, rest, htokens, hfront, hletter, hnumber⟩
    exact ⟨front, w, rest, htokens, ⟨hletter, hnumber⟩, hfront⟩

/-- A line does not fail if no word of it does. -/
theorem Line.failure?_eq_none_iff {letters : List Char} {line : Text} :
    Line.failure? letters line = none ↔ ∀ w ∈ Line.tokens line, ¬ w.Fails letters := by
  simp only [failure?, List.findSome?_eq_none_iff, Word.failure?_eq_none_iff]

/-- A line fails if a word of it fails. -/
theorem Line.exists_failure?_iff {letters : List Char} {line : Text} :
    (∃ cause, Line.failure? letters line = some cause) ↔
      ∃ w ∈ Line.tokens line, w.Fails letters := by
  rw [← Option.ne_none_iff_exists', ne_eq, failure?_eq_none_iff]
  simp only [not_forall, not_not, exists_prop]

/-! ### Where the passes stop -/

/-- The compiler stops at words for places without a number. -/
theorem effect_word_eq_error_iff {penUpAngle : Float} {start : Point} {m : Machine} {w : Word}
    {cause : NumeralError} :
    Effect.word penUpAngle start m w = .error cause ↔ w.failure? placeLetters = some cause := by
  rw [Word.failure?_eq_some_iff]
  unfold Effect.word
  constructor
  · intro h
    cases hc : w.command with
    | assign q =>
      rw [hc] at h
      dsimp only at h
      split_ifs at h with hrate
      rw [Word.letter_of_assign hc]
      cases hn : w.number with
      | ok v => rw [hn] at h; cases h
      | error e =>
        rw [hn] at h
        cases h
        exact ⟨Quantity.letter_mem_placeLetters (Bool.eq_false_iff.mpr hrate), rfl⟩
    | _ => rw [hc] at h; cases h
  · rintro ⟨hletter, hn⟩
    obtain ⟨q, hc, hrate⟩ := Word.exists_assign_place hletter
    rw [hc]
    dsimp only
    rw [hrate, hn]
    rfl

/-- The estimate stops at any word that needs a number and has none. -/
theorem reading_word_eq_error_iff {m : Machine} {t : Destination} {w : Word}
    {cause : NumeralError} :
    Reading.word m t w = .error cause ↔ w.failure? numberLetters = some cause := by
  rw [Word.failure?_eq_some_iff]
  unfold Reading.word
  constructor
  · intro h
    cases hc : w.command with
    | assign q =>
      rw [hc] at h
      rw [Word.letter_of_assign hc]
      cases hn : w.number with
      | ok v => rw [hn] at h; cases h
      | error e => rw [hn] at h; cases h; exact ⟨q.letter_mem_numberLetters, rfl⟩
    | _ => rw [hc] at h; cases h
  · rintro ⟨hletter, hn⟩
    obtain ⟨q, hc⟩ := Word.exists_assign hletter
    rw [hc, hn]
    rfl

/-- A word that is read does not fail. -/
theorem failure?_of_effect_word {penUpAngle : Float} {start : Point} {m next : Machine} {w : Word}
    (h : Effect.word penUpAngle start m w = .ok next) : w.failure? placeLetters = none := by
  rw [Option.eq_none_iff_forall_ne_some]
  intro cause hcause
  rw [effect_word_eq_error_iff.mpr hcause] at h
  cases h

theorem failure?_of_reading_word {m : Machine} {t : Destination} {w : Word}
    {next : Machine × Destination} (h : Reading.word m t w = .ok next) :
    w.failure? numberLetters = none := by
  rw [Option.eq_none_iff_forall_ne_some]
  intro cause hcause
  rw [reading_word_eq_error_iff.mpr hcause] at h
  cases h

/-- **The compiler gives up a line for the first word in it that fails.** -/
theorem words_eq_error_iff {penUpAngle : Float} {start : Point} {m : Machine} {ws : List Word}
    {cause : NumeralError} : Effect.words penUpAngle start m ws = .error cause ↔
      ws.findSome? (Word.failure? placeLetters) = some cause := by
  induction ws generalizing m with
  | nil => simp
  | cons w rest ih =>
    rw [Effect.words, List.findSome?_cons]
    cases hw : Effect.word penUpAngle start m w with
    | error e => rw [effect_word_eq_error_iff.mp hw]; simp
    | ok next => rw [failure?_of_effect_word hw]; exact ih

/-- **The estimate stops reading a line at the first word in it that fails.** -/
theorem failure_ofWords (m : Machine) (t : Destination) (ws : List Word) :
    (Reading.ofWords m t ws).failure = ws.findSome? (Word.failure? numberLetters) := by
  induction ws generalizing m t with
  | nil => rfl
  | cons w rest ih =>
    rw [Reading.ofWords, List.findSome?_cons]
    cases hw : Reading.word m t w with
    | error cause => rw [reading_word_eq_error_iff.mp hw]
    | ok next => rw [failure?_of_reading_word hw]; exact ih next.1 next.2

theorem failure_ofLine (m : Machine) (line : Text) :
    (Reading.ofLine m line).failure = Line.failure? numberLetters line :=
  failure_ofWords m (Destination.ofMachine m) (Line.tokens line)

end PenPlotter
