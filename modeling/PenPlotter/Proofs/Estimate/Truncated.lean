import Mathlib
import PenPlotter.Proofs.Estimate.Diagnostics
import PenPlotter.Proofs.Text.Cuts

/-!
# Lines that are read in part

The estimate reads a line up to its first word that needs a number and has none, and
counts what it has read.  That is the line cut in front of the word: no such word
selects a motion, even if it is the first of its line, so the line that is left moves
as the whole line does.  The totals of a program do not tell the two lines apart, and
its diagnostics differ by the entry for the line.

## Main definitions

* `Line.Cut.IsFirstFault` — the cut in front of the first word that fails.

## Main results

* `ofWords_append_cons` — the words in front of one that fails are read as if they stood
  alone.
* `line_cut` — a tally takes the whole line and the cut one to the same totals.
* `stats_exchange` — lines that each tally takes to the same totals can be exchanged.
* `exists_diagnostics_around` — the entries around a line do not depend on it.
* `estimate_cut` — **a word without its number costs only the rest of its line.**
-/

namespace PenPlotter

/-! ### Lines cut in front of their first fault -/

/-- The word at the cut is the first word of the line that fails. -/
structure Line.Cut.IsFirstFault {line : Text} (c : Line.Cut line) : Prop where
  front : ∀ w ∈ Line.tokens c.front, ¬ w.Fails numberLetters
  word : c.word.Fails numberLetters

/-- A line with a word that fails has a first one. -/
theorem Line.exists_isFirstFault {line : Text}
    (h : ∃ w ∈ Line.tokens line, w.Fails numberLetters) : ∃ c : Line.Cut line, c.IsFirstFault := by
  obtain ⟨cause, hcause⟩ := Line.exists_failure?_iff.mpr h
  obtain ⟨front, w, rest, htokens, hfront, hletter, hnumber⟩ := Line.failure?_eq_some_iff.mp hcause
  obtain ⟨c, rfl, rfl⟩ := Line.exists_cut htokens
  refine ⟨c, hfront, hletter, ?_⟩
  intro v hv
  rw [hnumber] at hv
  cases hv

variable {line : Text} {c : Line.Cut line}

/-- What the line is reported for. -/
theorem Line.Cut.IsFirstFault.exists_cause (h : c.IsFirstFault) :
    ∃ cause, c.word.number = .error cause ∧ Line.failure? numberLetters line = some cause := by
  obtain ⟨hfront, hletter, hnumber⟩ := h
  cases hc : c.word.number with
  | ok v => exact absurd hc (hnumber v)
  | error cause =>
    exact ⟨cause, rfl, Line.failure?_eq_some_iff.mpr ⟨_, _, _, c.tokens_eq, hfront, hletter, hc⟩⟩

/-- A word that fails selects no motion. -/
theorem Word.Fails.motion_eq_none {w : Word} (h : w.Fails numberLetters) : w.motion = none := by
  refine if_neg ?_
  intro hletter
  have hG : 'G' ∈ numberLetters := hletter ▸ h.letter
  exact absurd hG (by decide)

/-- Both lines have the same motion, although the cut one may have lost its first word. -/
theorem Line.Cut.IsFirstFault.motion_eq (h : c.IsFirstFault) :
    (Line.ofText line).motion = (Line.ofText c.front).motion := by
  unfold Line.motion
  rw [Line.words_ofText, Line.words_ofText, c.tokens_eq]
  cases Line.tokens c.front with
  | nil => exact h.word.motion_eq_none
  | cons w front => rfl

/-! ### Reading a line in part -/

/-- **Words in front of one that fails are read as if they stood alone.** -/
theorem ofWords_append_cons {front rest : List Word} {w : Word} {cause : NumeralError}
    (hfront : ∀ v ∈ front, ¬ v.Fails numberLetters) (hw : w.failure? numberLetters = some cause)
    (m : Machine) (t : Destination) :
    Reading.ofWords m t (front ++ w :: rest) =
      { Reading.ofWords m t front with failure := some cause } := by
  induction front generalizing m t with
  | nil =>
    rw [List.nil_append, Reading.ofWords_nil, Reading.ofWords, reading_word_eq_error_iff.mpr hw]
  | cons v front ih =>
    obtain ⟨hv, hfront⟩ := List.forall_mem_cons.mp hfront
    rw [List.cons_append, Reading.ofWords, Reading.ofWords]
    cases hread : Reading.word m t v with
    | ok next => exact ih hfront next.1 next.2
    | error e => exact absurd (Word.fails_of_failure? (reading_word_eq_error_iff.mp hread)) hv

/-- The whole line comes to what the cut one comes to, but for the report. -/
theorem Line.Cut.IsFirstFault.ofLine_eq (h : c.IsFirstFault) (m : Machine) :
    Reading.ofLine m line =
      { Reading.ofLine m c.front with failure := Line.failure? numberLetters line } := by
  obtain ⟨cause, hnumber, hfailure⟩ := h.exists_cause
  unfold Reading.ofLine
  rw [c.tokens_eq, hfailure]
  exact ofWords_append_cons h.front (Word.failure?_eq_some_iff.mpr ⟨h.word.letter, hnumber⟩) m _

section

variable [Trigonometry]

/-- **A tally does not tell the whole line from the cut one.** -/
theorem line_cut (h : c.IsFirstFault) (s : Settings) (t : Tally) :
    t.line s line = t.line s c.front := by
  unfold Tally.line
  rw [h.ofLine_eq, h.motion_eq]
  rfl

/-- Lines that each tally takes to the same totals can be exchanged. -/
theorem stats_exchange (s : Settings) (pre suf : List Text) {line other : Text}
    (h : ∀ t : Tally, t.line s line = t.line s other) :
    (estimate s (pre ++ line :: suf)).stats = (estimate s (pre ++ other :: suf)).stats := by
  unfold estimate Tally.lines
  rw [List.foldl_append, List.foldl_append, List.foldl_cons, List.foldl_cons, h]

/-- The entries for the lines around a line do not depend on it. -/
theorem exists_diagnostics_around (s : Settings) (pre suf : List Text) : ∃ before after, ∀ line,
    (estimate s (pre ++ line :: suf)).diagnostics =
      before ++ ((Line.diagnostic? line pre.length).toList ++ after) := by
  refine ⟨Tally.diagnostics s 0 (Tally.start s) pre,
    Tally.diagnostics s (pre.length + 1) (Tally.start s) suf, ?_⟩
  intro line
  unfold estimate
  dsimp only
  rw [← List.singleton_append, diagnostics_append, diagnostics_append, Nat.zero_add,
    List.length_singleton, diagnostics_singleton]

/-- **A word without its number costs only the rest of its line.**  A line with such a
word can be cut in front of the first one, and a program with the cut line in its place
has the same totals.  Its diagnostics are the same but for the one entry that the whole
line has. -/
theorem estimate_cut (s : Settings) (pre suf : List Text) {line : Text}
    (h : ∃ w ∈ Line.tokens line, w.Fails numberLetters) :
    (∃ c : Line.Cut line, c.IsFirstFault) ∧ ∀ c : Line.Cut line, c.IsFirstFault →
      let whole := estimate s (pre ++ line :: suf)
      let cut := estimate s (pre ++ c.front :: suf)
      whole.stats = cut.stats ∧ ∃ before after cause, c.word.number = .error cause ∧
        whole.diagnostics = before ++ ⟨pre.length, line, cause⟩ :: after ∧
        cut.diagnostics = before ++ after := by
  refine ⟨Line.exists_isFirstFault h, ?_⟩
  intro c hc
  obtain ⟨cause, hnumber, hfailure⟩ := hc.exists_cause
  obtain ⟨before, after, hentries⟩ := exists_diagnostics_around s pre suf
  refine ⟨stats_exchange s pre suf (line_cut hc s), before, after, cause, hnumber, ?_, ?_⟩
  · rw [hentries, Line.diagnostic?, hfailure]
    rfl
  · rw [hentries, Line.diagnostic?, Line.failure?_eq_none_iff.mpr hc.front]
    rfl

end

/-- A line that sets a rate, units and a place in front of a word that holds no number. -/
def Line.faultySample : Text :=
  ['F', '9', ' ', 'G', '2', '0', ' ', 'X', '1', '\t', 'y', 'o', ' ', 'Z', ';', ' ', 'A']

def Line.Cut.sample : Line.Cut Line.faultySample where
  front := ['F', '9', ' ', 'G', '2', '0', ' ', 'X', '1', '\t']
  piece := ['y', 'o']
  rest := [' ', 'Z', ';', ' ', 'A']
  word := ⟨'Y', ['o']⟩
  text_eq := rfl
  isPiece := ⟨by decide, by simp [isBlank]⟩
  ofPiece? := rfl
  not_mem := by decide
  endsBlank := by rintro _ ⟨⟩; rfl
  startsBlank := Text.startsBlank_cons isBlank_space _

theorem estimate_cut_sample :
    ((∃ w ∈ Line.tokens Line.faultySample, w.Fails numberLetters) ∧
      Line.Cut.sample.IsFirstFault) ∧
    (estimate default ([['G', '9', '1']] ++ Line.faultySample :: [['Y', '2']])).stats =
      (estimate default ([['G', '9', '1']] ++ Line.Cut.sample.front :: [['Y', '2']])).stats := by
  have hfirst : Line.Cut.sample.IsFirstFault := by
    refine ⟨Line.failure?_eq_none_iff.mp rfl, by decide, ?_⟩
    intro v hv
    cases hv
  have hfails : ∃ w ∈ Line.tokens Line.faultySample, w.Fails numberLetters :=
    ⟨⟨'Y', ['o']⟩, by decide, hfirst.word⟩
  exact ⟨⟨hfails, hfirst⟩, ((estimate_cut default _ _ hfails).2 _ hfirst).1⟩

end PenPlotter
