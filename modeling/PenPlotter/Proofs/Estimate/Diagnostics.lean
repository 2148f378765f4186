import Mathlib
import PenPlotter.Proofs.Toolpath.Dropped

/-!
# What an estimate reports

Whether a line is read to its end depends on its words alone and not on the machine
that reads them.  So the diagnostics of a program are those of its lines, one by one
and in order: each line with a word that needs a number and has none is reported once,
for the first such word, and no other line is.  The compiler gives up no line for a
number that the estimate does not report.

## Main definitions

* `Line.diagnostic?` — what is reported about a line with an index.
* `Diagnostic.Describes` — an entry that quotes a line and names the first fault in it.

## Main results

* `diagnostics_eq_filterMap` — the diagnostics of a program are those of its lines.
* `mem_diagnostics_iff`, `pairwise_line_lt` — which entries there are, and in which order.
* `estimate_diagnostics` — **each faulty line is reported once, in order, with its first
  fault.**
-/

namespace PenPlotter

/-- What is reported about a line with an index, if a word of it fails. -/
def Line.diagnostic? (line : Text) (index : ℕ) : Option Diagnostic :=
  (Line.failure? numberLetters line).map (Diagnostic.mk index line)

theorem Line.diagnostic?_eq_some_iff {line : Text} {index : ℕ} {d : Diagnostic} :
    Line.diagnostic? line index = some d ↔ d.line = index ∧ d.content = line ∧
      Line.failure? numberLetters line = some d.cause := by
  obtain ⟨i, content, cause⟩ := d
  unfold diagnostic?
  rw [Option.map_eq_some_iff]
  constructor
  · rintro ⟨_, hcause, ⟨⟩⟩
    exact ⟨rfl, rfl, hcause⟩
  · rintro ⟨rfl, rfl, hcause⟩
    exact ⟨cause, hcause, rfl⟩

/-- The entry is about a line of the program: it quotes the line, and says what is wrong
with the first word in it that fails. -/
structure Diagnostic.Describes (p : List Text) (d : Diagnostic) : Prop where
  content : p[d.line]? = some d.content
  first : ∃ front w rest, Line.tokens d.content = front ++ w :: rest ∧
    (∀ v ∈ front, ¬ v.Fails numberLetters) ∧ w.Fails numberLetters ∧
    d.message = if w.value = [] then s!"word '{w.letter}' has no value"
      else s!"'{w.letter}{String.ofList w.value}' is not a number"

section

variable [Trigonometry]

/-- The diagnostics of some lines are those of each line, whatever has been counted in
front of them. -/
theorem diagnostics_eq_filterMap (s : Settings) (index : ℕ) (t : Tally) (p : List Text) :
    Tally.diagnostics s index t p =
      (p.zipIdx index).filterMap fun entry => Line.diagnostic? entry.1 entry.2 := by
  induction p generalizing index t with
  | nil => rfl
  | cons line rest ih =>
    rw [Tally.diagnostics, failure_ofLine, List.zipIdx_cons, ih]
    cases hfailure : Line.failure? numberLetters line with
    | none => rw [List.filterMap_cons_none (by rw [Line.diagnostic?, hfailure]; rfl)]
    | some cause => rw [List.filterMap_cons_some (by rw [Line.diagnostic?, hfailure]; rfl)]

/-- The diagnostics of lines in a row are those of the first ones and of the others. -/
theorem diagnostics_append (s : Settings) (index : ℕ) (t : Tally) (pre suf : List Text) :
    Tally.diagnostics s index t (pre ++ suf) = Tally.diagnostics s index t pre ++
      Tally.diagnostics s (index + pre.length) t suf := by
  simp only [diagnostics_eq_filterMap, List.zipIdx_append, List.filterMap_append]

theorem diagnostics_singleton (s : Settings) (index : ℕ) (t : Tally) (line : Text) :
    Tally.diagnostics s index t [line] = (Line.diagnostic? line index).toList := by
  rw [diagnostics_eq_filterMap, List.zipIdx_singleton]
  cases h : Line.diagnostic? line index <;> simp [h]

/-- The entries are about the lines from the first index on. -/
theorem line_of_mem_diagnostics {s : Settings} {index : ℕ} {t : Tally} {p : List Text}
    {d : Diagnostic} (h : d ∈ Tally.diagnostics s index t p) :
    index ≤ d.line ∧ d.line < index + p.length := by
  rw [diagnostics_eq_filterMap, List.mem_filterMap] at h
  obtain ⟨entry, hentry, hd⟩ := h
  obtain ⟨hline, -, -⟩ := Line.diagnostic?_eq_some_iff.mp hd
  rw [hline]
  exact ⟨List.le_snd_of_mem_zipIdx hentry, List.snd_lt_add_of_mem_zipIdx hentry⟩

/-- Nothing is reported about lines without a word that fails. -/
theorem diagnostics_eq_nil_iff {s : Settings} {index : ℕ} {t : Tally} {p : List Text} :
    Tally.diagnostics s index t p = [] ↔ ∀ line ∈ p, Line.failure? numberLetters line = none := by
  rw [diagnostics_eq_filterMap, List.filterMap_eq_nil_iff]
  conv_rhs => rw [← List.zipIdx_map_fst index p]
  rw [List.forall_mem_map]
  exact forall₂_congr fun entry _ => Option.map_eq_none_iff

theorem mem_diagnostics_iff {s : Settings} {p : List Text} {d : Diagnostic} :
    d ∈ (estimate s p).diagnostics ↔
      p[d.line]? = some d.content ∧ Line.failure? numberLetters d.content = some d.cause := by
  unfold estimate
  simp only [diagnostics_eq_filterMap, List.mem_filterMap, Prod.exists,
    List.mk_mem_zipIdx_iff_getElem?, Line.diagnostic?_eq_some_iff]
  constructor
  · rintro ⟨line, index, hline, rfl, rfl, hcause⟩
    exact ⟨hline, hcause⟩
  · rintro ⟨hline, hcause⟩
    exact ⟨_, _, hline, rfl, rfl, hcause⟩

/-- A line is reported where it stands exactly if a word of it fails. -/
theorem exists_diagnostic_iff {s : Settings} {p : List Text} {i : ℕ} {line : Text}
    (h : p[i]? = some line) :
    (∃ d ∈ (estimate s p).diagnostics, d.line = i ∧ d.content = line) ↔
      ∃ w ∈ Line.tokens line, w.Fails numberLetters := by
  rw [← Line.exists_failure?_iff]
  constructor
  · rintro ⟨d, hd, -, rfl⟩
    exact ⟨d.cause, (mem_diagnostics_iff.mp hd).2⟩
  · rintro ⟨cause, hcause⟩
    exact ⟨⟨i, line, cause⟩, mem_diagnostics_iff.mpr ⟨h, hcause⟩, rfl, rfl⟩

/-- Entries come in the order of their lines, with at most one for each. -/
theorem pairwise_line_lt (s : Settings) (p : List Text) :
    (estimate s p).diagnostics.Pairwise fun d e => d.line < e.line := by
  unfold estimate
  rw [diagnostics_eq_filterMap]
  have hindex : (p.zipIdx 0).Pairwise fun entry other => entry.2 < other.2 := by
    rw [← List.pairwise_map, List.zipIdx_map_snd]
    exact List.pairwise_lt_range' 1
  refine hindex.filterMap _ ?_
  rintro entry other hlt d hd e he
  rw [(Line.diagnostic?_eq_some_iff.mp hd).1, (Line.diagnostic?_eq_some_iff.mp he).1]
  exact hlt

/-- A line with a word that fails has one entry. -/
theorem count_line_eq_one (s : Settings) {p : List Text} {i : ℕ} {line : Text}
    (h : p[i]? = some line) (hfails : ∃ w ∈ Line.tokens line, w.Fails numberLetters) :
    ((estimate s p).diagnostics.map Diagnostic.line).count i = 1 := by
  obtain ⟨d, hd, hline, -⟩ := (exists_diagnostic_iff (s := s) h).mpr hfails
  have hnodup : ((estimate s p).diagnostics.map Diagnostic.line).Nodup :=
    (List.pairwise_map.mpr (pairwise_line_lt s p)).imp Nat.ne_of_lt
  exact List.count_eq_one_of_mem hnodup (hline ▸ List.mem_map_of_mem hd)

/-- Every entry quotes a line and names the first fault in it. -/
theorem describes_of_mem {s : Settings} {p : List Text} {d : Diagnostic}
    (h : d ∈ (estimate s p).diagnostics) : d.Describes p := by
  obtain ⟨hline, hcause⟩ := mem_diagnostics_iff.mp h
  obtain ⟨front, w, rest, htokens, hfront, hletter, hnumber⟩ := Line.failure?_eq_some_iff.mp hcause
  refine ⟨hline, front, w, rest, htokens, hfront, ?_, Word.message_of_number hnumber⟩
  exact Word.fails_of_failure? (Word.failure?_eq_some_iff.mpr ⟨hletter, hnumber⟩)

/-- A line that the compiler gives up for a number is reported. -/
theorem exists_diagnostic_of_unreadable {s : Settings} {p : List Text} {step : Step}
    (h : step ∈ programTrace s p) {cause : NumeralError} (heffect : step.effect = .unreadable cause) :
    ∃ d ∈ (estimate s p).diagnostics, d.line = step.line ∧ d.content = step.content := by
  obtain ⟨i, hi⟩ := List.mem_iff_getElem?.mp h
  rw [programTrace_getElem?, Option.map_eq_some_iff] at hi
  obtain ⟨line, hline, rfl⟩ := hi
  obtain ⟨-, hfailure⟩ := Effect.ofLine_eq_unreadable_iff.mp heffect
  obtain ⟨w, hw, hfails⟩ := Line.exists_failure?_iff.mp ⟨cause, hfailure⟩
  exact (exists_diagnostic_iff hline).mpr ⟨w, hw, hfails.of_placeLetters⟩

/-- **Each line with a word that needs a number and has none is reported once**, and no
other line is.  The entries come in the order of the lines; each quotes its line and
has the message of the first such word.  So every line that the compiler gives up for
a number is among them. -/
theorem estimate_diagnostics (s : Settings) (p : List Text) :
    (∀ i line, p[i]? = some line → (∃ w ∈ Line.tokens line, w.Fails numberLetters) →
      ((estimate s p).diagnostics.map Diagnostic.line).count i = 1) ∧
    (∀ d ∈ (estimate s p).diagnostics, d.Describes p) ∧
    (estimate s p).diagnostics.Pairwise (fun d e => d.line < e.line) ∧
    ∀ step ∈ programTrace s p, ∀ cause, step.effect = .unreadable cause →
      ∃ d ∈ (estimate s p).diagnostics, d.line = step.line ∧ d.content = step.content := by
  refine ⟨?_, ?_, pairwise_line_lt s p, ?_⟩
  · intro i line hline hfails
    exact count_line_eq_one s hline hfails
  · intro d hd
    exact describes_of_mem hd
  · intro step hstep cause heffect
    exact exists_diagnostic_of_unreadable hstep heffect

end

/-- A word for a rate without its number in front of one for a place that has none
either, and a line below with a word for a place. -/
def Diagnostic.sample : List Text :=
  [['G', '1', ' ', 'X', '5'], ['F', 'o', ' ', 'X'], ['Y', ' ', 'Z', '1']]

theorem estimate_diagnostics_sample :
    let entries := (estimate default Diagnostic.sample).diagnostics
    let fault : Diagnostic := ⟨1, ['F', 'o', ' ', 'X'], .malformed 'F' ['o']⟩
    let step := Step.ofLine default 2
      ((Machine.zeroed default).run default (Diagnostic.sample.take 2)) ['Y', ' ', 'Z', '1']
    ((∃ w ∈ Line.tokens ['F', 'o', ' ', 'X'], w.Fails numberLetters) ∧ fault ∈ entries ∧
      step ∈ programTrace default Diagnostic.sample ∧ step.effect = .unreadable (.missing 'Y')) ∧
    (entries.map Diagnostic.line).count 1 = 1 ∧ fault.Describes Diagnostic.sample ∧
      ∃ d ∈ entries, d.line = 2 ∧ d.content = ['Y', ' ', 'Z', '1'] := by
  dsimp only
  obtain ⟨hcount, hdescribes, -, hunreadable⟩ := estimate_diagnostics default Diagnostic.sample
  have hfails : ∃ w ∈ Line.tokens ['F', 'o', ' ', 'X'], w.Fails numberLetters := by
    refine ⟨⟨'F', ['o']⟩, by decide, by decide, ?_⟩
    intro v hv
    cases hv
  have hmem : ⟨1, ['F', 'o', ' ', 'X'], .malformed 'F' ['o']⟩ ∈
      (estimate default Diagnostic.sample).diagnostics := mem_diagnostics_iff.mpr ⟨rfl, rfl⟩
  have hstep : Step.ofLine default 2
      ((Machine.zeroed default).run default (Diagnostic.sample.take 2)) ['Y', ' ', 'Z', '1'] ∈
        programTrace default Diagnostic.sample := by
    refine List.mem_of_getElem? (i := 2) ?_
    rw [programTrace_getElem?]
    rfl
  exact ⟨⟨hfails, hmem, hstep, rfl⟩, hcount 1 _ rfl hfails, hdescribes _ hmem,
    hunreadable _ hstep _ rfl⟩

end PenPlotter
