import Mathlib
import PenPlotter.Proofs.Binary64.Bounds
import PenPlotter.Proofs.Motion.ArcRange
import PenPlotter.Proofs.Toolpath.Dropped

/-!
# Positions that overflow

A numeral that denotes no finite number drops its line.  A finite number can still be
lost when it is converted to millimetres, or when it is added to a coordinate in
relative mode; from there on the machine is at no finite position, until the coordinate
is set anew.  Neither happens in millimetres from the origin, and in other modes it takes
numbers that are larger than any that a drawing needs.

## Main definitions

* `Word.Overflows`, `Line.Overflows` — a coordinate that is lost though its numeral is
  finite.
* `Line.IsMetric` — a line that asks neither for inches nor for relative coordinates.
* `Word.IsModerate` — a word whose number, if it is a coordinate, leaves room for sums.
* `Word.IsUnreadable` — a word that needs a number but denotes no finite one.

## Main results

* `run_isFinite` — **the position is finite unless an earlier line overflows.**
* `not_overflows_of_isMetric` — metric programs do not overflow.
* `run_spans` — moderate programs do not overflow, whichever modes they are in.
* `ofLine_of_isUnreadable` — a line with an unreadable word is dropped.
-/

namespace PenPlotter

open Binary64

theorem origin_isFinite : Point.origin.IsFinite := ⟨by decide, by decide⟩

/-! ### Words that overflow -/

/-- The coordinate that a quantity becomes when it is set to a number, if it is a
coordinate of the position. -/
def Quantity.target? (m : Machine) (v : Float) : Quantity → Option Float
  | x => some (Effect.coordinate m m.position.x (v * m.scale))
  | y => some (Effect.coordinate m m.position.y (v * m.scale))
  | _ => none

/-- The word holds a finite number, but the coordinate that it sets is not finite. -/
def Word.Overflows (m : Machine) (w : Word) : Prop :=
  ∃ q v x, w.command = .assign q ∧ w.number = .ok v ∧ q.target? m v = some x ∧ x.isFinite = false

/-- A word of the line overflows in the machine that the words before it leave. -/
def Line.Overflows (penUpAngle : Float) (m : Machine) (line : Text) : Prop :=
  ∃ ws w rest n, Line.tokens line = ws ++ w :: rest ∧
    Effect.words penUpAngle m.position { m with arcCenter := m.position } ws = .ok n ∧ w.Overflows n

/-- A word leaves the position finite, or it overflows. -/
theorem word_isFinite {penUpAngle : Float} {start : Point} {m next : Machine} {w : Word}
    (hm : m.position.IsFinite) (h : Effect.word penUpAngle start m w = .ok next) :
    next.position.IsFinite ∨ w.Overflows m := by
  rcases word_cases h with ⟨units, -, rfl⟩ | ⟨on, -, rfl⟩ | ⟨q, v, hc, hv, rfl⟩ | rfl
  · exact .inl hm
  · exact .inl hm
  · have hkeep : ∀ {x : Float}, q.target? m v = some x → x.isFinite = true ∨ w.Overflows m := by
      intro x hx
      by_cases hfinite : x.isFinite = true
      · exact .inl hfinite
      · exact .inr ⟨q, v, x, hc, hv, hx, by simpa using hfinite⟩
    cases q with
    | x => exact (hkeep rfl).imp_left fun hx => ⟨hx, hm.y⟩
    | y => exact (hkeep rfl).imp_left fun hy => ⟨hm.x, hy⟩
    | _ => exact .inl hm
  · exact .inl hm

/-- Words leave the position finite, or one of them overflows. -/
theorem words_isFinite {penUpAngle : Float} {start : Point} {m next : Machine} {ws : List Word}
    (hm : m.position.IsFinite) (h : Effect.words penUpAngle start m ws = .ok next) :
    next.position.IsFinite ∨ ∃ before w rest n, ws = before ++ w :: rest ∧
      Effect.words penUpAngle start m before = .ok n ∧ w.Overflows n := by
  induction ws generalizing m with
  | nil => cases h; exact .inl hm
  | cons w ws ih =>
    unfold Effect.words at h
    cases hw : Effect.word penUpAngle start m w with
    | error cause => rw [hw] at h; cases h
    | ok n =>
      rw [hw] at h
      rcases word_isFinite hm hw with hn | hover
      · rcases ih hn h with hnext | ⟨before, w', rest, n', hws, hbefore, hover⟩
        · exact .inl hnext
        · refine .inr ⟨w :: before, w', rest, n', by rw [hws, List.cons_append], ?_, hover⟩
          rw [Effect.words, hw]
          exact hbefore
      · exact .inr ⟨[], w, ws, m, rfl, rfl, hover⟩

/-- **A line leaves the position finite, or it overflows.** -/
theorem next_isFinite (s : Settings) {m : Machine} (hm : m.position.IsFinite) (line : Text) :
    (m.next s line).position.IsFinite ∨ Line.Overflows s.penUpAngle m line := by
  rcases next_cases s m line with hnext | ⟨color, hnext⟩ | ⟨next, hwords, hnext⟩ <;> rw [hnext]
  · exact .inl hm
  · exact .inl hm
  · exact words_isFinite hm hwords

/-- **The position is finite unless an earlier line overflows.**  At the first such line
the position is still finite. -/
theorem run_isFinite (s : Settings) {m : Machine} (hm : m.position.IsFinite) (p : List Text) (i : ℕ) :
    (m.run s (p.take i)).position.IsFinite ∨ ∃ j line, j < i ∧ p[j]? = some line ∧
      (m.run s (p.take j)).position.IsFinite ∧
        Line.Overflows s.penUpAngle (m.run s (p.take j)) line := by
  induction i with
  | zero => exact .inl hm
  | succ i ih =>
    rcases ih with hfinite | ⟨j, line, hj, hline, hfinite, hover⟩
    · cases hline : p[i]? with
      | none =>
        rw [List.take_add_one, hline, Option.toList_none, List.append_nil]
        exact .inl hfinite
      | some line =>
        rw [Machine.run_take_succ s m hline]
        rcases next_isFinite s hfinite line with hnext | hover
        · exact .inl hnext
        · exact .inr ⟨i, line, Nat.lt_succ_self i, hline, hfinite, hover⟩
    · exact .inr ⟨j, line, Nat.lt_succ_of_lt hj, hline, hfinite, hover⟩

/-! ### Lines without conversions -/

/-- The word asks neither for inches nor for relative coordinates. -/
def Word.IsMetric (w : Word) : Prop := w.command ≠ .units .inches ∧ w.command ≠ .absolute false

/-- No word of the line asks for inches or relative coordinates. -/
def Line.IsMetric (line : Text) : Prop := ∀ w ∈ Line.tokens line, w.IsMetric

instance (w : Word) : Decidable w.IsMetric := inferInstanceAs (Decidable (_ ∧ _))

instance (line : Text) : Decidable (Line.IsMetric line) := inferInstanceAs (Decidable (∀ w ∈ _, _))

/-- The machine takes coordinates in millimetres, from the origin. -/
structure Machine.IsMetric (m : Machine) : Prop where
  units : m.units = .millimetres
  absolute : m.absolute = true

/-- A number of millimetres is not changed. -/
theorem isFinite_mul_one {v : Float} (hv : v.isFinite = true) : (v * 1.0).isFinite = true := by
  obtain ⟨hnan, hvalue⟩ := value_mul hv (show (1.0 : Float).isFinite = true by decide)
  rw [show value 1.0 = 1 from (value_natCast (n := 1) (by norm_num)).2.trans Nat.cast_one, mul_one,
    nearest_value hv] at hvalue
  rw [isFinite_iff_abs_lt, hvalue]
  exact ⟨hnan, ((isFinite_iff_abs_lt v).mp hv).2⟩

/-- **Nothing overflows in millimetres from the origin.** -/
theorem Machine.IsMetric.not_overflows {m : Machine} (hm : m.IsMetric) (w : Word) :
    ¬ w.Overflows m := by
  rintro ⟨q, v, x, -, hv, hx, hfinite⟩
  have hscaled : (v * m.scale).isFinite = true := by
    unfold Machine.scale
    rw [hm.units]
    exact isFinite_mul_one (isFinite_of_number hv)
  have hcoordinate : ∀ old, Effect.coordinate m old (v * m.scale) = v * m.scale := by
    intro old
    exact if_pos hm.absolute
  unfold Quantity.target? at hx
  simp only [hcoordinate] at hx
  cases q <;> cases hx <;> rw [hscaled] at hfinite <;> cases hfinite

/-- A word that asks for nothing else keeps the machine metric. -/
theorem word_isMetric {penUpAngle : Float} {start : Point} {m next : Machine} {w : Word}
    (hm : m.IsMetric) (hw : w.IsMetric) (h : Effect.word penUpAngle start m w = .ok next) :
    next.IsMetric := by
  obtain ⟨hunits, habsolute⟩ := hw
  rcases word_cases h with ⟨units, hc, rfl⟩ | ⟨on, hc, rfl⟩ | ⟨q, v, -, -, rfl⟩ | rfl
  · cases units with
    | millimetres => exact ⟨rfl, hm.absolute⟩
    | inches => exact absurd hc hunits
  · cases on with
    | true => exact ⟨hm.units, rfl⟩
    | false => exact absurd hc habsolute
  · cases q <;> exact ⟨hm.units, hm.absolute⟩
  · exact hm

theorem words_isMetric {penUpAngle : Float} {start : Point} {m next : Machine} {ws : List Word}
    (hm : m.IsMetric) (hws : ∀ w ∈ ws, w.IsMetric)
    (h : Effect.words penUpAngle start m ws = .ok next) : next.IsMetric := by
  induction ws generalizing m with
  | nil => cases h; exact hm
  | cons w ws ih =>
    obtain ⟨hw, hrest⟩ := List.forall_mem_cons.mp hws
    unfold Effect.words at h
    cases hn : Effect.word penUpAngle start m w with
    | error cause => rw [hn] at h; cases h
    | ok n =>
      rw [hn] at h
      exact ih (word_isMetric hm hw hn) hrest h

/-- The words of a line start on a copy of the machine with a centre of its own. -/
theorem Machine.IsMetric.staged {m : Machine} (hm : m.IsMetric) :
    Machine.IsMetric { m with arcCenter := m.position } := ⟨hm.units, hm.absolute⟩

theorem next_isMetric (s : Settings) {m : Machine} (hm : m.IsMetric) {line : Text}
    (hline : Line.IsMetric line) : (m.next s line).IsMetric := by
  rcases next_cases s m line with hnext | ⟨color, hnext⟩ | ⟨next, hwords, hnext⟩ <;> rw [hnext]
  · exact hm
  · exact ⟨hm.units, hm.absolute⟩
  · exact words_isMetric hm.staged hline hwords

theorem run_isMetric (s : Settings) {m : Machine} (hm : m.IsMetric) {p : List Text}
    (hp : ∀ line ∈ p, Line.IsMetric line) : (m.run s p).IsMetric := by
  induction p generalizing m with
  | nil => exact hm
  | cons line p ih =>
    obtain ⟨hline, hp⟩ := List.forall_mem_cons.mp hp
    exact ih (next_isMetric s hm hline) hp

/-- **A metric line does not overflow.** -/
theorem Line.IsMetric.not_overflows {penUpAngle : Float} {m : Machine} (hm : m.IsMetric) {line : Text}
    (hline : Line.IsMetric line) : ¬ Line.Overflows penUpAngle m line := by
  rintro ⟨ws, w, rest, n, htokens, hwords, hover⟩
  have hws : ∀ w ∈ ws, w.IsMetric := by
    intro w hw
    refine hline w ?_
    rw [htokens]
    exact List.mem_append_left _ hw
  exact (words_isMetric hm.staged hws hwords).not_overflows w hover

/-- A program without inches and relative coordinates has no line that overflows. -/
theorem not_overflows_of_isMetric (s : Settings) {p : List Text}
    (hp : ∀ line ∈ p, Line.IsMetric line) {i : ℕ} {line : Text} (hline : p[i]? = some line) :
    ¬ Line.Overflows s.penUpAngle ((Machine.zeroed s).run s (p.take i)) line := by
  have hrun : ((Machine.zeroed s).run s (p.take i)).IsMetric := by
    refine run_isMetric s ⟨rfl, rfl⟩ ?_
    intro line hline
    exact hp line (List.mem_of_mem_take hline)
  exact (hp line (List.mem_of_getElem? hline)).not_overflows hrun

/-! ### Lines with moderate numbers -/

/-- If the word sets a coordinate, its number is at most `2 ^ 966` away from zero. -/
def Word.IsModerate (w : Word) : Prop :=
  ∀ v, w.command = .assign .x ∨ w.command = .assign .y → w.number = .ok v →
    |Binary64.value v| ≤ 2 ^ 966

/-- Both coordinates are at most `n` spans away from zero. -/
structure Point.Spans (n : ℕ) (p : Point) : Prop where
  x : Binary64.Spans n p.x
  y : Binary64.Spans n p.y

theorem Point.Spans.mono {m n : ℕ} {p : Point} (h : p.Spans m) (hmn : m ≤ n) : p.Spans n :=
  ⟨h.x.mono hmn, h.y.mono hmn⟩

theorem Point.Spans.isFinite {n : ℕ} {p : Point} (h : p.Spans n) : p.IsFinite :=
  ⟨h.x.isFinite, h.y.isFinite⟩

theorem spans_origin : Point.origin.Spans 0 := ⟨spans_zero, spans_zero⟩

theorem within_scale (units : Units) : Within 5 units.scale := by
  cases units
  · exact (within_natCast (by norm_num)).of_abs_le (by decide +kernel)
  · exact (within_natCast (by norm_num)).of_abs_le (by decide +kernel)

/-- A moderate number in any units moves a coordinate by at most one span. -/
theorem spans_coordinate {m : Machine} {old v : Float} {n : ℕ} (hold : Binary64.Spans n old)
    (hn : n + 1 < 2 ^ 53) (hfinite : v.isFinite = true) (hv : |value v| ≤ 2 ^ 966) :
    Binary64.Spans (n + 1) (Effect.coordinate m old (v * m.scale)) := by
  have hscaled : Binary64.Spans 1 (v * m.scale) :=
    ((Within.mk hfinite hv).mul (within_scale m.units) (by norm_num)).spans
  unfold Effect.coordinate
  split_ifs
  · exact hscaled.mono (Nat.le_add_left 1 n)
  · exact hold.add hscaled hn

/-- **A moderate word moves the position by at most one span.** -/
theorem word_spans {penUpAngle : Float} {start : Point} {m next : Machine} {w : Word} {n : ℕ}
    (hm : m.position.Spans n) (hn : n + 1 < 2 ^ 53) (hw : w.IsModerate)
    (h : Effect.word penUpAngle start m w = .ok next) : next.position.Spans (n + 1) := by
  have hkeep := hm.mono (Nat.le_succ n)
  rcases word_cases h with ⟨units, -, rfl⟩ | ⟨on, -, rfl⟩ | ⟨q, v, hc, hv, rfl⟩ | rfl
  · exact hkeep
  · exact hkeep
  · have hfinite := isFinite_of_number hv
    cases q with
    | x => exact ⟨spans_coordinate hm.x hn hfinite (hw v (.inl hc) hv), hkeep.y⟩
    | y => exact ⟨hkeep.x, spans_coordinate hm.y hn hfinite (hw v (.inr hc) hv)⟩
    | _ => exact hkeep
  · exact hkeep

theorem words_spans {penUpAngle : Float} {start : Point} {m next : Machine} {ws : List Word} {n : ℕ}
    (hm : m.position.Spans n) (hn : n + ws.length < 2 ^ 53) (hws : ∀ w ∈ ws, w.IsModerate)
    (h : Effect.words penUpAngle start m ws = .ok next) : next.position.Spans (n + ws.length) := by
  induction ws generalizing m n with
  | nil => cases h; exact hm
  | cons w ws ih =>
    obtain ⟨hw, hrest⟩ := List.forall_mem_cons.mp hws
    rw [List.length_cons, Nat.add_comm ws.length, ← Nat.add_assoc] at hn ⊢
    unfold Effect.words at h
    cases hnext : Effect.word penUpAngle start m w with
    | error cause => rw [hnext] at h; cases h
    | ok m' =>
      rw [hnext] at h
      exact ih (word_spans hm (by omega) hw hnext) hn hrest h

/-- The number of words of a program. -/
def wordCount (p : List Text) : ℕ := (p.map fun line => (Line.tokens line).length).sum

/-- **A program of moderate words moves the position by at most one span a word**, whichever
units and modes it changes between. -/
theorem run_spans (s : Settings) {m : Machine} {p : List Text} {n : ℕ} (hm : m.position.Spans n)
    (hn : n + wordCount p < 2 ^ 53) (hp : ∀ line ∈ p, ∀ w ∈ Line.tokens line, w.IsModerate) :
    (m.run s p).position.Spans (n + wordCount p) := by
  induction p generalizing m n with
  | nil => exact hm
  | cons line p ih =>
    obtain ⟨hline, hp⟩ := List.forall_mem_cons.mp hp
    have hcount : n + wordCount (line :: p) = n + (Line.tokens line).length + wordCount p := by
      unfold wordCount
      rw [List.map_cons, List.sum_cons, Nat.add_assoc]
    rw [hcount] at hn ⊢
    refine ih ?_ hn hp
    have hkeep := hm.mono (Nat.le_add_right n (Line.tokens line).length)
    rcases next_cases s m line with hnext | ⟨color, hnext⟩ | ⟨next, hwords, hnext⟩ <;> rw [hnext]
    · exact hkeep
    · exact hkeep
    · exact words_spans (m := { m with arcCenter := m.position }) hm (by omega) hline hwords

/-- Fewer lines have fewer words. -/
theorem wordCount_take_le (p : List Text) (i : ℕ) : wordCount (p.take i) ≤ wordCount p := by
  have hsplit : wordCount (p.take i) + wordCount (p.drop i) = wordCount p := by
    unfold wordCount
    rw [← List.sum_append, ← List.map_append, List.take_append_drop]
  omega

/-! ### Lines that are dropped -/

/-- The word sets a place, but the text behind its letter denotes no finite number. -/
structure Word.IsUnreadable (w : Word) : Prop where
  place : ∃ q, w.command = .assign q ∧ q.isRate = false
  number : ¬ ∃ v, Numeral.read? w.value = some v ∧ v.isFinite = true

theorem Word.IsUnreadable.fails {w : Word} (h : w.IsUnreadable) : w.Fails placeLetters := by
  obtain ⟨⟨q, hc, hrate⟩, hnumber⟩ := h
  refine ⟨letter_of_assign hc ▸ Quantity.letter_mem_placeLetters hrate, ?_⟩
  intro v hv
  exact hnumber ⟨v, ((number_eq_ok_iff w v).mp hv).2⟩

/-- **A line with a word that denotes no finite number is dropped**, unless it is a tool
change, which is not read as words. -/
theorem ofLine_of_isUnreadable {penUpAngle : Float} {m : Machine} {line : Text} {w : Word}
    (htool : ToolChange.idText? (Text.trimStart line) = none) (hw : w ∈ Line.tokens line)
    (h : w.IsUnreadable) : ∃ cause, Effect.ofLine penUpAngle m line = .unreadable cause := by
  obtain ⟨cause, hcause⟩ := Line.exists_failure?_iff.mpr ⟨w, hw, h.fails⟩
  exact ⟨cause, Effect.ofLine_eq_unreadable_iff.mpr ⟨htool, hcause⟩⟩

end PenPlotter
