import Mathlib
import PenPlotter.Estimate
import PenPlotter.Proofs.Binary64.SameNumber
import PenPlotter.Proofs.Toolpath.Trace

/-!
# Lines read by the estimate and by the compiler

The estimate reads a line into a destination and leaves the position alone until
the line is done, while the compiler moves a copy of the machine word by word.  As
long as every word can be read and no word asks for relative coordinates, both come
to the same place, in the same units and with the same centre of an arc.

Home can be either of the two zeros.  The places then agree as numbers, and if home
is the origin itself they are the same places.

## Main definitions

* `Agrees`, `Point.Agrees`, `Machine.Agrees` — the same number or, if that is asked
  for, the same machine number.
* `Staged` — a destination and a copied machine in the middle of a line.
* `Line.IsComparable` — a line that both passes take for the same one.

## Main results

* `word_staged`, `words_staged` — reading words keeps the two passes together.
* `line_agrees` — **so does a line.**
-/

namespace PenPlotter

open Binary64

/-! ### Agreement -/

/-- The two numbers are the same, and the same machine number if that is asked for. -/
structure Agrees (exactly : Prop) (a b : Float) : Prop where
  same : SameNumber a b
  eq : exactly → a = b

theorem Agrees.refl (exactly : Prop) (a : Float) : Agrees exactly a a := ⟨.refl a, fun _ => rfl⟩

theorem Agrees.add_right {exactly : Prop} {a b : Float} (h : Agrees exactly a b) (v : Float) :
    Agrees exactly (a + v) (b + v) := by
  refine ⟨h.same.add (.refl v), ?_⟩
  intro he
  rw [h.eq he]

/-- The two points agree in both coordinates. -/
structure Point.Agrees (exactly : Prop) (p q : Point) : Prop where
  x : PenPlotter.Agrees exactly p.x q.x
  y : PenPlotter.Agrees exactly p.y q.y

theorem Point.Agrees.refl (exactly : Prop) (p : Point) : p.Agrees exactly p := ⟨.refl _ _, .refl _ _⟩

theorem Point.Agrees.eq {exactly : Prop} {p q : Point} (h : p.Agrees exactly q) (he : exactly) :
    p = q := by
  obtain ⟨px, py⟩ := p
  obtain ⟨qx, qy⟩ := q
  rw [Point.mk.injEq]
  exact ⟨h.x.eq he, h.y.eq he⟩

/-- A length depends on how far its legs reach, and not on where they point. -/
theorem hypotenuse_congr {x x' y y' : Float} (hx : x.abs = x'.abs) (hy : y.abs = y'.abs) :
    hypotenuse x y = hypotenuse x' y' := by
  unfold hypotenuse
  rw [hx, hy]

/-- The way between points does not depend on the sign of zero. -/
theorem Point.Agrees.distance_eq {exactly : Prop} {p p' q q' : Point} (hp : p.Agrees exactly p')
    (hq : q.Agrees exactly q') : p.distance q = p'.distance q' :=
  hypotenuse_congr (hq.x.same.sub hp.x.same).abs_eq (hq.y.same.sub hp.y.same).abs_eq

/-- The estimate's machine and the compiler's machine at the same place and in the
same units, with coordinates that count from the origin. -/
structure Machine.Agrees (exactly : Prop) (m n : Machine) : Prop where
  position : m.position.Agrees exactly n.position
  units : n.units = m.units
  absolute : n.absolute = true

/-- In the middle of a line: the place where the line starts, and where the words so
far lead to, by the destination of the one pass and the copied machine of the other. -/
structure Staged (exactly : Prop) (m : Machine) (t : Destination) (start : Point) (n : Machine) :
    Prop where
  start : m.position.Agrees exactly start
  position : t.position.Agrees exactly n.position
  center : t.center.Agrees exactly n.arcCenter
  units : n.units = m.units
  absolute : n.absolute = true

/-! ### Words -/

theorem Staged.scale {exactly : Prop} {m n : Machine} {t : Destination} {start : Point}
    (h : Staged exactly m t start n) : n.scale = m.scale := by
  rw [Machine.scale, Machine.scale, h.units]

/-- A line starts with the destination and the centre at the position. -/
theorem Machine.Agrees.staged {exactly : Prop} {m n : Machine} (h : m.Agrees exactly n) :
    Staged exactly m (Destination.ofMachine m) n.position { n with arcCenter := n.position } :=
  ⟨h.position, h.position, h.position, h.units, h.absolute⟩

/-- A quantity that both passes set leads them to the same place. -/
theorem assign_staged (penUpAngle : Float) {exactly : Prop} {m n : Machine} {t : Destination}
    {start : Point} (h : Staged exactly m t start n) (v : Float) (q : Quantity)
    (hq : q.isRate = false) :
    Staged exactly (Reading.assign m t (v * m.scale) q).1 (Reading.assign m t (v * m.scale) q).2
      start (Effect.assign penUpAngle start n v q) := by
  have hscale := h.scale
  cases q with
  | x =>
    refine { h with position := ⟨?_, h.position.y⟩ }
    dsimp only [Effect.assign, Effect.coordinate, Reading.assign]
    rw [h.absolute, hscale]
    exact .refl _ _
  | y =>
    refine { h with position := ⟨h.position.x, ?_⟩ }
    dsimp only [Effect.assign, Effect.coordinate, Reading.assign]
    rw [h.absolute, hscale]
    exact .refl _ _
  | z => exact { h with }
  | centerX =>
    refine { h with center := ⟨?_, h.center.y⟩ }
    dsimp only [Effect.assign, Reading.assign]
    rw [hscale]
    exact h.start.x.add_right _
  | centerY =>
    refine { h with center := ⟨h.center.x, ?_⟩ }
    dsimp only [Effect.assign, Reading.assign]
    rw [hscale]
    exact h.start.y.add_right _
  | feedRate => cases hq
  | acceleration => cases hq

/-- A rate leaves everything that the compiler looks at. -/
theorem rate_staged {exactly : Prop} {m n : Machine} {t : Destination} {start : Point}
    (h : Staged exactly m t start n) (v : Float) {q : Quantity} (hq : q.isRate = true) :
    Staged exactly (Reading.assign m t v q).1 (Reading.assign m t v q).2 start n := by
  cases q with
  | feedRate =>
    unfold Reading.assign
    dsimp only
    split_ifs <;> exact { h with }
  | acceleration =>
    unfold Reading.assign
    dsimp only
    split_ifs <;> exact { h with }
  | _ => cases hq

/-- Only `G91` asks for relative coordinates. -/
theorem absolute_of_command {w : Word} {on : Bool} (h : w.command = .absolute on)
    (hw : w.isExactly 'G' ['9', '1'] = false) : on = true := by
  obtain ⟨letter, value⟩ := w
  unfold Word.command at h
  split at h
  · next hl =>
    dsimp only at hl
    subst hl
    split at h
    · cases h
    · cases h
    · cases h; rfl
    · next hv =>
      dsimp only at hv
      subst hv
      exact absurd hw (by decide)
    · cases h
  all_goals cases h

/-- **A word that both passes can read keeps them together.**  The compiler can read
every word that the estimate can read. -/
theorem word_staged (penUpAngle : Float) {exactly : Prop} {m n : Machine} {t : Destination}
    {start : Point} (h : Staged exactly m t start n) {w : Word}
    (hw : w.isExactly 'G' ['9', '1'] = false) {m' : Machine} {t' : Destination}
    (hread : Reading.word m t w = .ok (m', t')) :
    ∃ n', Effect.word penUpAngle start n w = .ok n' ∧ Staged exactly m' t' start n' := by
  unfold Reading.word at hread
  unfold Effect.word
  cases hc : w.command with
  | units units =>
    rw [hc] at hread
    cases hread
    exact ⟨_, rfl, { h with units := rfl }⟩
  | absolute on =>
    rw [hc] at hread
    cases hread
    exact ⟨_, rfl, { h with absolute := absolute_of_command hc hw }⟩
  | other =>
    rw [hc] at hread
    cases hread
    exact ⟨n, rfl, h⟩
  | assign q =>
    rw [hc] at hread
    cases hn : w.number with
    | error cause => rw [hn] at hread; cases hread
    | ok v =>
      rw [hn] at hread
      have hassign : Reading.assign m t (v * m.scale) q = (m', t') := Except.ok.inj hread
      cases hrate : q.isRate with
      | true =>
        -- the compiler passes over rates without a look at their numbers
        have hstaged := rate_staged h (v * m.scale) hrate
        rw [hassign] at hstaged
        exact ⟨n, if_pos hrate, hstaged⟩
      | false =>
        have hstaged := assign_staged penUpAngle h v q hrate
        rw [hassign] at hstaged
        have hnot : ¬ q.isRate = true := by
          rw [hrate]
          decide
        exact ⟨_, if_neg hnot, hstaged⟩

/-- The words of a line keep the passes together if the estimate reads them all. -/
theorem words_staged (penUpAngle : Float) {exactly : Prop} {m n : Machine} {t : Destination}
    {start : Point} (h : Staged exactly m t start n) (ws : List Word)
    (hws : ∀ w ∈ ws, w.isExactly 'G' ['9', '1'] = false)
    (hread : (Reading.ofWords m t ws).failure = none) :
    ∃ n', Effect.words penUpAngle start n ws = .ok n' ∧
      Staged exactly (Reading.ofWords m t ws).machine (Reading.ofWords m t ws).destination start n' := by
  induction ws generalizing m t n with
  | nil => exact ⟨n, rfl, h⟩
  | cons w rest ih =>
    obtain ⟨hw, hrest⟩ := List.forall_mem_cons.mp hws
    unfold Reading.ofWords at hread ⊢
    cases hword : Reading.word m t w with
    | error cause => rw [hword] at hread; cases hread
    | ok next =>
      obtain ⟨m', t'⟩ := next
      rw [hword] at hread
      obtain ⟨n', hn', hstaged⟩ := word_staged penUpAngle h hw hword
      rw [Effect.words, hn']
      exact ih hstaged hrest hread

/-- What a word that is read can do: change the units, set a quantity, or nothing. -/
theorem reading_word_cases {m m' : Machine} {t t' : Destination} {w : Word}
    (h : Reading.word m t w = .ok (m', t')) :
    (∃ units, w.command = .units units ∧ m' = { m with units } ∧ t' = t) ∨
    (∃ q v, w.command = .assign q ∧ w.number = .ok v ∧
      Reading.assign m t (v * m.scale) q = (m', t')) ∨
    m' = m ∧ t' = t := by
  unfold Reading.word at h
  cases hc : w.command with
  | units units => rw [hc] at h; cases h; exact .inl ⟨units, rfl, rfl, rfl⟩
  | absolute on => rw [hc] at h; cases h; exact .inr (.inr ⟨rfl, rfl⟩)
  | other => rw [hc] at h; cases h; exact .inr (.inr ⟨rfl, rfl⟩)
  | assign q =>
    rw [hc] at h
    cases hn : w.number with
    | error cause => rw [hn] at h; cases h
    | ok v =>
      rw [hn] at h
      exact .inr (.inl ⟨q, v, rfl, rfl, Except.ok.inj h⟩)

/-- A word leaves the machine where it is. -/
theorem reading_word_position {m m' : Machine} {t t' : Destination} {w : Word}
    (h : Reading.word m t w = .ok (m', t')) : m'.position = m.position := by
  rcases reading_word_cases h with ⟨units, -, rfl, -⟩ | ⟨q, v, -, -, hassign⟩ | ⟨rfl, -⟩
  · rfl
  · cases q with
    | feedRate | acceleration => cases hassign; split_ifs <;> rfl
    | _ => cases hassign; rfl
  · rfl

/-- Words leave the machine where it is; only the destination moves. -/
theorem reading_position (m : Machine) (t : Destination) (ws : List Word) :
    (Reading.ofWords m t ws).machine.position = m.position := by
  induction ws generalizing m t with
  | nil => rfl
  | cons w rest ih =>
    unfold Reading.ofWords
    cases hword : Reading.word m t w with
    | error cause => rfl
    | ok next => exact (ih next.1 next.2).trans (reading_word_position hword)

/-- A word with another letter changes neither units nor position. -/
theorem word_of_letter {m m' : Machine} {t t' : Destination} {w : Word}
    (hw : w.letter ≠ 'G' ∧ w.letter ≠ 'X' ∧ w.letter ≠ 'Y')
    (h : Reading.word m t w = .ok (m', t')) : m'.units = m.units ∧ t'.position = t.position := by
  rcases reading_word_cases h with ⟨units, hc, -, -⟩ | ⟨q, v, hc, -, hassign⟩ | ⟨rfl, rfl⟩
  · exact absurd (Word.letter_of_units hc) hw.1
  · have hletter := Word.letter_of_assign hc
    cases q with
    | x => exact absurd hletter hw.2.1
    | y => exact absurd hletter hw.2.2
    | feedRate => cases hassign; split_ifs <;> exact ⟨rfl, rfl⟩
    | acceleration => cases hassign; split_ifs <;> exact ⟨rfl, rfl⟩
    | _ => cases hassign; exact ⟨rfl, rfl⟩
  · exact ⟨rfl, rfl⟩

/-- Without a word of these letters neither units nor position change. -/
theorem ofWords_of_letters (m : Machine) (t : Destination) (ws : List Word)
    (hws : ∀ w ∈ ws, w.letter ≠ 'G' ∧ w.letter ≠ 'X' ∧ w.letter ≠ 'Y') :
    (Reading.ofWords m t ws).machine.units = m.units ∧
      (Reading.ofWords m t ws).destination.position = t.position := by
  induction ws generalizing m t with
  | nil => exact ⟨rfl, rfl⟩
  | cons w rest ih =>
    obtain ⟨hw, hrest⟩ := List.forall_mem_cons.mp hws
    unfold Reading.ofWords
    cases hword : Reading.word m t w with
    | error cause => exact ⟨rfl, rfl⟩
    | ok next =>
      obtain ⟨m', t'⟩ := next
      obtain ⟨hunits, hposition⟩ := word_of_letter hw hword
      obtain ⟨hunits', hposition'⟩ := ih m' t' hrest
      exact ⟨hunits'.trans hunits, hposition'.trans hposition⟩

/-! ### Lines -/

/-- A line that both passes take for the same one: no word asks for relative
coordinates, and one that is a tool change neither moves nor changes the units. -/
structure Line.IsComparable (line : Text) : Prop where
  absolute : (Line.ofText line).hasWord 'G' ['9', '1'] = false
  toolChange : ToolChange.idText? (Text.trimStart line) ≠ none →
    ∀ w ∈ Line.tokens line, w.letter ≠ 'G' ∧ w.letter ≠ 'X' ∧ w.letter ≠ 'Y'

instance (line : Text) : Decidable (Line.IsComparable line) :=
  decidable_of_iff
    ((Line.ofText line).hasWord 'G' ['9', '1'] = false ∧
      (ToolChange.idText? (Text.trimStart line) ≠ none →
        ∀ w ∈ Line.tokens line, w.letter ≠ 'G' ∧ w.letter ≠ 'X' ∧ w.letter ≠ 'Y'))
    ⟨fun h => ⟨h.1, h.2⟩, fun h => ⟨h.absolute, h.toolChange⟩⟩

/-- What the compiler does with words that the estimate reads to their end: nothing
without words, and else a move to the destination. -/
theorem ofWords_agrees (penUpAngle : Float) {exactly : Prop} {m n : Machine}
    (h : m.Agrees exactly n) {line : Text} (hline : Line.IsComparable line)
    (hread : (Reading.ofLine m line).failure = none) :
    (Line.tokens line = [] ∧ Effect.ofWords penUpAngle n (Line.tokens line) = .blank) ∨
    ∃ next, Effect.ofWords penUpAngle n (Line.tokens line) = .moved (Line.ofText line).motion next ∧
      Staged exactly (Reading.ofLine m line).machine (Reading.ofLine m line).destination n.position
        next := by
  have hws : ∀ w ∈ Line.tokens line, w.isExactly 'G' ['9', '1'] = false := by
    intro w hw
    exact Bool.eq_false_iff.mpr (List.any_eq_false.mp hline.absolute w hw)
  obtain ⟨next, hwords, hstaged⟩ := words_staged penUpAngle h.staged (Line.tokens line) hws hread
  unfold Effect.ofWords
  cases hempty : (Line.tokens line).isEmpty with
  | true => exact .inl ⟨List.isEmpty_iff.mp hempty, rfl⟩
  | false =>
    rw [hwords]
    exact .inr ⟨next, rfl, hstaged⟩

/-- A tool change leaves position and units, whether or not its number can be used. -/
theorem next_of_idText? {s : Settings} {n : Machine} {line id : Text}
    (h : ToolChange.idText? (Text.trimStart line) = some id) :
    (n.next s line).position = n.position ∧ (n.next s line).units = n.units ∧
      (n.next s line).absolute = n.absolute := by
  unfold Machine.next Effect.ofLine
  dsimp only
  rw [h]
  dsimp only
  cases ToolChange.id? id <;> exact ⟨rfl, rfl, rfl⟩

theorem not_pos_zero : ¬ (0 : Float) < 0 := by decide

@[simp] theorem Tally.machine_lift (zRate z : Float) (t : Tally) :
    (t.lift zRate z).machine = t.machine := by
  unfold Tally.lift
  split_ifs <;> rfl

@[simp] theorem Tally.length_lift (zRate z : Float) (t : Tally) :
    (t.lift zRate z).length = t.length := by
  unfold Tally.lift
  split_ifs <;> rfl

@[simp] theorem Tally.segments_lift (zRate z : Float) (t : Tally) :
    (t.lift zRate z).segments = t.segments := by
  unfold Tally.lift
  split_ifs <;> rfl

@[simp] theorem Tally.machine_travel (length : Float) (t : Tally) :
    (t.travel length).machine = t.machine := by
  unfold Tally.travel
  split_ifs <;> rfl

section

variable [Trigonometry]

/-- Behind a line the estimate's machine is at the destination of the line. -/
theorem Tally.machine_line (s : Settings) (t : Tally) (line : Text) :
    (t.line s line).machine =
      { (Reading.ofLine t.machine line).machine with
        position := (Reading.ofLine t.machine line).destination.position
        z := (Reading.ofLine t.machine line).destination.z
        arcCenter := (Reading.ofLine t.machine line).destination.center } := by
  unfold Tally.line Tally.move
  simp only [machine_travel, machine_lift]

@[simp] theorem Tally.lines_cons (s : Settings) (t : Tally) (line : Text) (rest : List Text) :
    t.lines s (line :: rest) = (t.line s line).lines s rest := rfl

/-- What a line adds to the totals, by the length of its move. -/
theorem Tally.counts_line (s : Settings) (t : Tally) (line : Text) :
    let length := (Reading.ofLine t.machine line).moveLength (Line.ofText line).motion
    (t.line s line).length = (if 0 < length then [length] else []).foldl (· + ·) t.length ∧
      (t.line s line).segments = t.segments + (if 0 < length then [length] else []).length := by
  dsimp only
  unfold Tally.line Tally.move Tally.travel
  dsimp only
  split_ifs <;> simp only [length_lift, segments_lift, List.foldl_cons, List.foldl_nil,
    List.length_singleton, List.length_nil, Nat.add_zero, and_self]

/-- **A line keeps the two passes together.** -/
theorem line_agrees (s : Settings) {exactly : Prop} {t : Tally} {n : Machine}
    (h : t.machine.Agrees exactly n) {line : Text} (hline : Line.IsComparable line)
    (hread : (Reading.ofLine t.machine line).failure = none) :
    (t.line s line).machine.Agrees exactly (n.next s line) := by
  rw [Tally.machine_line]
  cases hid : ToolChange.idText? (Text.trimStart line) with
  | some id =>
    -- the estimate reads the words of a tool change, the compiler does not
    obtain ⟨hunits, hposition⟩ := ofWords_of_letters t.machine (Destination.ofMachine t.machine) _
      (hline.toolChange (by rw [hid]; exact Option.some_ne_none id))
    obtain ⟨hp, hu, ha⟩ := next_of_idText? (s := s) (n := n) hid
    refine ⟨?_, hu.trans (h.units.trans hunits.symm), ha.trans h.absolute⟩
    rw [hp]
    exact hposition ▸ h.position
  | none =>
    unfold Machine.next
    rw [ofLine_of_idText? hid]
    rcases ofWords_agrees s.penUpAngle h hline hread with ⟨hempty, heffect⟩ | ⟨next, heffect, hstaged⟩
    · -- nothing is read from a line without words
      rw [heffect, Reading.ofLine, hempty]
      exact ⟨h.position, h.units, h.absolute⟩
    · rw [heffect]
      exact ⟨hstaged.position, hstaged.units, hstaged.absolute⟩

end

end PenPlotter
