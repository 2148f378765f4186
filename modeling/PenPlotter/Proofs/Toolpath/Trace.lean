import Mathlib
import PenPlotter.Proofs.Text.Pieces
import PenPlotter.Toolpath.Compile

/-!
# The steps of a pass

The machine that a pass carries is a fold over the lines, and the step of a line
starts from the machine behind the lines before it.  A line with an arc that is read and
not hidden is drawn along the arc between the places before and behind it.

## Main definitions

* `Machine.run` — the machine behind some lines.
* `Quantity.letter` — the letter of the words that set a quantity.
* `Step.Draws` — a step draws an arc.

## Main results

* `trace_map_content` — a pass takes one step for each line.
* `programTrace_getElem?` — **the step of a line, by the lines before it.**
* `word_cases`, `next_cases` — what a word and a line can do to a machine.
* `ofLine_of_motion` — a line with a motion moves along it, or cannot be read.
* `Step.draws_ofLine` — **which arc a line draws.**
* `head?_tokens_of_idText?` — the first word of a tool change.
-/

namespace PenPlotter

/-! ### The machine behind some lines -/

/-- The machine behind a line. -/
def Machine.next (s : Settings) (m : Machine) (line : Text) : Machine :=
  (Effect.ofLine s.penUpAngle m line).machine m

/-- The machine behind some lines. -/
def Machine.run (s : Settings) (m : Machine) (lines : List Text) : Machine :=
  lines.foldl (Machine.next s) m

@[simp] theorem Machine.run_nil (s : Settings) (m : Machine) : m.run s [] = m := rfl

@[simp] theorem Machine.run_cons (s : Settings) (m : Machine) (line : Text) (rest : List Text) :
    m.run s (line :: rest) = (m.next s line).run s rest := rfl

theorem Machine.run_append (s : Settings) (m : Machine) (lines rest : List Text) :
    m.run s (lines ++ rest) = (m.run s lines).run s rest := List.foldl_append

/-- The step of a line with an index, from a machine. -/
def Step.ofLine (s : Settings) (index : ℕ) (m : Machine) (line : Text) : Step :=
  ⟨index, line, m, Effect.ofLine s.penUpAngle m line⟩

@[simp] theorem Step.before_ofLine (s : Settings) (index : ℕ) (m : Machine) (line : Text) :
    (Step.ofLine s index m line).before = m := rfl

@[simp] theorem Step.after_ofLine (s : Settings) (index : ℕ) (m : Machine) (line : Text) :
    (Step.ofLine s index m line).after = m.next s line := rfl

theorem trace_cons (s : Settings) (index : ℕ) (m : Machine) (line : Text) (rest : List Text) :
    trace s index m (line :: rest) =
      Step.ofLine s index m line :: trace s (index + 1) (m.next s line) rest := rfl

/-- A pass takes one step for each line. -/
theorem trace_map_content (s : Settings) (index : ℕ) (m : Machine) (lines : List Text) :
    (trace s index m lines).map Step.content = lines := by
  induction lines generalizing index m with
  | nil => rfl
  | cons line rest ih =>
    rw [trace_cons, List.map_cons, ih]
    rfl

theorem trace_length (s : Settings) (index : ℕ) (m : Machine) (lines : List Text) :
    (trace s index m lines).length = lines.length := by
  rw [← List.length_map Step.content, trace_map_content]

theorem trace_getElem? (s : Settings) (index : ℕ) (m : Machine) (lines : List Text) (i : ℕ) :
    (trace s index m lines)[i]? =
      lines[i]?.map (Step.ofLine s (index + i) (m.run s (lines.take i))) := by
  induction lines generalizing index m i with
  | nil => rfl
  | cons line rest ih =>
    rw [trace_cons]
    cases i with
    | zero => rfl
    | succ i =>
      rw [List.getElem?_cons_succ, List.getElem?_cons_succ, ih, List.take_succ_cons,
        Machine.run_cons, Nat.add_right_comm, Nat.add_assoc]

@[simp] theorem programTrace_length (s : Settings) (p : List Text) :
    (programTrace s p).length = p.length := trace_length s 0 _ p

/-- **The step of a line starts from the machine behind the lines before it.** -/
theorem programTrace_getElem? (s : Settings) (p : List Text) (i : ℕ) :
    (programTrace s p)[i]? =
      p[i]?.map (Step.ofLine s i ((Machine.zeroed s).run s (p.take i))) := by
  rw [programTrace, trace_getElem?, Nat.zero_add]

theorem trace_append (s : Settings) (index : ℕ) (m : Machine) (lines rest : List Text) :
    trace s index m (lines ++ rest) =
      trace s index m lines ++ trace s (index + lines.length) (m.run s lines) rest := by
  induction lines generalizing index m with
  | nil => rfl
  | cons line lines ih =>
    rw [List.cons_append, trace_cons, trace_cons, ih, List.cons_append, Machine.run_cons,
      List.length_cons, Nat.add_right_comm, Nat.add_assoc]

/-- The first steps of a pass are the pass over the first lines. -/
theorem programTrace_take (s : Settings) (p : List Text) (i : ℕ) :
    (programTrace s p).take i = programTrace s (p.take i) := by
  have happend := trace_append s 0 (Machine.zeroed s) (p.take i) (p.drop i)
  rw [List.take_append_drop] at happend
  rcases Nat.le_total i p.length with hi | hi
  · have hlength : (trace s 0 (Machine.zeroed s) (p.take i)).length = i := by
      rw [trace_length, List.length_take, Nat.min_eq_left hi]
    rw [programTrace, happend, List.take_append_of_le_length hlength.ge, List.take_of_length_le hlength.le,
      programTrace]
  · rw [List.take_of_length_le hi, List.take_of_length_le (by rw [programTrace_length]; exact hi)]

/-- The nodes of one line more. -/
theorem compile_take_succ [Trigonometry] (s : Settings) {p : List Text} {i : ℕ} {line : Text}
    (h : p[i]? = some line) : compile s (p.take (i + 1)) = compile s (p.take i) ++
      (Step.ofLine s i ((Machine.zeroed s).run s (p.take i)) line).nodes s := by
  have hi : (p.take i).length = i := by
    rw [List.length_take]
    exact Nat.min_eq_left (List.getElem?_eq_some_iff.mp h).1.le
  unfold compile programTrace
  rw [List.take_add_one, h, Option.toList_some, trace_append, List.flatMap_append, hi, Nat.zero_add]
  simp [trace_cons]

theorem Machine.run_take_succ (s : Settings) (m : Machine) {p : List Text} {i : ℕ} {line : Text}
    (h : p[i]? = some line) : m.run s (p.take (i + 1)) = (m.run s (p.take i)).next s line := by
  rw [List.take_add_one, h, Option.toList_some, Machine.run_append]
  rfl

/-! ### Commands -/

/-- The letter of the words that set a quantity. -/
def Quantity.letter : Quantity → Char
  | x => 'X'
  | y => 'Y'
  | z => 'Z'
  | centerX => 'I'
  | centerY => 'J'
  | feedRate => 'F'
  | acceleration => 'A'

theorem Word.letter_of_assign {w : Word} {q : Quantity} (h : w.command = .assign q) :
    w.letter = q.letter := by
  unfold Word.command at h
  split at h
  · split at h <;> cases h
  all_goals first | (cases h; assumption) | cases h

theorem Word.letter_of_units {w : Word} {units : Units} (h : w.command = .units units) :
    w.letter = 'G' := by
  unfold Word.command at h
  split at h
  · assumption
  all_goals cases h

/-! ### Numbers -/

theorem isFinite_scale (units : Units) : units.scale.isFinite = true := by
  cases units <;> decide

/-- A word holds a number if its value is not empty and is read as a finite one. -/
theorem Word.number_eq_ok_iff (w : Word) (x : Float) :
    w.number = .ok x ↔ w.value ≠ [] ∧ Numeral.read? w.value = some x ∧ x.isFinite = true := by
  unfold Word.number
  cases hv : w.value with
  | nil => simp
  | cons c v =>
    cases hr : Numeral.read? (c :: v) with
    | none => simp
    | some y =>
      simp only [List.isEmpty_cons, Bool.false_eq_true, if_false, ne_eq, reduceCtorEq,
        not_false_eq_true, Option.some.injEq, true_and]
      split_ifs with hy
      · rw [Except.ok.injEq]
        constructor
        · rintro rfl
          exact ⟨rfl, hy⟩
        · rintro ⟨h, -⟩
          exact h
      · simp only [false_iff, not_and]
        rintro rfl
        exact hy

/-- The number of a word is finite. -/
theorem isFinite_of_number {w : Word} {v : Float} (h : w.number = .ok v) : v.isFinite = true :=
  ((Word.number_eq_ok_iff w v).mp h).2.2

/-! ### What a line can do -/

/-- What a word that is read can do to a machine. -/
theorem word_cases {penUpAngle : Float} {start : Point} {m next : Machine} {w : Word}
    (h : Effect.word penUpAngle start m w = .ok next) :
    (∃ units, w.command = .units units ∧ next = { m with units }) ∨
    (∃ on, w.command = .absolute on ∧ next = { m with absolute := on }) ∨
    (∃ q v, w.command = .assign q ∧ w.number = .ok v ∧
      next = Effect.assign penUpAngle start m v q) ∨
    next = m := by
  unfold Effect.word at h
  cases hc : w.command with
  | units units => rw [hc] at h; cases h; exact .inl ⟨units, rfl, rfl⟩
  | absolute on => rw [hc] at h; cases h; exact .inr (.inl ⟨on, rfl, rfl⟩)
  | other => rw [hc] at h; cases h; exact .inr (.inr (.inr rfl))
  | assign q =>
    rw [hc] at h
    dsimp only at h
    split_ifs at h with hrate
    · cases h
      exact .inr (.inr (.inr rfl))
    · cases hv : w.number with
      | error cause => rw [hv] at h; cases h
      | ok v =>
        rw [hv] at h
        cases h
        exact .inr (.inr (.inl ⟨q, v, rfl, rfl, rfl⟩))

/-- A line leaves the machine as it is, or the pen gets another colour, or its words are
read one by one. -/
theorem next_cases (s : Settings) (m : Machine) (line : Text) :
    m.next s line = m ∨ (∃ color, m.next s line = { m with pen.downColor := color }) ∨
    ∃ next, Effect.words s.penUpAngle m.position { m with arcCenter := m.position }
      (Line.tokens line) = .ok next ∧ m.next s line = next := by
  unfold Machine.next Effect.ofLine
  dsimp only
  rw [Line.tokens_trimStart]
  split
  · split
    · exact .inr (.inl ⟨_, rfl⟩)
    · exact .inl rfl
  · unfold Effect.ofWords
    split_ifs
    · exact .inl rfl
    · cases hwords : Effect.words s.penUpAngle m.position { m with arcCenter := m.position }
        (Line.tokens line) with
      | error cause => exact .inl rfl
      | ok next => exact .inr (.inr ⟨next, rfl, rfl⟩)

/-! ### Tool changes -/

theorem after?_eq_some {start t rest : Text} (h : Text.after? start t = some rest) :
    t = start ++ rest := by
  induction start generalizing t with
  | nil =>
    cases h
    rfl
  | cons c start ih =>
    cases t with
    | nil => cases h
    | cons d t =>
      unfold Text.after? at h
      split_ifs at h with hc
      rw [ih h, hc, List.cons_append]

/-- The first word of a tool change is `M06`. -/
theorem head?_tokens_of_idText? {t id : Text} (h : ToolChange.idText? (Text.trimStart t) = some id) :
    (Line.tokens t).head? = some ⟨'M', ['0', '6']⟩ := by
  obtain ⟨rest, hrest, -⟩ := Option.map_eq_some_iff.mp h
  -- the start of a tool change holds no semicolon, and the blank in it ends its first piece
  have hcode : Line.code (Text.trimStart t) = ['M', '0', '6'] ++ ' ' :: Line.code ('T' :: rest) := by
    rw [after?_eq_some hrest]
    rfl
  have hpiece : Text.IsPiece ['M', '0', '6'] := .cons rfl (by simp; exact ⟨rfl, rfl⟩)
  rw [← Line.tokens_trimStart, Line.tokens, hcode, Text.pieces_append_blank hpiece isBlank_space]
  rfl

/-- A line with another first word is no tool change. -/
theorem idText?_eq_none_of_head? {t : Text} (h : (Line.tokens t).head? ≠ some ⟨'M', ['0', '6']⟩) :
    ToolChange.idText? (Text.trimStart t) = none := by
  rw [Option.eq_none_iff_forall_ne_some]
  intro id hid
  exact h (head?_tokens_of_idText? hid)

/-- The effect of a line that is no tool change. -/
theorem ofLine_of_idText? {penUpAngle : Float} {n : Machine} {line : Text}
    (h : ToolChange.idText? (Text.trimStart line) = none) :
    Effect.ofLine penUpAngle n line = Effect.ofWords penUpAngle n (Line.tokens line) := by
  unfold Effect.ofLine
  dsimp only
  rw [h, Line.tokens_trimStart]

/-- The motion along which a line moves the machine is that of its first word. -/
theorem motion_of_ofLine {penUpAngle : Float} {m next : Machine} {line : Text}
    {motion : Option Motion} (h : Effect.ofLine penUpAngle m line = .moved motion next) :
    (Line.ofText line).motion = motion := by
  unfold Effect.ofLine at h
  dsimp only at h
  rw [Line.tokens_trimStart] at h
  split at h
  · split at h <;> cases h
  · unfold Effect.ofWords at h
    split_ifs at h
    split at h
    · cases h
      rfl
    · cases h

/-- A line with a motion is no tool change. -/
theorem idText?_eq_none_of_motion {line : Text} {motion : Motion}
    (h : (Line.ofText line).motion = some motion) :
    ToolChange.idText? (Text.trimStart line) = none := by
  apply idText?_eq_none_of_head?
  intro hhead
  rw [Line.motion, Line.words_ofText, hhead] at h
  cases h

/-- A line with a motion moves the machine along it, or cannot be read. -/
theorem ofLine_of_motion (penUpAngle : Float) (m : Machine) {line : Text} {motion : Motion}
    (h : (Line.ofText line).motion = some motion) :
    (∃ next, Effect.ofLine penUpAngle m line = .moved (some motion) next) ∨
      ∃ cause, Effect.ofLine penUpAngle m line = .unreadable cause := by
  rw [ofLine_of_idText? (idText?_eq_none_of_motion h), Effect.ofWords]
  rw [Line.motion, Line.words_ofText] at h
  cases hwords : Line.tokens line with
  | nil => rw [hwords] at h; cases h
  | cons w rest =>
    rw [hwords] at h
    rw [h, List.isEmpty_cons, if_neg Bool.false_ne_true]
    cases Effect.words penUpAngle m.position { m with arcCenter := m.position } (w :: rest) with
    | ok next => exact .inl ⟨next, rfl⟩
    | error cause => exact .inr ⟨cause, rfl⟩

/-! ### Arcs -/

section

variable [Trigonometry]

/-- A step draws an arc.  The arc leads from the place before the line to the place
behind it, around the centre that the line sets, in the winding that it selects, and the
nodes of the step are strokes along it. -/
structure Step.Draws (s : Settings) (step : Step) (r : ArcRequest) : Prop where
  winding : (Line.ofText step.content).motion = some (.arc r.winding)
  start : r.start = step.before.position
  stop : r.stop = step.after.position
  center : r.center = step.after.arcCenter
  nodes : step.nodes s =
    let arc := Arc.between r.start r.stop r.center r.winding
    (polyline step.after.pen.strokeColor step.line r.start
      (arcPoints arc (arcStrokes arc.length) ++ [r.stop])).map Node.stroke

/-- An arc that is drawn has strokes. -/
theorem Step.Draws.nodes_ne_nil {s : Settings} {step : Step} {r : ArcRequest}
    (h : step.Draws s r) : step.nodes s ≠ [] := by
  rw [h.nodes]
  dsimp only
  generalize arcPoints (Arc.between r.start r.stop r.center r.winding)
    (arcStrokes (Arc.between r.start r.stop r.center r.winding).length) = points
  cases points <;> simp

/-- A hidden move has no nodes. -/
theorem Step.nodes_of_isHidden {s : Settings} (index : ℕ) {m next : Machine} {line : Text}
    {motion : Motion} (h : Effect.ofLine s.penUpAngle m line = .moved (some motion) next)
    (hhidden : Step.isHidden s next = true) : (Step.ofLine s index m line).nodes s = [] := by
  unfold Step.nodes Step.ofLine
  rw [h]
  exact if_pos hhidden

/-- A move that is not hidden has strokes along its route. -/
theorem Step.nodes_of_not_isHidden {s : Settings} (index : ℕ) {m next : Machine} {line : Text}
    {motion : Motion} (h : Effect.ofLine s.penUpAngle m line = .moved (some motion) next)
    (hshown : ¬ Step.isHidden s next = true) : (Step.ofLine s index m line).nodes s =
      (polyline next.pen.strokeColor index m.position (route m.position next motion)).map
        Node.stroke := by
  unfold Step.nodes Step.ofLine
  rw [h]
  exact if_neg hshown

/-- **A line that moves the machine along an arc draws that arc**, unless it is hidden. -/
theorem Step.draws_ofLine {s : Settings} (index : ℕ) {m next : Machine} {line : Text}
    {winding : Winding} (h : Effect.ofLine s.penUpAngle m line = .moved (some (.arc winding)) next)
    (hshown : ¬ Step.isHidden s next = true) :
    (Step.ofLine s index m line).Draws s (arcRequest m.position next winding) := by
  -- what the arc is made from is taken from the machine that becomes the one behind the line
  have hafter : (Step.ofLine s index m line).after = next := by
    rw [Step.after_ofLine, Machine.next, h, Effect.machine_moved]
  refine ⟨motion_of_ofLine h, rfl, ?_, ?_, ?_⟩
  · rw [hafter]
    rfl
  · rw [hafter]
    rfl
  · rw [hafter, Step.nodes_of_not_isHidden index h hshown]
    rfl

end

end PenPlotter
