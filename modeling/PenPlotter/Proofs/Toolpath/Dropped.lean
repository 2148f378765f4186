import Mathlib
import PenPlotter.Proofs.Text.Integers
import PenPlotter.Proofs.Toolpath.Failure

/-!
# Lines that are dropped

The words of a line are read on a copy of the machine, which is put in its place only
when all of them could be read.  So a line that cannot be read leaves the machine as it
was, whatever its words had changed by then, and a tool change without a usable number
does so too.  In a program such a line is as good as an empty one.

## Main definitions

* `Line.IsDropped` — a line that cannot be read, said without a machine to read it on.

## Main results

* `compile_exchange` — lines that show the same and leave the same can be exchanged.
* `isDropped_iff` — **the lines that a pass drops, on any machine.**
* `compile_dropped` — **a line that is dropped leaves no trace.**
-/

namespace PenPlotter

/-! ### Exchanging lines -/

section

variable [Trigonometry]

/-- The toolpath of a program goes on from the machine behind its first lines. -/
theorem compile_append (s : Settings) (pre suf : List Text) :
    compile s (pre ++ suf) = compile s pre ++
      (trace s pre.length ((Machine.zeroed s).run s pre) suf).flatMap (Step.nodes s) := by
  unfold compile programTrace
  rw [trace_append, List.flatMap_append, Nat.zero_add]

/-- The toolpath of a program with a line in the middle. -/
theorem compile_append_cons (s : Settings) (pre : List Text) (line : Text) (suf : List Text) :
    let m := (Machine.zeroed s).run s pre
    compile s (pre ++ line :: suf) = compile s pre ++
      ((Step.ofLine s pre.length m line).nodes s ++
        (trace s (pre.length + 1) (m.next s line) suf).flatMap (Step.nodes s)) := by
  dsimp only
  rw [compile_append, trace_cons, List.flatMap_cons]

/-- **Lines that show the same nodes and leave the same machine can be exchanged**, with
any lines in front of them and behind them. -/
theorem compile_exchange (s : Settings) (pre suf : List Text) {line other : Text}
    (hnodes : ∀ index m, (Step.ofLine s index m line).nodes s = (Step.ofLine s index m other).nodes s)
    (hnext : ∀ m : Machine, m.next s line = m.next s other) :
    compile s (pre ++ line :: suf) = compile s (pre ++ other :: suf) := by
  rw [compile_append_cons, compile_append_cons, hnodes, hnext]

end

/-! ### Tool changes by their text -/

namespace ToolChange

/-- A tool change starts with its mark, and its number ends at the comment. -/
theorem idText?_eq_some_iff (t id : Text) :
    idText? t = some id ↔ ∃ rest, t = mark ++ rest ∧ Text.trim (Line.code rest) = id := by
  unfold idText?
  rw [Option.map_eq_some_iff]
  refine exists_congr fun rest => and_congr_left fun _ => ?_
  constructor
  · exact after?_eq_some
  · rintro rfl
    simp [mark, Text.after?]

/-- The number of a tool change is an integer of 64 bits. -/
theorem id?_eq_some_iff (id : Text) (n : ℤ) :
    id? id = some n ↔ Text.DenotesInt id n ∧ -2 ^ 63 ≤ n ∧ n < 2 ^ 63 :=
  Text.intBetween?_eq_some_iff _ _ id n

end ToolChange

/-! ### Lines that are dropped -/

/-- A line that cannot be read. -/
inductive Line.IsDropped (line : Text) : Prop
  /-- A tool change without an integer of 64 bits in front of its comment. -/
  | toolChange (rest : Text) (hmark : Text.trimStart line = ToolChange.mark ++ rest)
      (hid : ∀ n, Text.DenotesInt (Text.trim (Line.code rest)) n → ¬ (-2 ^ 63 ≤ n ∧ n < 2 ^ 63))
  /-- A line that is no tool change, with a word for a place that holds no number. -/
  | word (hmark : ∀ rest, Text.trimStart line ≠ ToolChange.mark ++ rest) (w : Word)
      (hw : w ∈ Line.tokens line) (hfails : w.Fails placeLetters)

theorem Effect.ofLine_eq_badToolId_iff {penUpAngle : Float} {m : Machine} {line : Text} :
    Effect.ofLine penUpAngle m line = .badToolId ↔
      ∃ id, ToolChange.idText? (Text.trimStart line) = some id ∧ ToolChange.id? id = none := by
  unfold ofLine
  dsimp only
  cases ToolChange.idText? (Text.trimStart line) with
  | none =>
    -- words have other effects
    unfold ofWords
    dsimp only
    split_ifs
    · simp
    · split <;> simp
  | some id => cases hid : ToolChange.id? id <;> simp [hid]

/-- A line is given up for the first word in it that fails, unless it is a tool change. -/
theorem Effect.ofLine_eq_unreadable_iff {penUpAngle : Float} {m : Machine} {line : Text}
    {cause : NumeralError} : Effect.ofLine penUpAngle m line = .unreadable cause ↔
      ToolChange.idText? (Text.trimStart line) = none ∧
        Line.failure? placeLetters line = some cause := by
  unfold ofLine Line.failure?
  dsimp only
  rw [Line.tokens_trimStart]
  cases ToolChange.idText? (Text.trimStart line) with
  | some id => cases hid : ToolChange.id? id <;> simp [hid]
  | none =>
    rw [← @words_eq_error_iff penUpAngle m.position { m with arcCenter := m.position }]
    unfold ofWords
    dsimp only
    split_ifs with hempty
    · rw [List.isEmpty_iff.mp hempty]
      simp
    · cases Effect.words penUpAngle m.position { m with arcCenter := m.position }
        (Line.tokens line) <;> simp

/-- **The lines that a pass drops are those that cannot be read**, on any machine. -/
theorem isDropped_iff (penUpAngle : Float) (m : Machine) (line : Text) :
    Line.IsDropped line ↔ Effect.ofLine penUpAngle m line = .badToolId ∨
      ∃ cause, Effect.ofLine penUpAngle m line = .unreadable cause := by
  rw [Effect.ofLine_eq_badToolId_iff]
  simp only [Effect.ofLine_eq_unreadable_iff, exists_and_left, Line.exists_failure?_iff,
    Option.eq_none_iff_forall_ne_some, ne_eq, ToolChange.idText?_eq_some_iff,
    ToolChange.id?_eq_some_iff]
  constructor
  · rintro (⟨rest, hmark, hid⟩ | ⟨hmark, w, hw, hfails⟩)
    · exact .inl ⟨_, ⟨rest, hmark, rfl⟩, fun n hn => hid n hn.1 hn.2⟩
    · exact .inr ⟨fun id ⟨rest, hrest, _⟩ => hmark rest hrest, w, hw, hfails⟩
  · rintro (⟨_, ⟨rest, hmark, rfl⟩, hid⟩ | ⟨hmark, w, hw, hfails⟩)
    · exact .toolChange rest hmark fun n hn hbounds => hid n ⟨hn, hbounds⟩
    · exact .word (fun rest hrest => hmark _ ⟨rest, hrest, rfl⟩) w hw hfails

/-- An empty line leaves the machine as it is. -/
theorem Machine.next_nil (s : Settings) (m : Machine) : m.next s [] = m := rfl

section

variable [Trigonometry]

theorem Step.nodes_nil (s : Settings) (index : ℕ) (m : Machine) :
    (Step.ofLine s index m []).nodes s = [] := rfl

/-- A line that is dropped shows no node and leaves the machine as it is. -/
theorem Step.ofLine_of_isDropped {line : Text} (h : Line.IsDropped line) (s : Settings)
    (index : ℕ) (m : Machine) :
    (Step.ofLine s index m line).nodes s = [] ∧ m.next s line = m := by
  unfold Step.nodes Step.ofLine Machine.next
  dsimp only
  rcases (isDropped_iff s.penUpAngle m line).mp h with heffect | ⟨cause, heffect⟩ <;> rw [heffect] <;>
    exact ⟨rfl, rfl⟩

/-- **A line that is dropped leaves no trace.**  The toolpath of a program is the same with
an empty line in its place, and on every machine the line shows no node and changes
neither place nor units, modes, pen or colours. -/
theorem compile_dropped (s : Settings) (pre suf : List Text) {line : Text}
    (h : Line.IsDropped line) :
    compile s (pre ++ line :: suf) = compile s (pre ++ [] :: suf) ∧
    ∀ index m, (Step.ofLine s index m line).nodes s = [] ∧ m.next s line = m := by
  have hstep := Step.ofLine_of_isDropped h s
  refine ⟨compile_exchange s pre suf ?_ ?_, hstep⟩
  · intro index m
    rw [(hstep index m).1, Step.nodes_nil]
  · intro m
    rw [(hstep 0 m).2, Machine.next_nil]

end

/-- A line that changes units, mode, place and pen before a word that holds no number. -/
def Line.droppedSample : Text :=
  ['G', '2', '0', ' ', 'G', '9', '1', ' ', 'X', '3', ' ', 'Z', '9', ' ', 'Y', 'o', ' ', 'G', '2', '1']

theorem compile_dropped_sample :
    Line.IsDropped Line.droppedSample ∧
    compile default ([['G', '1', ' ', 'Z', '5', '0']] ++ Line.droppedSample :: [['G', '1', ' ', 'X', '5']]) =
      compile default ([['G', '1', ' ', 'Z', '5', '0']] ++ [] :: [['G', '1', ' ', 'X', '5']]) := by
  have h : Line.IsDropped Line.droppedSample := by
    refine .word ?_ ⟨'Y', ['o']⟩ (by decide) ⟨by decide, ?_⟩
    · intro rest hmark
      cases hmark
    · intro v hv
      cases hv
  exact ⟨h, (compile_dropped default _ _ h).1⟩

end PenPlotter
