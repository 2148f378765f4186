import Mathlib
import PenPlotter.Proofs.Binary64.SameNumber
import PenPlotter.Proofs.Toolpath.Blocks

/-!
# The colours of strokes

The pen keeps the colour of its strokes ready.  It is chosen anew when the height of
the pen is set, and only then: a change of the tool while the pen is on the paper
does not show before the pen is moved again.

## Main definitions

* `lastTool` — the colour of the last tool among some nodes.
* `Pen.IsCurrent` — the stroke colour is the one that the height asks for.
* `Machine.MovesPen`, `LastPenMove` — a line sets the height of the pen, and is the
  last one to do so.
* `PenRecord` — what the pen behind some lines has to do with those lines.

## Main results

* `next_pen` — what one line does to the pen, and the tools among its nodes.
* `run_penRecord`, `run_isCurrent` — the pen behind some lines.
* `stroke_color` — **the colour of every stroke.**
* `stroke_color_fails` — it is not always that of the last tool.
-/

namespace PenPlotter

/-! ### Tools among nodes -/

/-- The colour of the new tool, if the node is a change of the tool. -/
def Node.tool? : Node → Option Color
  | stroke _ => none
  | toolChange color _ => some color

@[simp] theorem Node.tool?_stroke (t : Stroke) : (Node.stroke t).tool? = none := rfl

@[simp] theorem Node.tool?_toolChange (color : Color) (line : ℕ) :
    (Node.toolChange color line).tool? = some color := rfl

/-- The colour of the last tool among some nodes, when the one before them is known. -/
def lastTool (before : Color) (nodes : List Node) : Color :=
  nodes.foldl (fun color n => n.tool?.getD color) before

@[simp] theorem lastTool_nil (before : Color) : lastTool before [] = before := rfl

@[simp] theorem lastTool_append (before : Color) (nodes rest : List Node) :
    lastTool before (nodes ++ rest) = lastTool (lastTool before nodes) rest := List.foldl_append

@[simp] theorem lastTool_toolChange (before color : Color) (line : ℕ) :
    lastTool before [.toolChange color line] = color := rfl

/-- Strokes do not change the tool. -/
@[simp] theorem lastTool_strokes (before : Color) (ts : List Stroke) :
    lastTool before (ts.map Node.stroke) = before := by
  induction ts with
  | nil => rfl
  | cons t ts ih => exact ih

/-! ### The pen behind the words of a line -/

/-- The colour of the strokes is the one that the height of the pen asks for. -/
def Pen.IsCurrent (p : Pen) : Prop := p.strokeColor = if p.lifted then p.upColor else p.downColor

theorem Pen.isCurrent_at (p : Pen) (penUpAngle z : Float) : (p.at penUpAngle z).IsCurrent := rfl

@[simp] theorem Pen.at_at (p : Pen) (penUpAngle z z' : Float) :
    (p.at penUpAngle z).at penUpAngle z' = p.at penUpAngle z' := rfl

/-- Some word sets the height of the pen. -/
def Line.setsHeight (ws : List Word) : Bool := ws.any fun w => w.command = .assign .z

theorem Line.setsHeight_cons (w : Word) (rest : List Word) :
    Line.setsHeight (w :: rest) = (decide (w.command = .assign .z) || Line.setsHeight rest) := rfl

/-- A word that sets the height moves the pen there; every other word leaves it. -/
theorem word_pen {penUpAngle : Float} {start : Point} {m next : Machine} {w : Word}
    (h : Effect.word penUpAngle start m w = .ok next) :
    if w.command = .assign .z then next.pen = m.pen.at penUpAngle next.z
    else next.pen = m.pen ∧ next.z = m.z := by
  unfold Effect.word at h
  cases hc : w.command with
  | units units =>
    rw [hc] at h
    cases h
    simp
  | absolute on =>
    rw [hc] at h
    cases h
    simp
  | other =>
    rw [hc] at h
    cases h
    simp
  | assign q =>
    rw [hc] at h
    dsimp only at h
    split_ifs at h with hrate
    · cases h
      cases q <;> simp_all [Quantity.isRate]
    · cases hn : w.number with
      | error cause => rw [hn] at h; cases h
      | ok v =>
        rw [hn] at h
        cases h
        cases q <;> simp [Effect.assign]

/-- The last word that sets the height decides where the pen is. -/
theorem words_pen {penUpAngle : Float} {start : Point} {m next : Machine} {ws : List Word}
    (h : Effect.words penUpAngle start m ws = .ok next) :
    if Line.setsHeight ws then next.pen = m.pen.at penUpAngle next.z
    else next.pen = m.pen ∧ next.z = m.z := by
  induction ws generalizing m with
  | nil =>
    cases h
    exact ⟨rfl, rfl⟩
  | cons w rest ih =>
    unfold Effect.words at h
    cases hw : Effect.word penUpAngle start m w with
    | error cause => rw [hw] at h; cases h
    | ok m₁ =>
      rw [hw] at h
      have hfirst := word_pen hw
      have hrest := ih h
      rw [Line.setsHeight_cons]
      by_cases hr : Line.setsHeight rest = true
      · -- a later word sets the height, and what the first one did to the pen is undone
        rw [if_pos hr] at hrest
        rw [hr, Bool.or_true, if_pos rfl, hrest]
        split_ifs at hfirst
        · rw [hfirst, Pen.at_at]
        · rw [hfirst.1]
      · rw [if_neg hr] at hrest
        rw [Bool.eq_false_iff.mpr hr, Bool.or_false, hrest.1, hrest.2]
        simpa using hfirst

/-! ### Lines -/

/-- The line can be read, and some word of it sets the height of the pen. -/
def Machine.MovesPen (s : Settings) (m : Machine) (line : Text) : Prop :=
  (∃ motion next, Effect.ofLine s.penUpAngle m line = .moved motion next) ∧
    Line.setsHeight (Line.tokens line) = true

/-- A line that is read moves the pen if a word sets its height. -/
theorem pen_of_moved {penUpAngle : Float} {m next : Machine} {line : Text} {motion : Option Motion}
    (h : Effect.ofLine penUpAngle m line = .moved motion next) :
    if Line.setsHeight (Line.tokens line) then next.pen = m.pen.at penUpAngle next.z
    else next.pen = m.pen ∧ next.z = m.z := by
  unfold Effect.ofLine at h
  dsimp only at h
  rw [Line.tokens_trimStart] at h
  split at h
  · split at h <;> cases h
  · unfold Effect.ofWords at h
    split_ifs at h
    cases hwords : Effect.words penUpAngle m.position { m with arcCenter := m.position }
        (Line.tokens line) with
    | error cause => rw [hwords] at h; cases h
    | ok next' =>
      rw [hwords] at h
      cases h
      exact words_pen (m := { m with arcCenter := m.position }) hwords

/-- **What a line does to the pen.**  A change of the tool sets the colour for drawing,
a line that moves the pen has it take its colours anew, and every other line leaves the
pen alone. -/
theorem next_pen (s : Settings) (m : Machine) (line : Text) :
    (∃ color, Effect.ofLine s.penUpAngle m line = .toolChange color ∧ ¬ m.MovesPen s line ∧
        m.next s line = { m with pen.downColor := color }) ∨
      (∀ color, Effect.ofLine s.penUpAngle m line ≠ .toolChange color) ∧
        (m.MovesPen s line ∧ (m.next s line).pen = m.pen.at s.penUpAngle (m.next s line).z ∨
          ¬ m.MovesPen s line ∧ (m.next s line).pen = m.pen ∧ (m.next s line).z = m.z) := by
  unfold Machine.MovesPen Machine.next
  cases heffect : Effect.ofLine s.penUpAngle m line with
  | toolChange color => exact .inl ⟨color, rfl, by simp, rfl⟩
  | badToolId => exact .inr ⟨by simp, .inr ⟨by simp, rfl, rfl⟩⟩
  | blank => exact .inr ⟨by simp, .inr ⟨by simp, rfl, rfl⟩⟩
  | unreadable cause => exact .inr ⟨by simp, .inr ⟨by simp, rfl, rfl⟩⟩
  | moved motion next =>
    have hpen := pen_of_moved heffect
    refine .inr ⟨by simp, ?_⟩
    split_ifs at hpen with hheight
    · exact .inl ⟨⟨⟨motion, next, rfl⟩, hheight⟩, hpen⟩
    · exact .inr ⟨fun h => hheight h.2, hpen⟩

/-- The line that set the height of the pen last, among the lines before one. -/
structure LastPenMove (s : Settings) (p : List Text) (j i : ℕ) : Prop where
  lt : j < i
  moves : ∃ line, p[j]? = some line ∧ ((Machine.zeroed s).run s (p.take j)).MovesPen s line
  last : ∀ k line, j < k → k < i → p[k]? = some line →
    ¬ ((Machine.zeroed s).run s (p.take k)).MovesPen s line

/-- One line more that does not move the pen. -/
theorem LastPenMove.succ {s : Settings} {p : List Text} {j i : ℕ} {line : Text}
    (h : LastPenMove s p j i) (hline : p[i]? = some line)
    (hmoves : ¬ ((Machine.zeroed s).run s (p.take i)).MovesPen s line) :
    LastPenMove s p j (i + 1) where
  lt := Nat.lt_succ_of_lt h.lt
  moves := h.moves
  last := by
    intro k line' hjk hk hline'
    rcases Nat.lt_succ_iff_lt_or_eq.mp hk with hk | rfl
    · exact h.last k line' hjk hk hline'
    · rw [hline] at hline'
      cases hline'
      exact hmoves

/-! ### The nodes of a line -/

theorem color_of_mem_polyline {color : Color} {line : ℕ} {start : Point} {ps : List Point} {t : Stroke}
    (h : t ∈ polyline color line start ps) : t.color = color := by
  induction ps generalizing start with
  | nil => cases h
  | cons p ps ih =>
    rw [polyline_cons, List.mem_cons] at h
    rcases h with rfl | h
    · rfl
    · exact ih h

/-- An element of joined blocks lies in one of them, behind the blocks before it. -/
theorem exists_of_flatMap_eq {α β : Type*} {f : α → List β} {l : List α} {pre post : List β} {b : β}
    (h : l.flatMap f = pre ++ b :: post) : ∃ k a bs cs, l[k]? = some a ∧ f a = bs ++ b :: cs ∧
      pre = (l.take k).flatMap f ++ bs := by
  induction l generalizing pre with
  | nil => simp at h
  | cons a l ih =>
    rw [List.flatMap_cons] at h
    rcases List.append_eq_append_iff.mp h with ⟨ds, hpre, hl⟩ | ⟨ds, hfirst, hl⟩
    · obtain ⟨k, a', bs, cs, hk, ha', hds⟩ := ih hl
      refine ⟨k + 1, a', bs, cs, hk, ha', ?_⟩
      rw [hpre, hds, List.take_succ_cons, List.flatMap_cons, List.append_assoc]
    · cases ds with
      | nil =>
        -- the element is the first one behind the block of `a`
        obtain ⟨k, a', bs, cs, hk, ha', hds⟩ := @ih [] hl.symm
        refine ⟨k + 1, a', bs, cs, hk, ha', ?_⟩
        rw [List.take_succ_cons, List.flatMap_cons, List.append_assoc, ← hds, hfirst, List.append_nil,
          List.append_nil]
      | cons d ds =>
        cases hl
        exact ⟨0, a, pre, ds, rfl, hfirst, rfl⟩

section

variable [Trigonometry]

/-- A line that does not change the tool draws strokes in the colour that the pen has
behind the line. -/
theorem strokes_of_line {s : Settings} {m : Machine} {line : Text} (i : ℕ)
    (h : ∀ color, Effect.ofLine s.penUpAngle m line ≠ .toolChange color) :
    ∃ ts : List Stroke, (Step.ofLine s i m line).nodes s = ts.map Node.stroke ∧
      ∀ t ∈ ts, t.line = i ∧ t.color = (m.next s line).pen.strokeColor := by
  unfold Step.nodes Step.ofLine Machine.next
  dsimp only
  cases heffect : Effect.ofLine s.penUpAngle m line with
  | toolChange color => exact absurd heffect (h color)
  | badToolId => exact ⟨[], rfl, by simp⟩
  | blank => exact ⟨[], rfl, by simp⟩
  | unreadable cause => exact ⟨[], rfl, by simp⟩
  | moved motion next =>
    cases motion with
    | none => exact ⟨[], rfl, by simp⟩
    | some motion =>
      dsimp only
      split_ifs
      · exact ⟨[], rfl, by simp⟩
      · refine ⟨_, rfl, ?_⟩
        intro t ht
        exact ⟨line_of_mem_polyline ht, color_of_mem_polyline ht⟩

theorem nodes_of_toolChange {s : Settings} {m : Machine} {line : Text} {color : Color} (i : ℕ)
    (h : Effect.ofLine s.penUpAngle m line = .toolChange color) :
    (Step.ofLine s i m line).nodes s = [.toolChange color i] := by
  unfold Step.nodes Step.ofLine
  rw [h]

/-! ### The pen behind some lines -/

/-- What the pen behind the first lines of a program has to do with these lines. -/
structure PenRecord (s : Settings) (p : List Text) (i : ℕ) (m : Machine) : Prop where
  up : m.pen.upColor = s.penUpColor
  /-- The colour for drawing is that of the last tool. -/
  down : m.pen.downColor = lastTool s.penDownColor (compile s (p.take i))
  /-- The pen is lifted near its upper angle. -/
  height : m.pen.lifted = decide ((s.penUpAngle - m.z).abs < Pen.margin)
  lifted : m.pen.lifted = true → m.pen.strokeColor = s.penUpColor
  /-- A pen on the paper has the colour of the last tool at the time it was moved. -/
  lowered : m.pen.lifted = false → ∃ j, LastPenMove s p j i ∧
    m.pen.strokeColor = lastTool s.penDownColor (compile s (p.take j))

/-- At the start the pen is at its upper angle. -/
theorem zeroed_penRecord {s : Settings} (p : List Text) (h : s.penUpAngle.isFinite = true) :
    PenRecord s p 0 (Machine.zeroed s) where
  up := rfl
  down := rfl
  height := by
    change true = decide ((s.penUpAngle - s.penUpAngle).abs < Pen.margin)
    rw [Binary64.sub_self_of_isFinite h]
    decide
  lifted := fun _ => rfl
  lowered := by
    intro h
    cases h

/-- The record behind a line that does not move the pen, whether or not it changes the
tool. -/
theorem PenRecord.keep {s : Settings} {p : List Text} {i : ℕ} {line : Text} {next : Machine}
    (h : PenRecord s p i ((Machine.zeroed s).run s (p.take i))) (hline : p[i]? = some line)
    (hmoves : ¬ ((Machine.zeroed s).run s (p.take i)).MovesPen s line)
    (hpen : { ((Machine.zeroed s).run s (p.take i)).pen with downColor := next.pen.downColor } =
      next.pen)
    (hz : next.z = ((Machine.zeroed s).run s (p.take i)).z)
    (hdown : next.pen.downColor = lastTool s.penDownColor (compile s (p.take (i + 1)))) :
    PenRecord s p (i + 1) next where
  up := by
    rw [← hpen]
    exact h.up
  down := hdown
  height := by
    rw [← hpen, hz]
    exact h.height
  lifted := by
    rw [← hpen]
    exact h.lifted
  lowered := by
    rw [← hpen]
    intro hlifted
    obtain ⟨j, hj, hcolor⟩ := h.lowered hlifted
    exact ⟨j, hj.succ hline hmoves, hcolor⟩

/-- The record behind a line that moves the pen: its colours are those of the tool in
use. -/
theorem PenRecord.move {s : Settings} {p : List Text} {i : ℕ} {line : Text} {next : Machine}
    (h : PenRecord s p i ((Machine.zeroed s).run s (p.take i))) (hline : p[i]? = some line)
    (hmoves : ((Machine.zeroed s).run s (p.take i)).MovesPen s line)
    (hpen : next.pen = ((Machine.zeroed s).run s (p.take i)).pen.at s.penUpAngle next.z)
    (hdown : next.pen.downColor = lastTool s.penDownColor (compile s (p.take (i + 1)))) :
    PenRecord s p (i + 1) next where
  up := by
    rw [hpen]
    exact h.up
  down := hdown
  height := by
    rw [hpen]
    rfl
  lifted := by
    intro hlifted
    rw [hpen] at hlifted ⊢
    exact (if_pos hlifted).trans h.up
  lowered := by
    intro hlifted
    refine ⟨i, ⟨Nat.lt_succ_self i, ⟨line, hline, hmoves⟩, ?_⟩, ?_⟩
    · intro k line' hik hki
      omega
    · rw [hpen] at hlifted ⊢
      rw [← h.down]
      exact if_neg (Bool.eq_false_iff.mp hlifted)

/-- **One line more.** -/
theorem PenRecord.next {s : Settings} {p : List Text} {i : ℕ} {line : Text}
    (h : PenRecord s p i ((Machine.zeroed s).run s (p.take i))) (hline : p[i]? = some line) :
    PenRecord s p (i + 1) (((Machine.zeroed s).run s (p.take i)).next s line) := by
  have hcompile := compile_take_succ s hline
  rcases next_pen s ((Machine.zeroed s).run s (p.take i)) line with
    ⟨color, heffect, hmoves, hnext⟩ | ⟨htool, hmove⟩
  · -- a change of the tool: only the colour for drawing is another one
    rw [nodes_of_toolChange i heffect] at hcompile
    rw [hnext]
    refine h.keep hline hmoves rfl rfl ?_
    rw [hcompile, lastTool_append, lastTool_toolChange]
  · obtain ⟨ts, hnodes, -⟩ := strokes_of_line i htool
    have hdown : ((Machine.zeroed s).run s (p.take i)).pen.downColor =
        lastTool s.penDownColor (compile s (p.take (i + 1))) := by
      rw [hcompile, hnodes, lastTool_append, lastTool_strokes, h.down]
    rcases hmove with ⟨hmoves, hpen⟩ | ⟨hmoves, hpen, hz⟩
    · refine h.move hline hmoves hpen ?_
      rw [hpen, ← hdown]
      rfl
    · refine h.keep hline hmoves ?_ hz ?_
      · rw [hpen]
      · rw [hpen, hdown]

theorem run_penRecord {s : Settings} (p : List Text) (h : s.penUpAngle.isFinite = true) {i : ℕ}
    (hi : i ≤ p.length) : PenRecord s p i ((Machine.zeroed s).run s (p.take i)) := by
  induction i with
  | zero => exact zeroed_penRecord p h
  | succ i ih =>
    have hline : p[i]? = some p[i] := List.getElem?_eq_getElem hi
    rw [Machine.run_take_succ s _ hline]
    exact (ih (Nat.le_of_succ_le hi)).next hline

/-- Every change of the tool among some nodes found the pen lifted. -/
def ToolsChangedLifted (s : Settings) (p : List Text) (nodes : List Node) : Prop :=
  ∀ color i, .toolChange color i ∈ nodes → ((Machine.zeroed s).run s (p.take i)).pen.lifted = true

/-- While tools are changed with the pen lifted, its colour follows its height. -/
theorem run_isCurrent {s : Settings} {p : List Text} {i : ℕ} (hi : i ≤ p.length)
    (h : ToolsChangedLifted s p (compile s (p.take i))) :
    ((Machine.zeroed s).run s (p.take i)).pen.IsCurrent := by
  induction i with
  | zero => rfl
  | succ i ih =>
    have hline : p[i]? = some p[i] := List.getElem?_eq_getElem hi
    rw [compile_take_succ s hline] at h
    have hcurrent := ih (Nat.le_of_succ_le hi) fun color k hk => h color k (List.mem_append_left _ hk)
    rw [Machine.run_take_succ s _ hline]
    rcases next_pen s ((Machine.zeroed s).run s (p.take i)) p[i] with
      ⟨color, heffect, -, hnext⟩ | ⟨-, ⟨-, hpen⟩ | ⟨-, hpen, -⟩⟩
    · -- a lifted pen does not show the colour for drawing
      have hlifted := h color i (List.mem_append_right _ (by rw [nodes_of_toolChange i heffect]; simp))
      unfold Pen.IsCurrent at *
      rw [if_pos hlifted] at hcurrent
      rw [hnext]
      exact hcurrent.trans (if_pos hlifted).symm
    · rw [hpen]
      exact Pen.isCurrent_at _ _ _
    · rw [hpen]
      exact hcurrent

/-! ### Strokes of a toolpath -/

/-- A stroke of a toolpath lies in the block of its line, among strokes in the colour
that the pen has behind the line. -/
theorem exists_line_of_stroke {s : Settings} {p : List Text} {before rest : List Node} {t : Stroke}
    (h : compile s p = before ++ .stroke t :: rest) :
    let m := (Machine.zeroed s).run s (p.take (t.line + 1))
    t.line < p.length ∧ t.color = m.pen.strokeColor ∧
      ∃ ts us : List Stroke, before = compile s (p.take t.line) ++ ts.map Node.stroke ∧
        compile s (p.take (t.line + 1)) = compile s (p.take t.line) ++ us.map Node.stroke := by
  obtain ⟨i, step, pre, post, hstep, hnodes, hbefore⟩ := exists_of_flatMap_eq h
  rw [programTrace_getElem?] at hstep
  obtain ⟨line, hline, rfl⟩ := Option.map_eq_some_iff.mp hstep
  rw [programTrace_take] at hbefore
  have htool : ∀ color, Effect.ofLine s.penUpAngle ((Machine.zeroed s).run s (p.take i)) line ≠
      .toolChange color := by
    intro color heffect
    rw [nodes_of_toolChange i heffect] at hnodes
    rcases pre with _ | ⟨n, pre⟩ <;> simp at hnodes
  obtain ⟨us, hus, hcolors⟩ := strokes_of_line i htool
  have hsplit := hus.symm.trans hnodes
  obtain ⟨ts, vs, rfl, hts, hvs⟩ := List.map_eq_append_iff.mp hsplit
  obtain ⟨u, ws, rfl, hu, -⟩ := List.map_eq_cons_iff.mp hvs
  cases hu
  obtain ⟨rfl, hcolor⟩ := hcolors t (by simp)
  refine ⟨(List.getElem?_eq_some_iff.mp hline).1, ?_, ts, ts ++ t :: ws, ?_, ?_⟩
  · rw [Machine.run_take_succ s _ hline]
    exact hcolor
  · rw [hbefore, hts]
    rfl
  · rw [compile_take_succ s hline, hus]

/-- **The colour of every stroke.**  The pen is lifted if it is near its upper angle
behind the line of the stroke, and then the stroke has the colour for a lifted pen.
Else it has the colour of the last tool at the time when the pen was last moved; and if
tools were changed only with the pen lifted, that is the last tool before the stroke. -/
theorem stroke_color {s : Settings} {p : List Text} {before rest : List Node} {t : Stroke}
    (hangle : s.penUpAngle.isFinite = true) (h : compile s p = before ++ .stroke t :: rest) :
    let m := (Machine.zeroed s).run s (p.take (t.line + 1))
    m.pen.lifted = decide ((s.penUpAngle - m.z).abs < Pen.margin) ∧
    (m.pen.lifted = true → t.color = s.penUpColor) ∧
    (m.pen.lifted = false → ∃ j, LastPenMove s p j (t.line + 1) ∧
      t.color = lastTool s.penDownColor (compile s (p.take j))) ∧
    (ToolsChangedLifted s p before →
      t.color = if m.pen.lifted then s.penUpColor else lastTool s.penDownColor before) := by
  obtain ⟨hlt, hcolor, ts, us, hbefore, hcompile⟩ := exists_line_of_stroke h
  have hrecord := run_penRecord p hangle hlt
  dsimp only at hcolor ⊢
  refine ⟨hrecord.height, ?_, ?_, ?_⟩
  · rw [hcolor]
    exact hrecord.lifted
  · rw [hcolor]
    exact hrecord.lowered
  · intro htools
    -- the strokes of the same line before this one change nothing
    have hdown : lastTool s.penDownColor (compile s (p.take (t.line + 1))) =
        lastTool s.penDownColor before := by
      rw [hcompile, hbefore, lastTool_append, lastTool_append, lastTool_strokes, lastTool_strokes]
    have hcurrent : ((Machine.zeroed s).run s (p.take (t.line + 1))).pen.IsCurrent := by
      apply run_isCurrent hlt
      intro color i hi
      rw [hcompile, List.mem_append] at hi
      refine htools color i ?_
      rw [hbefore, List.mem_append]
      rcases hi with hi | hi
      · exact .inl hi
      · obtain ⟨u, -, hu⟩ := List.mem_map.mp hi
        cases hu
    rw [hcolor, hcurrent, hrecord.up, hrecord.down, hdown]

end

/-- A tool that is changed while the pen is on the paper. -/
def ToolChange.sample : List Text :=
  [['G', '1', ' ', 'Z', '5', '0'], ['M', '0', '6', ' ', 'T', '2', '5', '5'],
    ['G', '1', ' ', 'X', '1', '0']]

/-- The stroke behind the change of the tool is drawn in the colour before it. -/
theorem compile_sample : compile default ToolChange.sample =
    [.stroke ⟨Point.origin, Point.origin, Color.black, 0⟩, .toolChange ⟨0, 0, 255⟩ 1] ++
      .stroke ⟨Point.origin, ⟨10, 0⟩, Color.black, 2⟩ :: [] := by
  decide +kernel

theorem stroke_color_sample :
    ((default : Settings).penUpAngle.isFinite = true ∧
      compile default ToolChange.sample =
        [.stroke ⟨Point.origin, Point.origin, Color.black, 0⟩, .toolChange ⟨0, 0, 255⟩ 1] ++
          .stroke ⟨Point.origin, ⟨10, 0⟩, Color.black, 2⟩ :: []) ∧
    ∃ j, LastPenMove default ToolChange.sample j 3 ∧
      Color.black = lastTool Color.black (compile default (ToolChange.sample.take j)) := by
  have hangle : (default : Settings).penUpAngle.isFinite = true := by decide
  have hlowered : ((Machine.zeroed default).run default (ToolChange.sample.take 3)).pen.lifted = false := by
    decide +kernel
  exact ⟨⟨hangle, compile_sample⟩, (stroke_color hangle compile_sample).2.2.1 hlowered⟩

/-- Strokes with the pen on the paper do not always have the colour of the last tool
before them: a new tool does not show until the pen is moved. -/
theorem stroke_color_fails :
    ¬ ∀ (s : Settings) (p : List Text) (before rest : List Node) (t : Stroke),
      s.penUpAngle.isFinite = true → compile s p = before ++ .stroke t :: rest →
        t.color = if ((Machine.zeroed s).run s (p.take (t.line + 1))).pen.lifted then s.penUpColor
          else lastTool s.penDownColor before := by
  intro h
  have hblack := h default ToolChange.sample _ _ _ (by decide) compile_sample
  revert hblack
  decide +kernel

end PenPlotter
