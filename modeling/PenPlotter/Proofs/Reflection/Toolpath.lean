import Mathlib
import PenPlotter.Proofs.Reflection.Words
import PenPlotter.Proofs.Toolpath.Trace

/-!
# The toolpath of a reflected program

A reflected program takes the machine through the reflected states, line by line:
a pass over it and a pass over the program itself drop the same lines, change to
the same tools, and draw strokes and arcs that are reflections of each other.
Angles come from trigonometric functions that are taken as given, so the strokes of
arcs are not compared one by one: either side draws the arc that is made from its own
points, and the points, not the strokes, are the reflected ones.

## Main definitions

* `Point.Mirrored`, `Machine.Mirrored`, `Effect.Mirrored`, `Node.Mirrored`,
  `ArcRequest.Mirrored`, `Step.Mirrored` — one is the reflection of the other.
* `Reflection.IsPlain` — a program whose lines can be reflected word by word.

## Main results

* `word_mirrored`, `words_mirrored` — words keep states reflected.
* `ofLine_mirrored` — so does a line.
* `programTrace_mirrored` — **and so does a whole program.**
-/

namespace PenPlotter

open Binary64

/-! ### Reflections -/

/-- The point on the other side of the Y axis. -/
structure Point.Mirrored (p q : Point) : Prop where
  x : SameNumber q.x (-p.x)
  y : q.y = p.y

/-- The machine at the reflected point, and with the reflected centre of an arc.
All else is the same. -/
structure Machine.Mirrored (m n : Machine) : Prop where
  position : m.position.Mirrored n.position
  arcCenter : m.arcCenter.Mirrored n.arcCenter
  z : n.z = m.z
  units : n.units = m.units
  absolute : n.absolute = m.absolute
  feedRate : n.feedRate = m.feedRate
  acceleration : n.acceleration = m.acceleration
  pen : n.pen = m.pen

/-- The same outcome of reading words: reflected machines, or the same failure. -/
inductive Machine.MirroredOutcome : Except NumeralError Machine → Except NumeralError Machine → Prop
  | ok {m n : Machine} (h : m.Mirrored n) : MirroredOutcome (.ok m) (.ok n)
  | error (cause : NumeralError) : MirroredOutcome (.error cause) (.error cause)

/-- The same effect, a motion going the other way around to a reflected machine. -/
inductive Effect.Mirrored : Effect → Effect → Prop
  | toolChange (color : Color) : Mirrored (.toolChange color) (.toolChange color)
  | badToolId : Mirrored .badToolId .badToolId
  | blank : Mirrored .blank .blank
  | unreadable (cause : NumeralError) : Mirrored (.unreadable cause) (.unreadable cause)
  | moved (motion : Option Motion) {m n : Machine} (h : m.Mirrored n) :
      Mirrored (.moved motion m) (.moved (motion.map Motion.reverse) n)

/-- A reflected stroke in the same colour and from the same line, or the same tool
change. -/
inductive Node.Mirrored : Node → Node → Prop
  | stroke {p p' q q' : Point} (hp : p.Mirrored p') (hq : q.Mirrored q') (color : Color) (line : ℕ) :
      Mirrored (.stroke ⟨p, q, color, line⟩) (.stroke ⟨p', q', color, line⟩)
  | toolChange (color : Color) (line : ℕ) :
      Mirrored (.toolChange color line) (.toolChange color line)

/-- An arc between reflected points, around the reflected centre and the other way. -/
structure ArcRequest.Mirrored (r r' : ArcRequest) : Prop where
  start : r.start.Mirrored r'.start
  stop : r.stop.Mirrored r'.stop
  center : r.center.Mirrored r'.center
  winding : r'.winding = r.winding.reverse

/-- A step of the pass over the reflected program beside the step of the same line
of the program. -/
structure Step.Mirrored [Trigonometry] (s : Settings) (a b : Step) : Prop where
  line : b.line = a.line
  content : b.content = Reflection.line a.content
  before : a.before.Mirrored b.before
  after : a.after.Mirrored b.after
  effect : a.effect.Mirrored b.effect
  /-- A line that is no arc has reflected nodes. -/
  nodes : (∀ winding, (Line.ofText a.content).motion ≠ some (.arc winding)) →
    List.Forall₂ Node.Mirrored (a.nodes s) (b.nodes s)
  /-- Both sides draw arcs made from reflected points, or neither draws one, because the
  line cannot be read or is hidden. -/
  arc : ∀ winding, (Line.ofText a.content).motion = some (.arc winding) →
    (((∃ cause, a.effect = .unreadable cause) ∨ Step.isHidden s a.after = true) ∧
        a.nodes s = [] ∧ b.nodes s = []) ∨
      ∃ r r', r.winding = winding ∧ a.Draws s r ∧ b.Draws s r' ∧ r.Mirrored r'

/-- The lines of a program can be reflected word by word: none has a word `M101`,
and the line of a tool change has nothing to reflect. -/
structure Reflection.IsPlain (line : Text) : Prop where
  noSync : (Line.ofText line).hasWord 'M' ['1', '0', '1'] = false
  toolChange : (Line.tokens line).head? = some ⟨'M', ['0', '6']⟩ →
    ∀ w ∈ Line.tokens line, w.letter ≠ 'X' ∧ w.letter ≠ 'I' ∧ w.letter ≠ 'G'

instance (line : Text) : Decidable (Reflection.IsPlain line) :=
  decidable_of_iff
    ((Line.ofText line).hasWord 'M' ['1', '0', '1'] = false ∧
      ((Line.tokens line).head? = some ⟨'M', ['0', '6']⟩ →
        ∀ w ∈ Line.tokens line, w.letter ≠ 'X' ∧ w.letter ≠ 'I' ∧ w.letter ≠ 'G'))
    ⟨fun h => ⟨h.1, h.2⟩, fun h => ⟨h.noSync, h.toolChange⟩⟩

/-! ### Words -/

theorem Point.mirrored_origin : Point.origin.Mirrored Point.origin :=
  ⟨.inl (by decide), rfl⟩

theorem Machine.mirrored_zeroed (s : Settings) : (zeroed s).Mirrored (zeroed s) :=
  ⟨Point.mirrored_origin, Point.mirrored_origin, rfl, rfl, rfl, rfl, rfl, rfl⟩

theorem Machine.Mirrored.scale {m n : Machine} (h : m.Mirrored n) : n.scale = m.scale := by
  rw [Machine.scale, Machine.scale, h.units]

/-- Scaling an opposite number gives the opposite one. -/
theorem sameNumber_scaled {v v' : Float} (h : SameNumber v' (-v)) (k : Float) :
    SameNumber (v' * k) (-(v * k)) :=
  neg_mul_eq v k ▸ h.mul (.refl k)

/-- Going an opposite way from an opposite place leads to the opposite place. -/
theorem sameNumber_moved {a a' v v' : Float} (ha : SameNumber a' (-a)) (hv : SameNumber v' (-v)) :
    SameNumber (a' + v') (-(a + v)) :=
  (ha.add hv).trans (sameNumber_neg_add a v)

/-- A quantity that counts from left to right. -/
def Quantity.IsHorizontal (q : Quantity) : Prop := q = .x ∨ q = .centerX

/-- A horizontal word is one that sets a horizontal quantity. -/
theorem Word.isHorizontal_iff {w : Word} {q : Quantity} (h : w.command = .assign q) :
    w.isHorizontal false = true ↔ q.IsHorizontal := by
  unfold Word.isHorizontal Quantity.IsHorizontal
  rw [Word.letter_of_assign h]
  cases q <;> decide

/-- A word that sets a quantity and is not horizontal has no reflection. -/
theorem Word.reflected_of_not_horizontal {keepOffsets : Bool} {w : Word} {q : Quantity}
    (h : w.command = .assign q) (hw : ¬ w.isHorizontal keepOffsets = true) :
    w.reflected keepOffsets = w := by
  have hletter : w.letter ≠ 'G' := by
    rw [Word.letter_of_assign h]
    cases q <;> decide
  rw [Word.reflected, Word.reflected?, if_neg hw, if_neg hletter, Option.getD_none]

/-- A word that sets a quantity that is not horizontal has no reflection. -/
theorem Word.reflected_of_assign {w : Word} {q : Quantity} (h : w.command = .assign q)
    (hq : ¬ q.IsHorizontal) : w.reflected false = w :=
  reflected_of_not_horizontal h (mt (Word.isHorizontal_iff h).mp hq)

theorem coordinate_mirrored {m n : Machine} {a a' v v' : Float} (h : n.absolute = m.absolute)
    (ha : SameNumber a' (-a)) (hv : SameNumber v' (-v)) :
    SameNumber (Effect.coordinate n a' v') (-Effect.coordinate m a v) := by
  unfold Effect.coordinate
  rw [h]
  split_ifs
  · exact hv
  · exact sameNumber_moved ha hv

/-- Setting a quantity to a number, or a horizontal one to the opposite number,
keeps machines reflected. -/
theorem assign_mirrored (penUpAngle : Float) {start start' : Point} {m n : Machine} {v v' : Float}
    (q : Quantity) (hs : start.Mirrored start') (h : m.Mirrored n)
    (hhor : q.IsHorizontal → SameNumber v' (-v)) (hsame : ¬ q.IsHorizontal → v' = v) :
    (Effect.assign penUpAngle start m v q).Mirrored (Effect.assign penUpAngle start' n v' q) := by
  have hscale := h.scale
  cases q with
  | x =>
    have hv := sameNumber_scaled (hhor (.inl rfl)) m.scale
    refine { h with position := ⟨?_, h.position.y⟩ }
    dsimp only [Effect.assign]
    rw [hscale]
    exact coordinate_mirrored h.absolute h.position.x hv
  | y =>
    refine { h with position := ⟨h.position.x, ?_⟩ }
    dsimp only [Effect.assign, Effect.coordinate]
    rw [hscale, hsame (by rintro (h | h) <;> cases h), h.absolute, h.position.y]
  | z =>
    obtain rfl := hsame (by rintro (h | h) <;> cases h)
    exact { h with z := rfl, pen := by dsimp only [Effect.assign]; rw [h.pen] }
  | centerX =>
    have hv := sameNumber_scaled (hhor (.inr rfl)) m.scale
    refine { h with arcCenter := ⟨?_, h.arcCenter.y⟩ }
    dsimp only [Effect.assign]
    rw [hscale]
    exact sameNumber_moved hs.x hv
  | centerY =>
    refine { h with arcCenter := ⟨h.arcCenter.x, ?_⟩ }
    dsimp only [Effect.assign]
    rw [hscale, hsame (by rintro (h | h) <;> cases h), hs.y]
  | feedRate => exact h
  | acceleration => exact h

/-- **A word keeps machines reflected**, or fails on both sides for one reason. -/
theorem word_mirrored (penUpAngle : Float) {start start' : Point} {m n : Machine}
    (hs : start.Mirrored start') (h : m.Mirrored n) (w : Word) :
    Machine.MirroredOutcome (Effect.word penUpAngle start m w)
      (Effect.word penUpAngle start' n (w.reflected false)) := by
  unfold Effect.word
  rw [Word.command_reflected]
  cases hc : w.command with
  | units units => exact .ok { h with units := rfl }
  | absolute on => exact .ok { h with absolute := rfl }
  | other => exact .ok h
  | assign q =>
    dsimp only
    split_ifs with hrate
    · exact .ok h
    · by_cases hq : q.IsHorizontal
      · have hhor := (Word.isHorizontal_iff hc).mpr hq
        cases hn : w.number with
        | error cause =>
          rw [Word.number_reflected_error hhor hn]
          exact .error cause
        | ok v =>
          obtain ⟨v', hv', hsame⟩ := Word.number_reflected hhor hn
          rw [hv']
          exact .ok (assign_mirrored penUpAngle q hs h (fun _ => hsame) (absurd hq))
      · -- the word stays, and sets the same number on both sides
        rw [Word.reflected_of_assign hc hq]
        cases w.number with
        | error cause => exact .error cause
        | ok v => exact .ok (assign_mirrored penUpAngle q hs h (fun hq' => absurd hq' hq) fun _ => rfl)

/-- The words of a line keep machines reflected, or fail at the same word. -/
theorem words_mirrored (penUpAngle : Float) {start start' : Point} {m n : Machine}
    (hs : start.Mirrored start') (h : m.Mirrored n) (ws : List Word) :
    Machine.MirroredOutcome (Effect.words penUpAngle start m ws)
      (Effect.words penUpAngle start' n (ws.map (Word.reflected false))) := by
  induction ws generalizing m n with
  | nil => exact .ok h
  | cons w rest ih =>
    rw [List.map_cons, Effect.words, Effect.words]
    have hword := word_mirrored penUpAngle hs h w
    generalize Effect.word penUpAngle start m w = o at hword ⊢
    generalize Effect.word penUpAngle start' n (w.reflected false) = o' at hword ⊢
    cases hword with
    | ok h' => exact ih h'
    | error cause => exact .error cause

/-! ### Lines -/

/-- The words of a line keep their effect, with the arc turned the other way. -/
theorem ofWords_mirrored (penUpAngle : Float) {m n : Machine} (h : m.Mirrored n) (ws : List Word) :
    (Effect.ofWords penUpAngle m ws).Mirrored
      (Effect.ofWords penUpAngle n (ws.map (Word.reflected false))) := by
  unfold Effect.ofWords
  rw [List.isEmpty_map]
  split_ifs
  · exact .blank
  · -- the line starts with the centre of its arc at the position
    have hwords := words_mirrored penUpAngle h.position
      (m := { m with arcCenter := m.position }) (n := { n with arcCenter := n.position })
      { h with arcCenter := h.position } ws
    have hmotion : (ws.map (Word.reflected false)).head?.bind Word.motion =
        (ws.head?.bind Word.motion).map Motion.reverse := by
      cases ws with
      | nil => rfl
      | cons w rest => exact Word.motion_reflected false w
    rw [hmotion]
    generalize Effect.words penUpAngle m.position { m with arcCenter := m.position } ws = o at hwords ⊢
    generalize Effect.words penUpAngle n.position { n with arcCenter := n.position }
      (ws.map (Word.reflected false)) = o' at hwords ⊢
    cases hwords with
    | ok h' => exact .moved _ h'
    | error cause => exact .unreadable cause

namespace Reflection

theorem keepsOffsets_of_isPlain {line : Text} (h : IsPlain line) :
    keepsOffsets (Line.tokens line) = false := h.noSync

/-- A line that is reflected neither was a tool change nor has become one. -/
theorem idText?_line {t : Text} (h : IsPlain t) :
    ToolChange.idText? (Text.trimStart (line t)) = ToolChange.idText? (Text.trimStart t) := by
  rcases line_cases t with ⟨hline, -⟩ | ⟨⟨w, hw, hreflected⟩, -⟩
  · rw [hline]
  · -- a word is reflected, so that the first word is not that of a tool change
    have hhead : (Line.tokens t).head? ≠ some ⟨'M', ['0', '6']⟩ := by
      intro hhead
      exact hreflected (Word.reflected_of_letter (h.toolChange hhead w hw))
    rw [idText?_eq_none_of_head? hhead]
    -- nor is the new first word, which has the letter of the old one
    apply idText?_eq_none_of_head?
    intro hnew
    rw [tokens_line, List.head?_map] at hnew
    obtain ⟨v, hv, hvm⟩ := Option.map_eq_some_iff.mp hnew
    have hletter : v.letter = 'M' := by
      rw [← Word.letter_reflected (keepsOffsets (Line.tokens t)), hvm]
    rw [Word.reflected, Word.reflected_of_letter (by rw [hletter]; decide), Option.getD_none] at hvm
    exact hhead (hvm ▸ hv)

end Reflection

/-- **A line keeps its effect when it is reflected.** -/
theorem ofLine_mirrored (penUpAngle : Float) {m n : Machine} (h : m.Mirrored n) {t : Text}
    (ht : Reflection.IsPlain t) :
    (Effect.ofLine penUpAngle m t).Mirrored (Effect.ofLine penUpAngle n (Reflection.line t)) := by
  unfold Effect.ofLine
  dsimp only
  rw [Reflection.idText?_line ht, Line.tokens_trimStart, Line.tokens_trimStart,
    Reflection.tokens_line, Reflection.keepsOffsets_of_isPlain ht]
  cases ToolChange.idText? (Text.trimStart t) with
  | none => exact ofWords_mirrored penUpAngle h _
  | some id =>
    dsimp only
    cases ToolChange.id? id with
    | none => exact .badToolId
    | some k => exact .toolChange _

/-! ### Steps -/

theorem Effect.Mirrored.machine {m n : Machine} (h : m.Mirrored n) {e e' : Effect}
    (he : e.Mirrored e') : (e.machine m).Mirrored (e'.machine n) := by
  cases he with
  | toolChange color => exact { h with pen := by simp [h.pen] }
  | moved motion h' => exact h'
  | badToolId => exact h
  | blank => exact h
  | unreadable cause => exact h

theorem isHidden_mirrored {m n : Machine} (h : m.Mirrored n) (s : Settings) :
    Step.isHidden s n = Step.isHidden s m := by
  rw [Step.isHidden, Step.isHidden, h.pen]

/-- Steps with reflected effects have reflected nodes, unless they are arcs. -/
theorem Step.nodes_mirrored [Trigonometry] (s : Settings) {a b : Step} (hline : b.line = a.line)
    (hbefore : a.before.Mirrored b.before) (heffect : a.effect.Mirrored b.effect)
    (harc : ∀ winding next, a.effect ≠ .moved (some (.arc winding)) next) :
    List.Forall₂ Node.Mirrored (a.nodes s) (b.nodes s) := by
  obtain ⟨index, content, m, effect⟩ := a
  obtain ⟨index', content', n, effect'⟩ := b
  dsimp only at hline hbefore heffect harc
  subst hline
  unfold Step.nodes
  cases heffect with
  | toolChange color => exact .cons (.toolChange color _) .nil
  | badToolId => exact .nil
  | blank => exact .nil
  | unreadable cause => exact .nil
  | moved motion h =>
    cases motion with
    | none => exact .nil
    | some motion =>
      rw [Option.map_some]
      dsimp only
      rw [isHidden_mirrored h]
      split_ifs
      · exact .nil
      · cases motion with
        | linear =>
          rw [h.pen]
          exact .cons (.stroke hbefore.position h.position _ _) .nil
        | arc winding => exact absurd rfl (harc winding _)

/-- **The arcs of a line and of its reflection are made from reflected points**, if the line
can be read and is not hidden. -/
theorem Step.arc_mirrored [Trigonometry] (s : Settings) (index : ℕ) {m n : Machine}
    (h : m.Mirrored n) {t : Text} (ht : Reflection.IsPlain t) {winding : Winding}
    (hmotion : (Line.ofText t).motion = some (.arc winding)) :
    let a := Step.ofLine s index m t
    let b := Step.ofLine s index n (Reflection.line t)
    (((∃ cause, a.effect = .unreadable cause) ∨ Step.isHidden s a.after = true) ∧
        a.nodes s = [] ∧ b.nodes s = []) ∨
      ∃ r r', r.winding = winding ∧ a.Draws s r ∧ b.Draws s r' ∧ r.Mirrored r' := by
  have heffect := ofLine_mirrored s.penUpAngle h ht
  dsimp only
  rcases ofLine_of_motion s.penUpAngle m hmotion with ⟨next, hnext⟩ | ⟨cause, hcause⟩
  · rw [hnext] at heffect
    generalize hreflected : Effect.ofLine s.penUpAngle n (Reflection.line t) = e at heffect
    cases heffect with
    | moved _ h' =>
      by_cases hhidden : Step.isHidden s next = true
      · have hhidden' := (isHidden_mirrored h' s).trans hhidden
        have hafter : Step.isHidden s (Step.ofLine s index m t).after = true := by
          rw [Step.after_ofLine, Machine.next, hnext]
          exact hhidden
        exact .inl ⟨.inr hafter, Step.nodes_of_isHidden index hnext hhidden,
          Step.nodes_of_isHidden index hreflected hhidden'⟩
      · have hshown' := (isHidden_mirrored h' s).symm ▸ hhidden
        exact .inr ⟨_, _, rfl, Step.draws_ofLine index hnext hhidden,
          Step.draws_ofLine index hreflected hshown',
          ⟨h.position, h'.position, h'.arcCenter, rfl⟩⟩
  · -- what cannot be read on one side cannot be read on the other
    rw [hcause] at heffect
    generalize hreflected : Effect.ofLine s.penUpAngle n (Reflection.line t) = e at heffect
    cases heffect
    refine .inl ⟨.inl ⟨cause, hcause⟩, ?_, ?_⟩
    · rw [Step.nodes, Step.ofLine, hcause]
    · rw [Step.nodes, Step.ofLine, hreflected]

/-- **A line and its reflection are steps that mirror each other.** -/
theorem Step.mirrored_ofLine [Trigonometry] (s : Settings) (index : ℕ) {m n : Machine}
    (h : m.Mirrored n) {t : Text} (ht : Reflection.IsPlain t) :
    Step.Mirrored s (Step.ofLine s index m t) (Step.ofLine s index n (Reflection.line t)) where
  line := rfl
  content := rfl
  before := h
  after := (ofLine_mirrored s.penUpAngle h ht).machine h
  effect := ofLine_mirrored s.penUpAngle h ht
  nodes := by
    intro hstraight
    refine Step.nodes_mirrored s rfl h (ofLine_mirrored s.penUpAngle h ht) ?_
    intro winding next heffect
    exact hstraight winding (motion_of_ofLine heffect)
  arc := fun _ hmotion => Step.arc_mirrored s index h ht hmotion

/-! ### Programs -/

theorem trace_mirrored [Trigonometry] (s : Settings) (index : ℕ) {m n : Machine} (h : m.Mirrored n)
    (p : List Text) (hp : ∀ t ∈ p, Reflection.IsPlain t) :
    List.Forall₂ (Step.Mirrored s) (trace s index m p) (trace s index n (Reflection.program p)) := by
  induction p generalizing index m n with
  | nil => exact .nil
  | cons t rest ih =>
    obtain ⟨ht, hrest⟩ := List.forall_mem_cons.mp hp
    have hstep := Step.mirrored_ofLine s index h ht
    rw [Reflection.program, List.map_cons, trace_cons, trace_cons]
    exact .cons hstep (ih (index + 1) hstep.after hrest)

/-- **The pass over a reflected program mirrors the pass over the program, line by
line.**  Either takes one step for each line, and its toolpath is that of its steps. -/
theorem programTrace_mirrored [Trigonometry] (s : Settings) (p : List Text)
    (hp : ∀ t ∈ p, Reflection.IsPlain t) :
    let q := Reflection.program p
    List.Forall₂ (Step.Mirrored s) (programTrace s p) (programTrace s q) ∧
    ((programTrace s p).map Step.content = p ∧ (programTrace s q).map Step.content = q) ∧
    compile s p = (programTrace s p).flatMap (Step.nodes s) ∧
    compile s q = (programTrace s q).flatMap (Step.nodes s) :=
  ⟨trace_mirrored s 0 (Machine.mirrored_zeroed s) p hp,
    ⟨trace_map_content s 0 _ p, trace_map_content s 0 _ _⟩, rfl, rfl⟩

/-- A program with a tool change, a stroke with the pen put down, an arc with a comment
and a relative move. -/
def Reflection.sample : List Text :=
  [['M', '0', '6', ' ', 'T', '9'],
    ['G', '1', ' ', 'Z', '5', '0', ' ', 'X', '1', '.', '5', ' ', 'Y', '2'],
    ['G', '2', ' ', 'X', '0', ' ', 'I', '-', '1', ';', 'X'], ['G', '9', '1', ' ', 'X', '3']]

/-- The passes over the program and its reflection mirror each other, and both draw the arc
of the third line. -/
theorem programTrace_mirrored_sample :
    (∀ t ∈ Reflection.sample, Reflection.IsPlain t) ∧
      List.Forall₂ (Step.Mirrored default) (programTrace default Reflection.sample)
        (programTrace default (Reflection.program Reflection.sample)) ∧
      ∃ a b, (programTrace default Reflection.sample)[2]? = some a ∧
        (programTrace default (Reflection.program Reflection.sample))[2]? = some b ∧
        ∃ r r', r.winding = .clockwise ∧ a.Draws default r ∧ b.Draws default r' ∧ r.Mirrored r' := by
  have hp : ∀ t ∈ Reflection.sample, Reflection.IsPlain t := by decide
  obtain ⟨hsteps, -⟩ := programTrace_mirrored default Reflection.sample hp
  refine ⟨hp, hsteps, _, _, rfl, rfl, ?_⟩
  have hstep : Step.Mirrored default _ _ := hsteps.get (i := 2) (by decide) (by decide)
  have hdraws : (Step.ofLine default 2 ((Machine.zeroed default).run default
      (Reflection.sample.take 2)) ['G', '2', ' ', 'X', '0', ' ', 'I', '-', '1', ';', 'X']).Draws
        default _ := Step.draws_ofLine 2 rfl (by decide)
  exact (hstep.arc .clockwise (by decide)).resolve_left fun h => hdraws.nodes_ne_nil h.2.1

end PenPlotter
