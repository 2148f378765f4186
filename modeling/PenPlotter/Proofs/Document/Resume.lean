import Mathlib
import PenPlotter.Proofs.Document.Loading
import PenPlotter.Proofs.Document.Search
import PenPlotter.Proofs.Reflection.Words
import PenPlotter.Proofs.Toolpath.Trace

/-!
# Lines to resume from

A run can be resumed at a line that lifts the pen.  Such a line is found by its
text, blanks around it aside, while the machine goes by its words; and the text
that is looked for comes from the settings, while the lines may have been reflected
on load.  All of them agree on the two words of the line: a reflection leaves them
alone, and makes them from nothing else.

## Main definitions

* `Settings.liftWords` — the words of the line that lifts the pen.
* `Step.LiftsInPlace` — a step that lifts the pen where it is.

## Main results

* `tokens_of_trim` — a line with the text of a pen lift has its words.
* `liftsInPlace_of_tokens` — **these words lift the pen in place**, from any machine.
* `trim_line_eq_liftLine_iff` — reflection neither hides nor makes a pen lift.
* `lastPenLift_safe` — **the line found is a pen lift, and the same one on glass.**
-/

namespace PenPlotter

open Binary64

/-! ### The words of a pen lift -/

/-- The words of the line that lifts the pen. -/
def Settings.liftWords (s : Settings) : List Word :=
  [⟨'G', ['0', '0']⟩, ⟨'Z', Numeral.write s.penUpAngle⟩]

section

variable {s : Settings}

/-- The line that lifts the pen is a short piece, a space and a piece. -/
theorem liftLine_eq (s : Settings) :
    s.liftLine = ['G', '0', '0'] ++ ' ' :: 'Z' :: Numeral.write s.penUpAngle := rfl

theorem isPiece_height (hangle : s.penUpAngle.isFinite = true) :
    Text.IsPiece ('Z' :: Numeral.write s.penUpAngle) := by
  refine .cons rfl ?_
  intro c hc
  exact ((Numeral.isNumeral_write hangle).not_mem hc).1

/-- The line that lifts the pen neither starts nor ends with a blank. -/
theorem trim_liftLine (hangle : s.penUpAngle.isFinite = true) :
    Text.trim s.liftLine = s.liftLine := by
  apply Text.trim_eq_self
  · intro c hc
    cases hc
    rfl
  · intro c hc
    have hpiece := isPiece_height hangle
    rw [liftLine_eq, List.append_cons, List.getLast?_append_of_ne_nil _ hpiece.1] at hc
    exact hpiece.2 c (List.mem_of_getLast? hc)

/-- **A line with the text of a pen lift has the words of a pen lift.** -/
theorem tokens_of_trim (hangle : s.penUpAngle.isFinite = true) {t : Text}
    (h : Text.trim t = s.liftLine) : Line.tokens t = s.liftWords := by
  have hsemicolon : ';' ∉ t := by
    intro hc
    have hmem := Text.mem_trim hc not_isBlank_semicolon
    rw [h, liftLine_eq] at hmem
    have hnumeral : ';' ∈ Numeral.write s.penUpAngle := by simpa using hmem
    exact ((Numeral.isNumeral_write hangle).not_mem hnumeral).2 rfl
  have hpiece : Text.IsPiece ['G', '0', '0'] := .cons rfl (by simp; exact rfl)
  rw [Line.tokens, Line.code_of_not_mem hsemicolon, ← Text.pieces_trim, h, liftLine_eq,
    Text.pieces_append_blank hpiece isBlank_space, Text.pieces_of_isPiece (isPiece_height hangle)]
  rfl

/-! ### What a pen lift does -/

/-- A step lifts the pen where it is: the pen is up behind it and has not moved, and
whatever shows of it in the toolpath is a stroke on the spot. -/
structure Step.LiftsInPlace [Trigonometry] (s : Settings) (step : Step) : Prop where
  lifted : step.after.pen.lifted = true
  position : step.after.position = step.before.position
  nodes : ∀ node ∈ step.nodes s, ∃ color,
    node = .stroke ⟨step.before.position, step.before.position, color, step.line⟩

/-- The machine behind a pen lift. -/
def Machine.lift (m : Machine) (angle : Float) : Machine :=
  { m with arcCenter := m.position, z := angle, pen := m.pen.at angle angle }

/-- At its upper angle the pen is lifted, exactly. -/
theorem lifted_lift (m : Machine) {angle : Float} (hangle : angle.isFinite = true) :
    (m.lift angle).pen.lifted = true := by
  change decide ((angle - angle).abs < Pen.margin) = true
  rw [sub_self_of_isFinite hangle]
  decide +kernel

theorem number_height (hangle : s.penUpAngle.isFinite = true) :
    Word.number ⟨'Z', Numeral.write s.penUpAngle⟩ = .ok s.penUpAngle := by
  have hread := Numeral.read?_write hangle
  rw [Word.number_eq_ok_iff]
  refine ⟨?_, hread, hangle⟩
  rintro (hnil : Numeral.write s.penUpAngle = [])
  rw [hnil] at hread
  cases hread

/-- The words of a pen lift are a straight motion to where the machine is, with the
pen at its upper angle. -/
theorem ofLine_of_tokens (hangle : s.penUpAngle.isFinite = true) (m : Machine) {t : Text}
    (h : Line.tokens t = s.liftWords) :
    Effect.ofLine s.penUpAngle m t = .moved (some .linear) (m.lift s.penUpAngle) := by
  unfold Effect.ofLine
  dsimp only
  split
  · -- a tool change starts with another word
    next hid =>
    have hhead := head?_tokens_of_idText? hid
    rw [h] at hhead
    cases hhead
  · have hz : ∀ m : Machine,
        Effect.word s.penUpAngle m.position m ⟨'Z', Numeral.write s.penUpAngle⟩ =
          .ok { m with z := s.penUpAngle, pen := m.pen.at s.penUpAngle s.penUpAngle } := by
      intro m
      change Except.map _ (Word.number _) = _
      rw [number_height hangle]
      rfl
    rw [Line.tokens_trimStart, h]
    unfold Effect.ofWords Settings.liftWords
    rw [Effect.words, show Effect.word s.penUpAngle m.position { m with arcCenter := m.position }
      ⟨'G', ['0', '0']⟩ = .ok { m with arcCenter := m.position } from rfl]
    dsimp only
    rw [Effect.words, hz { m with arcCenter := m.position }]
    rfl

/-- **The words of a pen lift lift the pen in place**, from any machine. -/
theorem liftsInPlace_of_tokens [Trigonometry] (hangle : s.penUpAngle.isFinite = true) (i : ℕ)
    (m : Machine) {t : Text} (h : Line.tokens t = s.liftWords) :
    (Step.ofLine s i m t).LiftsInPlace s := by
  have heffect : (Step.ofLine s i m t).effect = .moved (some .linear) (m.lift s.penUpAngle) :=
    ofLine_of_tokens hangle m h
  refine ⟨?_, ?_, ?_⟩
  · rw [Step.after, heffect]
    exact lifted_lift m hangle
  · rw [Step.after, heffect]
    rfl
  · intro node hnode
    unfold Step.nodes at hnode
    rw [heffect] at hnode
    dsimp only at hnode
    split_ifs at hnode
    · cases hnode
    · rw [List.mem_map] at hnode
      obtain ⟨t, ht, rfl⟩ := hnode
      rw [List.mem_singleton.mp ht]
      exact ⟨_, rfl⟩

/-! ### Pen lifts on glass -/

namespace Reflection

/-- What is reflected to a word of a pen lift was not changed. -/
theorem reflected?_of_mem_liftWords {keepOffsets : Bool} {w : Word}
    (h : w.reflected keepOffsets ∈ s.liftWords) : w.reflected? keepOffsets = none := by
  rw [Settings.liftWords, List.mem_pair] at h
  rcases h with h | h
  · -- a word that is reflected becomes a horizontal one or an arc
    by_contra hne
    obtain ⟨w', hw'⟩ := Option.ne_none_iff_exists'.mp hne
    have heq : w' = ⟨'G', ['0', '0']⟩ := by
      rw [← h, Word.reflected, hw', Option.getD_some]
    subst heq
    rcases Word.reflected?_cases hw' with ⟨hhor, x, -, hx⟩ | ⟨v, v', -, hv', hv⟩
    · have hletter := congrArg Word.letter hx
      rcases Word.horizontal_letter hhor with hl | hl <;> rw [hl] at hletter <;> cases hletter
    · cases hv'
      simp at hv
  · have hletter : w.letter = 'Z' := by
      rw [← Word.letter_reflected keepOffsets w, h]
    apply Word.reflected_of_letter
    rw [hletter]
    decide

/-- A line whose reflection has the words of a pen lift was not changed. -/
theorem line_of_tokens {t : Text} (h : Line.tokens (line t) = s.liftWords) : line t = t := by
  rcases line_cases t with ⟨hline, -⟩ | ⟨⟨w, hw, hreflected⟩, -⟩
  · exact hline
  · -- the reflection of each word is among the words of the pen lift
    rw [tokens_line] at h
    have hmem : w.reflected (keepsOffsets (Line.tokens t)) ∈ s.liftWords := by
      rw [← h]
      exact List.mem_map_of_mem hw
    exact absurd (reflected?_of_mem_liftWords hmem) hreflected

theorem tokens_line_of_tokens {t : Text} (h : Line.tokens t = s.liftWords) :
    Line.tokens (line t) = s.liftWords := by
  rw [tokens_line, h]
  rfl

/-- **A reflection neither hides nor makes a pen lift.** -/
theorem trim_line_eq_liftLine_iff (hangle : s.penUpAngle.isFinite = true) (t : Text) :
    Text.trim (line t) = s.liftLine ↔ Text.trim t = s.liftLine := by
  constructor
  · intro h
    rwa [line_of_tokens (tokens_of_trim hangle h)] at h
  · intro h
    rwa [line_of_tokens (tokens_line_of_tokens (tokens_of_trim hangle h))]

end Reflection

/-! ### The search -/

namespace Document

/-- The search stops at a line that is the marker, unless it finds none. -/
theorem getElem?_lastPenLift (d : Document) {line : ℕ} {marker : Text}
    (h : 2 ≤ d.lastPenLift line marker) :
    d.lines[d.lastPenLift line marker]?.map Text.trim = some (Text.trim marker) := by
  rcases d.lastPenLift_cases line marker with hfound | ⟨-, hnone⟩
  · exact hfound.1.2.2
  · omega

/-- The search goes by the lines that are the marker. -/
theorem searchDown_map {f : Text → Text} {marker : Text}
    (h : ∀ t, Text.trim (f t) = marker ↔ Text.trim t = marker) (lines : List Text) (index : ℕ) :
    searchDown (lines.map f) marker index = searchDown lines marker index := by
  induction index using Nat.twoStepInduction with
  | zero | one => rfl
  | more index _ ih =>
    have hlength : (lines.map f).length = lines.length := List.length_map f
    rcases Nat.lt_or_ge (index + 2) lines.length with hlt | hle
    · rw [searchDown_add_two hlt, searchDown_add_two (hlt.trans_eq hlength.symm), List.getElem_map]
      simp only [h, ih]
    · rw [searchDown_of_le hle, searchDown_of_le (hlength.trans_le hle), hlength]

/-- The search for pen lifts does not show whether the lines are reflected. -/
theorem lastPenLift_reflected (hangle : s.penUpAngle.isFinite = true) {d e : Document}
    (h : e.lines = Reflection.program d.lines) (line : ℕ) :
    e.lastPenLift line s.liftLine = d.lastPenLift line s.liftLine := by
  have hfind : e.findPenLift line s.liftLine = d.findPenLift line s.liftLine := by
    rw [findPenLift, findPenLift, h, Reflection.program, List.length_map, trim_liftLine hangle,
      searchDown_map (Reflection.trim_line_eq_liftLine_iff hangle)]
  rw [findPenLift_eq, findPenLift_eq] at hfind
  exact Except.ok.inj hfind

/-- A line that the search finds lifts the pen in place. -/
theorem liftsInPlace_of_lastPenLift [Trigonometry] (hangle : s.penUpAngle.isFinite = true)
    (d : Document) {line : ℕ} (h : 2 ≤ d.lastPenLift line s.liftLine) :
    ∃ t, d.lines[d.lastPenLift line s.liftLine]? = some t ∧
      ∀ m, (Step.ofLine s (d.lastPenLift line s.liftLine) m t).LiftsInPlace s := by
  have hfound : d.lines[d.lastPenLift line s.liftLine]?.map Text.trim = some s.liftLine :=
    (getElem?_lastPenLift d h).trans (congrArg some (trim_liftLine hangle))
  obtain ⟨t, ht, htrim⟩ := Option.map_eq_some_iff.mp hfound
  refine ⟨t, ht, ?_⟩
  intro m
  exact liftsInPlace_of_tokens hangle _ m (tokens_of_trim hangle htrim)

/-- The lines of a program loaded for glass are those of the program, reflected. -/
theorem lines_load_glass [Trigonometry] (d : Document) (s : Settings) (source : Source) :
    (d.load { s with reverseForGlass := true } source).2.lines =
      Reflection.program (d.load { s with reverseForGlass := false } source).2.lines := by
  cases source with
  | bytes content => rfl
  | broken content message =>
    by_cases hempty : content.isEmpty = true
    · have hlines : ∀ reverse, (Source.broken content message).lines reverse = .ok [] := by
        intro reverse
        exact if_pos hempty
      rw [load_of_ok d (hlines true), load_of_ok d (hlines false)]
      rfl
    · have hlines : ∀ reverse, (Source.broken content message).lines reverse = .error message := by
        intro reverse
        exact if_neg hempty
      rw [load_of_error d (hlines true), load_of_error d (hlines false)]
      rfl
  | missing message => rfl

/-- **The line found is a pen lift, and the same one on glass.**  From whatever
machine it is processed, among them the one that the lines in front of it leave, it
leaves the pen lifted and does not move it, and nothing but a stroke on the spot
shows of it in the toolpath. -/
theorem lastPenLift_safe [Trigonometry] (hangle : s.penUpAngle.isFinite = true) (d : Document)
    (source : Source) (line : ℕ) :
    let plain := (d.load { s with reverseForGlass := false } source).2
    let glass := (d.load { s with reverseForGlass := true } source).2
    glass.lastPenLift line s.liftLine = plain.lastPenLift line s.liftLine ∧
    ∀ e, e = plain ∨ e = glass → 2 ≤ e.lastPenLift line s.liftLine →
      ∃ t, e.lines[e.lastPenLift line s.liftLine]? = some t ∧
        (∀ m, (Step.ofLine s (e.lastPenLift line s.liftLine) m t).LiftsInPlace s) ∧
        ∃ step, (programTrace s e.lines)[e.lastPenLift line s.liftLine]? = some step ∧
          step.content = t ∧ step.LiftsInPlace s := by
  dsimp only
  refine ⟨lastPenLift_reflected hangle (lines_load_glass d s source) line, ?_⟩
  intro e _ h
  obtain ⟨t, ht, hlift⟩ := liftsInPlace_of_lastPenLift hangle e h
  refine ⟨t, ht, hlift, ?_⟩
  rw [programTrace_getElem?, ht]
  exact ⟨_, rfl, rfl, hlift _⟩

/-- A program with an arc to be reflected and, between blanks, a pen lift. -/
def resumeSample : Source :=
  .bytes ("G1 Z50\nG2 X5 I2\n G00 Z90 \nG1 X1".toList.map fun c => c.toNat.toUInt8)

/-- The program is resumed at its pen lift, also on glass. -/
theorem lastPenLift_safe_sample :
    (default : Settings).penUpAngle.isFinite = true ∧
    (load {} { (default : Settings) with reverseForGlass := true } resumeSample).2.lastPenLift 3
      (default : Settings).liftLine = 2 ∧
    ∀ m, (Step.ofLine default 2 m [' ', 'G', '0', '0', ' ', 'Z', '9', '0', ' ']).LiftsInPlace
      default := by
  have hangle : (default : Settings).penUpAngle.isFinite = true := by decide +kernel
  obtain ⟨hsame, hsafe⟩ := lastPenLift_safe hangle {} resumeSample 3
  have hfound : (load {} { (default : Settings) with reverseForGlass := false }
      resumeSample).2.lastPenLift 3 (default : Settings).liftLine = 2 := by decide +kernel
  have hline : (load {} { (default : Settings) with reverseForGlass := false }
      resumeSample).2.lines[2]? = some [' ', 'G', '0', '0', ' ', 'Z', '9', '0', ' '] := by
    decide +kernel
  obtain ⟨t, ht, hlift, -⟩ := hsafe _ (.inl rfl) hfound.ge
  rw [hfound] at ht hlift
  obtain rfl := Option.some.inj (hline.symm.trans ht)
  exact ⟨hangle, hsame.trans hfound, hlift⟩

end Document
end

end PenPlotter
