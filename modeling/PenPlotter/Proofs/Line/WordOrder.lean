import Mathlib
import PenPlotter.Proofs.Estimate.Truncated

/-!
# The order of words

Words that set different quantities do not look at each other: a place is set from the
place before it on the same axis, a centre from the start of the line, and rates from
nothing.  Only `G` words change what the numbers behind them mean.  So behind its first
word, which alone can select a motion, the words of a line can stand in any order, as
long as there are no `G` words among them and no letter comes twice.  For the compiler
this holds even if a number cannot be read, since it then gives up the whole line.  The
estimate keeps what it has read in front of such a word, so for it all numbers must be
there.

## Main definitions

* `readAll` — words read one by one into a state, as long as they can be read.
* `SetsQuantities` — a way of reading words that sets one quantity for each letter.
* `Line.Reorders` — a line with the words of another one in another order.

## Main results

* `readAll_perm` — words with different letters can be read in any order.
* `effect_setsQuantities`, `reading_setsQuantities` — both passes set one quantity for
  each letter.
* `reordered_line` — **the order of the words behind the first one does not matter.**
-/

namespace PenPlotter

/-! ### Words in any order -/

section

variable {σ : Type*} {read : σ → Word → Option σ} {set : σ → Float → Quantity → σ}

/-- Words read one by one into a state, as long as they can be read. -/
def readAll (read : σ → Word → Option σ) (s : Option σ) (ws : List Word) : Option σ :=
  ws.foldl (fun s w => s.bind (read · w)) s

@[simp] theorem readAll_cons (s : σ) (w : Word) (ws : List Word) :
    readAll read (some s) (w :: ws) = readAll read (read s w) ws := rfl

theorem readAll_append (s : Option σ) (front rest : List Word) :
    readAll read s (front ++ rest) = readAll read (readAll read s front) rest := List.foldl_append

@[simp] theorem readAll_none (ws : List Word) : readAll read none ws = none := by
  induction ws with
  | nil => rfl
  | cons w ws ih => exact ih

/-- The way of reading passes over a word that is no `G` word, or it sets the quantity
with the letter of the word to its number.  Different quantities are set independently. -/
structure SetsQuantities (read : σ → Word → Option σ) (set : σ → Float → Quantity → σ) : Prop where
  word : ∀ w : Word, w.letter ≠ 'G' → (∀ s, read s w = some s) ∨
    ∃ q : Quantity, w.letter = q.letter ∧ ∀ s, read s w = w.number.toOption.map (set s · q)
  comm : ∀ {q q' : Quantity}, q ≠ q' → ∀ s v v', set (set s v q) v' q' = set (set s v' q') v q

/-- Two words with different letters can be read in both orders. -/
theorem SetsQuantities.bind_comm (h : SetsQuantities read set) {w w' : Word}
    (hw : w.letter ≠ 'G') (hw' : w'.letter ≠ 'G') (hne : w.letter ≠ w'.letter) (s : σ) :
    (read s w).bind (read · w') = (read s w').bind (read · w) := by
  obtain hpass | ⟨q, hq, hset⟩ := h.word w hw
  · simp only [hpass, Option.bind_some, Option.bind_fun_some]
  obtain hpass | ⟨q', hq', hset'⟩ := h.word w' hw'
  · simp only [hpass, Option.bind_some, Option.bind_fun_some]
  have hquantity : q ≠ q' := by
    rintro rfl
    exact hne (hq.trans hq'.symm)
  simp only [hset, hset']
  cases w.number.toOption with
  | none => simp
  | some v =>
    cases w'.number.toOption with
    | none => rfl
    | some v' => exact congrArg some (h.comm hquantity s v v')

/-- **Words with different letters can be read in any order**, if there are no `G` words. -/
theorem readAll_perm (h : SetsQuantities read set) {ws vs : List Word} (hperm : ws.Perm vs)
    (hG : ∀ w ∈ ws, w.letter ≠ 'G') (hletters : (ws.map Word.letter).Nodup) (s : Option σ) :
    readAll read s ws = readAll read s vs := by
  refine hperm.foldl_eq' ?_ s
  intro w hw w' hw' s
  obtain rfl | hne := eq_or_ne w w'
  · rfl
  have hletter : w.letter ≠ w'.letter := fun h => hne (List.inj_on_of_nodup_map hletters hw hw' h)
  cases s with
  | none => rfl
  | some s => exact h.bind_comm (hG w hw) (hG w' hw') hletter s

end

/-! ### Both passes -/

/-- A word that is no `G` word sets the quantity with its letter, or asks for nothing. -/
theorem Word.command_of_letter_ne {w : Word} (hG : w.letter ≠ 'G') :
    w.command = .other ∨ ∃ q, w.command = .assign q := by
  unfold command
  split
  · next hletter => exact absurd hletter hG
  all_goals simp

/-- A quantity is set from itself, from the units and from the start of the line. -/
theorem Effect.assign_comm (penUpAngle : Float) (start : Point) {q q' : Quantity} (h : q ≠ q')
    (m : Machine) (v v' : Float) :
    assign penUpAngle start (assign penUpAngle start m v q) v' q' =
      assign penUpAngle start (assign penUpAngle start m v' q') v q := by
  cases q <;> cases q' <;> first | exact absurd rfl h | rfl

/-- **The compiler sets one quantity for each letter**, and passes over rates. -/
theorem effect_setsQuantities (penUpAngle : Float) (start : Point) :
    SetsQuantities (fun m w => (Effect.word penUpAngle start m w).toOption)
      (Effect.assign penUpAngle start) where
  word := by
    intro w hG
    unfold Effect.word
    obtain hother | ⟨q, hassign⟩ := Word.command_of_letter_ne hG
    · rw [hother]
      exact .inl fun m => rfl
    rw [hassign]
    dsimp only
    cases hrate : q.isRate with
    | true => exact .inl fun m => rfl
    | false =>
      refine .inr ⟨q, Word.letter_of_assign hassign, fun m => ?_⟩
      cases w.number <;> rfl
  comm := fun h m v v' => Effect.assign_comm penUpAngle start h m v v'

/-- A quantity leaves the units that the other numbers count in. -/
theorem Reading.scale_assign (m : Machine) (t : Destination) (v : Float) (q : Quantity) :
    (assign m t v q).1.scale = m.scale := by
  unfold assign
  cases q with
  | feedRate => dsimp only; split_ifs <;> rfl
  | acceleration => dsimp only; split_ifs <;> rfl
  | _ => rfl

/-- A rate or a target is set from its value and the position before the line. -/
theorem Reading.assign_comm {q q' : Quantity} (h : q ≠ q') (m : Machine) (t : Destination)
    (v v' : Float) :
    assign (assign m t v q).1 (assign m t v q).2 v' q' =
      assign (assign m t v' q').1 (assign m t v' q').2 v q := by
  unfold assign
  cases q <;> cases q' <;> first | exact absurd rfl h | rfl | (dsimp only; split_ifs <;> rfl)

/-- **The estimate sets one quantity for each letter.** -/
theorem reading_setsQuantities :
    SetsQuantities (fun r w => (Reading.word r.1 r.2 w).toOption)
      (fun r v q => Reading.assign r.1 r.2 (v * r.1.scale) q) where
  word := by
    intro w hG
    unfold Reading.word
    obtain hother | ⟨q, hassign⟩ := Word.command_of_letter_ne hG
    · rw [hother]
      exact .inl fun r => rfl
    rw [hassign]
    refine .inr ⟨q, Word.letter_of_assign hassign, fun r => ?_⟩
    cases w.number <;> rfl
  comm := by
    intro q q' h r v v'
    simp only [Reading.scale_assign]
    exact Reading.assign_comm h r.1 r.2 _ _

/-- Results without their errors are the same if the results are, or if both are errors. -/
theorem eq_or_errors_of_toOption {ε α : Type*} {x y : Except ε α}
    (h : x.toOption = y.toOption) : x = y ∨ (∃ e, x = .error e) ∧ ∃ e, y = .error e := by
  cases x with
  | error e =>
    cases y with
    | error e' => exact .inr ⟨⟨e, rfl⟩, e', rfl⟩
    | ok b => cases h
  | ok a =>
    cases y with
    | error e => cases h
    | ok b => cases h; exact .inl rfl

/-- The compiler gives up a line unless all its words can be read. -/
theorem toOption_words (penUpAngle : Float) (start : Point) (m : Machine) (ws : List Word) :
    (Effect.words penUpAngle start m ws).toOption =
      readAll (fun m w => (Effect.word penUpAngle start m w).toOption) (some m) ws := by
  induction ws generalizing m with
  | nil => rfl
  | cons w rest ih =>
    rw [Effect.words, readAll_cons]
    cases Effect.word penUpAngle start m w with
    | error cause => exact (readAll_none rest).symm
    | ok next => exact ih next

/-- What the estimate comes to on words that can all be read. -/
theorem readAll_of_failure {m : Machine} {t : Destination} {ws : List Word}
    (h : (Reading.ofWords m t ws).failure = none) :
    readAll (fun r w => (Reading.word r.1 r.2 w).toOption) (some (m, t)) ws =
      some ((Reading.ofWords m t ws).machine, (Reading.ofWords m t ws).destination) := by
  induction ws generalizing m t with
  | nil => rfl
  | cons w rest ih =>
    rw [readAll_cons]
    unfold Reading.ofWords at h ⊢
    cases hword : Reading.word m t w with
    | error cause => rw [hword] at h; cases h
    | ok next =>
      rw [hword] at h
      exact ih h

/-! ### Lines -/

/-- The lines have the same first word, which does not make them tool changes, and the
same words behind it, in any order.  Those are no `G` words, and have different letters. -/
structure Line.Reorders (line other : Text) : Prop where
  first : (Line.tokens line).head? = (Line.tokens other).head?
  toolChange : (Line.tokens line).head? ≠ some ⟨'M', ['0', '6']⟩
  rest : (Line.tokens line).tail.Perm (Line.tokens other).tail
  noG : ∀ w ∈ (Line.tokens line).tail, w.letter ≠ 'G'
  letters : ((Line.tokens line).tail.map Word.letter).Nodup

namespace Line.Reorders

variable {line other : Text}

theorem exists_front (h : Line.Reorders line other) : ∃ front,
    Line.tokens line = front ++ (Line.tokens line).tail ∧
      Line.tokens other = front ++ (Line.tokens other).tail := by
  have hfirst := h.first
  cases hline : Line.tokens line with
  | nil =>
    rw [hline] at hfirst
    rw [List.head?_eq_none_iff.mp hfirst.symm]
    exact ⟨[], rfl, rfl⟩
  | cons w ws =>
    rw [hline] at hfirst
    exact ⟨[w], rfl, List.eq_cons_of_mem_head? hfirst.symm⟩

/-- The lines have the same words. -/
theorem perm (h : Line.Reorders line other) : (Line.tokens line).Perm (Line.tokens other) := by
  obtain ⟨front, hline, hother⟩ := h.exists_front
  rw [hline, hother]
  exact h.rest.append_left front

/-- The lines have the same motion, if any. -/
theorem motion_eq (h : Line.Reorders line other) :
    (Line.ofText line).motion = (Line.ofText other).motion := by
  unfold Line.motion
  rw [Line.words_ofText, Line.words_ofText, h.first]

/-- A pass that sets one quantity for each letter comes to the same on both lines. -/
theorem readAll_eq (h : Line.Reorders line other) {σ : Type*} {read : σ → Word → Option σ}
    {set : σ → Float → Quantity → σ} (hread : SetsQuantities read set) (s : Option σ) :
    readAll read s (Line.tokens line) = readAll read s (Line.tokens other) := by
  obtain ⟨front, hline, hother⟩ := h.exists_front
  rw [hline, hother, readAll_append, readAll_append]
  exact readAll_perm hread h.rest h.noG h.letters _

/-- **The lines have the same effect on every machine**, or neither can be read. -/
theorem ofLine_eq (h : Line.Reorders line other) (penUpAngle : Float) (m : Machine) :
    Effect.ofLine penUpAngle m line = Effect.ofLine penUpAngle m other ∨
      Line.IsDropped line ∧ Line.IsDropped other := by
  have hline := idText?_eq_none_of_head? h.toolChange
  have hother := idText?_eq_none_of_head? (h.first ▸ h.toolChange)
  have hwords : (Effect.words penUpAngle m.position { m with arcCenter := m.position }
      (Line.tokens line)).toOption = (Effect.words penUpAngle m.position
        { m with arcCenter := m.position } (Line.tokens other)).toOption := by
    rw [toOption_words, toOption_words, h.readAll_eq (effect_setsQuantities penUpAngle _)]
  obtain hsame | ⟨⟨cause, hread⟩, cause', hread'⟩ := eq_or_errors_of_toOption hwords
  · left
    rw [ofLine_of_idText? hline, ofLine_of_idText? hother]
    unfold Effect.ofWords
    rw [h.first, h.perm.isEmpty_eq, hsame]
  · -- the first words that fail can be different ones
    right
    rw [isDropped_iff penUpAngle m, isDropped_iff penUpAngle m]
    exact ⟨.inr ⟨cause, Effect.ofLine_eq_unreadable_iff.mpr ⟨hline, words_eq_error_iff.mp hread⟩⟩,
      .inr ⟨cause', Effect.ofLine_eq_unreadable_iff.mpr ⟨hother, words_eq_error_iff.mp hread'⟩⟩⟩

theorem reads (h : Line.Reorders line other)
    (hread : ∀ w ∈ Line.tokens line, ¬ w.Fails numberLetters) :
    ∀ w ∈ Line.tokens other, ¬ w.Fails numberLetters := by
  intro w hw
  exact hread w (h.perm.mem_iff.mpr hw)

/-- The estimate reads the lines alike if it can read all of one of them. -/
theorem reading_eq (h : Line.Reorders line other)
    (hread : ∀ w ∈ Line.tokens line, ¬ w.Fails numberLetters) (m : Machine) :
    Reading.ofLine m line = Reading.ofLine m other := by
  have hline : (Reading.ofLine m line).failure = none :=
    (failure_ofLine m line).trans (Line.failure?_eq_none_iff.mpr hread)
  have hother : (Reading.ofLine m other).failure = none :=
    (failure_ofLine m other).trans (Line.failure?_eq_none_iff.mpr (h.reads hread))
  have hsame := h.readAll_eq reading_setsQuantities (some (m, Destination.ofMachine m))
  rw [readAll_of_failure hline, readAll_of_failure hother, Option.some.injEq, Prod.mk.injEq]
    at hsame
  calc Reading.ofLine m line
      = ⟨(Reading.ofLine m line).machine, (Reading.ofLine m line).destination, none⟩ := by
        rw [← hline]
    _ = ⟨(Reading.ofLine m other).machine, (Reading.ofLine m other).destination, none⟩ := by
        unfold Reading.ofLine
        rw [hsame.1, hsame.2]
    _ = Reading.ofLine m other := by
        rw [← hother]

theorem line_eq [Trigonometry] (h : Line.Reorders line other)
    (hread : ∀ w ∈ Line.tokens line, ¬ w.Fails numberLetters) (s : Settings) (t : Tally) :
    t.line s line = t.line s other := by
  unfold Tally.line
  rw [h.reading_eq hread, h.motion_eq]

end Line.Reorders

section

variable [Trigonometry]

/-- **The order of the words behind the first one does not matter.**  If they have
different letters and are no `G` words, a line with the same words in another order can
stand for the line.  The toolpath of the program is the same, whether or not the line
can be read.  So is the estimate, if each word of the line that needs a number has one. -/
theorem reordered_line (s : Settings) (pre suf : List Text) {line other : Text}
    (h : Line.Reorders line other) :
    compile s (pre ++ line :: suf) = compile s (pre ++ other :: suf) ∧
    ((∀ w ∈ Line.tokens line, ¬ w.Fails numberLetters) →
      estimate s (pre ++ line :: suf) = estimate s (pre ++ other :: suf)) := by
  refine ⟨compile_exchange s pre suf ?_ ?_, ?_⟩
  · intro index m
    obtain heffect | ⟨hline, hother⟩ := h.ofLine_eq s.penUpAngle m
    · unfold Step.nodes Step.ofLine
      dsimp only
      rw [heffect]
    · rw [(Step.ofLine_of_isDropped hline s index m).1, (Step.ofLine_of_isDropped hother s index m).1]
  · intro m
    obtain heffect | ⟨hline, hother⟩ := h.ofLine_eq s.penUpAngle m
    · unfold Machine.next
      rw [heffect]
    · rw [(Step.ofLine_of_isDropped hline s 0 m).2, (Step.ofLine_of_isDropped hother s 0 m).2]
  · intro hread
    have hstats := stats_exchange s pre suf (h.line_eq hread s)
    have hdiagnostics : (estimate s (pre ++ line :: suf)).diagnostics =
        (estimate s (pre ++ other :: suf)).diagnostics := by
      obtain ⟨before, after, hentries⟩ := exists_diagnostics_around s pre suf
      rw [hentries, hentries, Line.diagnostic?, Line.diagnostic?,
        Line.failure?_eq_none_iff.mpr hread, Line.failure?_eq_none_iff.mpr (h.reads hread)]
      rfl
    exact congrArg₂ Estimate.mk hstats hdiagnostics

end

/-- A line with a rate, a place on both axes, a height and a centre behind its first word. -/
def Line.orderSample : Text :=
  ['G', '2', ' ', 'X', '4', ' ', 'Y', '1', ' ', 'I', '2', ' ', 'Z', '9', ' ', 'F', '9']

/-- The same words in another order and in lower case. -/
def Line.otherOrderSample : Text :=
  ['g', '2', ' ', 'f', '9', ' ', 'i', '2', ' ', 'y', '1', '\t', 'z', '9', ' ', 'x', '4', ';']

theorem reordered_line_sample :
    (Line.Reorders Line.orderSample Line.otherOrderSample ∧
      ∀ w ∈ Line.tokens Line.orderSample, ¬ w.Fails numberLetters) ∧
    compile default ([['G', '9', '1']] ++ Line.orderSample :: [['X', '1']]) =
      compile default ([['G', '9', '1']] ++ Line.otherOrderSample :: [['X', '1']]) ∧
    estimate default ([['G', '9', '1']] ++ Line.orderSample :: [['X', '1']]) =
      estimate default ([['G', '9', '1']] ++ Line.otherOrderSample :: [['X', '1']]) := by
  have h : Line.Reorders Line.orderSample Line.otherOrderSample :=
    ⟨by decide, by decide, by decide, by decide, by decide⟩
  have hread : ∀ w ∈ Line.tokens Line.orderSample, ¬ w.Fails numberLetters :=
    Line.failure?_eq_none_iff.mp rfl
  obtain ⟨hcompile, hestimate⟩ := reordered_line default [['G', '9', '1']] [['X', '1']] h
  exact ⟨⟨h, hread⟩, hcompile, hestimate hread⟩

end PenPlotter
