import Mathlib
import PenPlotter.Proofs.Reflection.Words
import PenPlotter.Proofs.Toolpath.Trace

/-!
# Tool changes in reflected programs

A tool change is recognised by the characters that its line starts with, one space
among them, but a reflection works on the pieces of a line and joins them by single
spaces.  The two agree on every line but one kind: a line that is no tool change only
for the blanks in it, and that is joined anew since one of its words is reflected.
Such a line becomes a tool change without a usable number.

## Main definitions

* `Effect.tool?`, `ToolChange.reading?` — a line as a tool change, with its colour.
* `ToolChange.HasPieces` — a line that starts with the two pieces of a tool change.
* `Reflection.IsRespaced` — a line that becomes a tool change for its spaces.

## Main results

* `tool?_ofLine` — what a pass takes for a tool change is read off the line alone.
* `hasPieces_of_idText?` — a tool change starts with the two pieces of one.
* `id?_of_mem_tokens` — a tool change with a word of another kind has no number.
* `reading?_line_of_hasPieces` — a line that is joined anew is a tool change by its pieces.
* `tool?_reflected` — **when a reflection keeps the reading of a tool change.**
-/

namespace PenPlotter

/-! ### Readings -/

/-- The colour that a tool change leads to, if the effect is that of a tool change; it
is missing where the tool change is passed over. -/
def Effect.tool? : Effect → Option (Option Color)
  | toolChange color => some (some color)
  | badToolId => some none
  | blank | unreadable _ | moved _ _ => none

/-- A line as a tool change: the colour of its number, if it has a usable one. -/
def ToolChange.reading? (t : Text) : Option (Option Color) :=
  (idText? (Text.trimStart t)).map fun id => (id? id).map Color.ofInt

theorem Effect.tool?_ofWords (penUpAngle : Float) (m : Machine) (ws : List Word) :
    (ofWords penUpAngle m ws).tool? = none := by
  unfold ofWords
  split_ifs
  · rfl
  · split <;> rfl

/-- **What a pass takes for a tool change is read off the line alone**, whatever the
state of the machine. -/
theorem Effect.tool?_ofLine (penUpAngle : Float) (m : Machine) (t : Text) :
    (ofLine penUpAngle m t).tool? = ToolChange.reading? t := by
  unfold ofLine ToolChange.reading?
  dsimp only
  cases ToolChange.idText? (Text.trimStart t) with
  | none => exact tool?_ofWords penUpAngle m _
  | some id =>
    dsimp only [Option.map_some]
    cases ToolChange.id? id <;> rfl

/-! ### Numbers -/

/-- A character that is no digit stands in no number. -/
theorem Text.ofDigitsFrom?_of_mem {base : ℕ} {t : Text} {c : Char} (h : c ∈ t)
    (hc : digitValue? base c = none) (n : ℕ) : ofDigitsFrom? base n t = none := by
  refine Option.eq_none_iff_forall_ne_some.mpr fun v hv => ?_
  obtain ⟨d, hd⟩ := exists_digitValue?_of_mem hv h
  rw [hc] at hd
  cases hd

theorem Text.ofDigits?_of_mem {base : ℕ} {t : Text} {c : Char} (h : c ∈ t)
    (hc : digitValue? base c = none) : ofDigits? base t = none := by
  unfold ofDigits?
  rw [ofDigitsFrom?_of_mem h hc, ite_self]

/-- A letter is no decimal digit and no sign. -/
theorem not_numeric_of_isAlpha {c : Char} (h : c.isAlpha = true) :
    Text.digitValue? 10 c = none ∧ c ≠ '+' ∧ c ≠ '-' := by
  have hrange := toNat_of_isAlpha h
  refine ⟨?_, ?_, ?_⟩
  · have h9 : ¬ ('0' ≤ c ∧ c ≤ '9') := by
      rintro ⟨-, hle⟩
      have : c.toNat ≤ 57 := Char.le_def.mp hle
      omega
    unfold Text.digitValue?
    rw [if_neg h9]
    -- letters stand for digits from ten on
    split_ifs with hlower hupper
    · have : 97 ≤ c.toNat := Char.le_def.mp hlower.1
      exact Option.filter_some_neg (by simp; omega)
    · have : 65 ≤ c.toNat := Char.le_def.mp hupper.1
      exact Option.filter_some_neg (by simp; omega)
    · rfl
  · rintro rfl
    exact absurd h (by decide)
  · rintro rfl
    exact absurd h (by decide)

namespace ToolChange

/-- A text with a letter in it is no tool number. -/
theorem id?_of_isAlpha {text : Text} {c : Char} (h : c ∈ text) (hc : c.isAlpha = true) :
    id? text = none := by
  obtain ⟨hdigit, hplus, hminus⟩ := not_numeric_of_isAlpha hc
  have hint : Text.int? text = none := by
    unfold Text.int?
    split
    · rw [Text.ofDigits?_of_mem (List.mem_of_ne_of_mem hminus h) hdigit]
      rfl
    · unfold Text.natOfBase?
      split
      · rw [Text.ofDigits?_of_mem (List.mem_of_ne_of_mem hplus h) hdigit, Option.map_none]
      · rw [Text.ofDigits?_of_mem h hdigit, Option.map_none]
  rw [id?, Text.intBetween?, hint, Option.filter_none]

/-! ### Pieces -/

/-- The line starts with the two pieces of a tool change, with any blanks between them. -/
def HasPieces (t : Text) : Prop :=
  ∃ v ps, Text.pieces (Line.code t) = ['M', '0', '6'] :: ('T' :: v) :: ps

/-- The code of a tool change behind its mark. -/
theorem exists_code_of_idText? {t id : Text} (h : idText? (Text.trimStart t) = some id) :
    ∃ rest, Line.code (Text.trimStart t) = mark ++ rest ∧ id = Text.trim rest := by
  obtain ⟨rest, hrest, rfl⟩ := Option.map_eq_some_iff.mp h
  refine ⟨Line.code rest, ?_, rfl⟩
  rw [after?_eq_some hrest]
  rfl

/-- **A tool change starts with the two pieces of one.** -/
theorem hasPieces_of_idText? {t id : Text} (h : idText? (Text.trimStart t) = some id) :
    HasPieces t := by
  obtain ⟨rest, hcode, -⟩ := exists_code_of_idText? h
  have hpiece : Text.IsPiece ['M', '0', '6'] := .cons rfl (by simp; exact ⟨rfl, rfl⟩)
  obtain ⟨v, ps, hpieces⟩ := Text.exists_pieces_cons (c := 'T') rfl rest
  refine ⟨v, ps, ?_⟩
  rw [← Text.pieces_trimStart, ← Line.code_trimStart, hcode, ← hpieces]
  exact Text.pieces_append_blank hpiece isBlank_space _

/-- **A tool change that holds a word of another kind has no number.** -/
theorem id?_of_mem_tokens {t id : Text} (h : idText? (Text.trimStart t) = some id) {w : Word}
    (hw : w ∈ Line.tokens t) (hM : w.letter ≠ 'M') (hT : w.letter ≠ 'T') : id? id = none := by
  obtain ⟨rest, hcode, rfl⟩ := exists_code_of_idText? h
  obtain ⟨p, hp, hword⟩ := List.mem_filterMap.mp hw
  rw [← Text.pieces_trimStart, ← Line.code_trimStart, hcode] at hp
  cases p with
  | nil => cases hword
  | cons c value =>
    rw [Word.ofPiece?, Option.ite_none_right_eq_some] at hword
    obtain ⟨hc, rfl⟩ := hword.imp_right Option.some.inj
    have hmem : c ∈ mark ++ rest := Text.mem_of_mem_pieces hp List.mem_cons_self
    -- the letter of the word stands behind the mark, whose own letters it is not
    have hmark : c ∉ mark := by
      intro hmark
      simp only [mark, List.mem_cons, List.not_mem_nil, or_false] at hmark
      rcases hmark with rfl | rfl | rfl | rfl | rfl
      · exact hM rfl
      · cases hc
      · cases hc
      · cases hc
      · exact hT rfl
    have hrest := (List.mem_append.mp hmem).resolve_left hmark
    exact id?_of_isAlpha (Text.mem_trim hrest (not_isBlank_of_isAlpha hc)) hc

end ToolChange

namespace Reflection

open ToolChange

/-- A word that is reflected is none of a tool change. -/
theorem letter_of_reflected? {keepOffsets : Bool} {w w' : Word}
    (h : w.reflected? keepOffsets = some w') :
    (w.letter ≠ 'M' ∧ w.letter ≠ 'T') ∧ w'.letter = w.letter := by
  rcases Word.reflected?_cases h with ⟨hhor, x, -, rfl⟩ | ⟨v, v', rfl, rfl, -⟩
  · refine ⟨?_, rfl⟩
    rcases Word.horizontal_letter hhor with hl | hl <;> rw [hl] <;> decide
  · exact ⟨⟨(by decide : 'G' ≠ 'M'), (by decide : 'G' ≠ 'T')⟩, rfl⟩

/-- The pieces of a tool change stay, and no other piece becomes one of them. -/
theorem newPiece_eq_iff {keepOffsets : Bool} {p : Text} {c : Char} {v : Text}
    (hc : c = 'M' ∨ c = 'T') : newPiece keepOffsets p = c :: v ↔ p = c :: v := by
  unfold newPiece
  cases hq : piece? keepOffsets p with
  | none => rw [Option.getD_none]
  | some q =>
    obtain ⟨w, w', hw, hreflected, rfl⟩ := exists_of_piece? hq
    obtain ⟨⟨hM, hT⟩, hletter⟩ := letter_of_reflected? hreflected
    rw [Option.getD_some]
    constructor
    · intro h
      have hl : w.letter = c := hletter ▸ (List.cons.inj h).1
      rcases hc with rfl | rfl
      · exact absurd hl hM
      · exact absurd hl hT
    · rintro rfl
      rcases hc with rfl | rfl <;> cases hw
      · exact absurd rfl hM
      · exact absurd rfl hT

theorem hasPieces_line (t : Text) : HasPieces (line t) ↔ HasPieces t := by
  unfold HasPieces
  rw [(pieces_line t).1, newPieces]
  simp only [List.map_eq_cons_iff]
  constructor
  · rintro ⟨v, ps, p, qs, hpieces, hp, q, rs, rfl, hq, -⟩
    rw [newPiece_eq_iff (.inl rfl)] at hp
    rw [newPiece_eq_iff (.inr rfl)] at hq
    exact ⟨v, rs, by rw [hpieces, hp, hq]⟩
  · rintro ⟨v, ps, hpieces⟩
    exact ⟨v, _, _, _, hpieces, (newPiece_eq_iff (.inl rfl)).mpr rfl, _, _, rfl,
      (newPiece_eq_iff (.inr rfl)).mpr rfl, rfl⟩

/-- A line that is joined anew from the pieces of a tool change starts as one. -/
theorem exists_line_eq_mark_append {t : Text} (h : HasPieces t) (hchanges : Changes t) :
    ∃ rest, line t = mark ++ rest := by
  obtain ⟨v, ps, hpieces⟩ := (hasPieces_line t).mpr h
  obtain ⟨u, hjoined⟩ := Text.exists_joined_cons 'T' v ps
  have hstart : Text.joined (newPieces t) = mark ++ u := by
    rw [← (pieces_line t).1, hpieces, Text.joined_cons_cons, hjoined]
    rfl
  rw [line_of_changes hchanges, hstart]
  cases Line.comment? t with
  | none => exact ⟨u, rfl⟩
  | some comment => exact ⟨u ++ ' ' :: ';' :: comment, List.append_assoc _ _ _⟩

/-- **A line that is joined anew from the pieces of a tool change is one**, and it has no
usable number. -/
theorem reading?_line_of_hasPieces {t : Text} (h : HasPieces t) (hchanges : Changes t) :
    reading? (line t) = some none := by
  obtain ⟨rest, hline⟩ := exists_line_eq_mark_append h hchanges
  have hid : idText? (Text.trimStart (line t)) = some (Text.trim (Line.code rest)) := by
    have hafter : Text.after? mark (mark ++ rest) = some rest := rfl
    rw [hline, mark, List.cons_append, Text.trimStart_cons_of_not_blank rfl, ← List.cons_append,
      ← mark, idText?, hafter, Option.map_some]
  obtain ⟨w, hw, hreflected⟩ := hchanges
  obtain ⟨w', hw'⟩ := Option.ne_none_iff_exists'.mp hreflected
  obtain ⟨hM, hT⟩ := (letter_of_reflected? hw').1
  have hmem : w.reflected (keepsOffsets (Line.tokens t)) ∈ Line.tokens (line t) := by
    rw [tokens_line]
    exact List.mem_map_of_mem hw
  have hnone := id?_of_mem_tokens hid hmem (by rwa [Word.letter_reflected])
    (by rwa [Word.letter_reflected])
  rw [reading?, hid, Option.map_some, hnone, Option.map_none]

/-- A tool change with a reflected word has no usable number either. -/
theorem reading?_of_changes {t : Text} (hchanges : Changes t) :
    reading? t = none ∨ reading? t = some none := by
  obtain ⟨w, hw, hreflected⟩ := hchanges
  obtain ⟨w', hw'⟩ := Option.ne_none_iff_exists'.mp hreflected
  obtain ⟨hM, hT⟩ := (letter_of_reflected? hw').1
  unfold reading?
  cases hid : idText? (Text.trimStart t) with
  | none => exact .inl rfl
  | some id => exact .inr (by rw [Option.map_some, id?_of_mem_tokens hid hw hM hT, Option.map_none])

/-! ### Lines that become tool changes -/

/-- A line that becomes a tool change for its spaces: it starts with the pieces of one,
is none for the blanks between them, and is joined anew by its reflection. -/
structure IsRespaced (t : Text) : Prop where
  pieces : HasPieces t
  spaces : idText? (Text.trimStart t) = none
  changes : Changes t

theorem reading?_line_of_isRespaced {t : Text} (h : IsRespaced t) :
    reading? t = none ∧ reading? (line t) = some none := by
  refine ⟨?_, reading?_line_of_hasPieces h.pieces h.changes⟩
  rw [reading?, h.spaces, Option.map_none]

theorem reading?_line {t : Text} (h : ¬ IsRespaced t) : reading? (line t) = reading? t := by
  by_cases hchanges : Changes t
  · cases hid : idText? (Text.trimStart t) with
    | some id =>
      -- a tool change stays one, without a number on both sides
      rw [reading?_line_of_hasPieces (hasPieces_of_idText? hid) hchanges]
      refine ((reading?_of_changes hchanges).resolve_left ?_).symm
      rw [reading?, hid]
      exact Option.some_ne_none _
    | none =>
      -- the pieces of a tool change are not there, and do not appear
      have hpieces : ¬ HasPieces (line t) := by
        rw [hasPieces_line]
        intro hpieces
        exact h ⟨hpieces, hid, hchanges⟩
      have hline : idText? (Text.trimStart (line t)) = none := by
        rw [Option.eq_none_iff_forall_ne_some]
        intro id hid
        exact hpieces (hasPieces_of_idText? hid)
      rw [reading?, reading?, hline, hid]
  · rw [(line_of_not_changes hchanges).1]

end Reflection

/-- **A reflection keeps how a pass reads a tool change**, with its colour or without
one, on every line that does not become a tool change for its spaces.  A line that does
is a move or nothing before, and is passed over as a tool change without a usable number
behind the reflection: none ever gets a colour. -/
theorem tool?_reflected (penUpAngle : Float) (m n : Machine) (t : Text) :
    (¬ Reflection.IsRespaced t →
      (Effect.ofLine penUpAngle n (Reflection.line t)).tool? =
        (Effect.ofLine penUpAngle m t).tool?) ∧
    (Reflection.IsRespaced t → (Effect.ofLine penUpAngle m t).tool? = none ∧
      (Effect.ofLine penUpAngle n (Reflection.line t)).tool? = some none) := by
  rw [Effect.tool?_ofLine, Effect.tool?_ofLine]
  exact ⟨Reflection.reading?_line, Reflection.reading?_line_of_isRespaced⟩

/-- The pieces of a tool change with one space between them, and a reflected word. -/
def Reflection.narrowChange : Text := ['M', '0', '6', ' ', 'T', '5', ' ', 'X', '1']

/-- The same pieces with one space more. -/
def Reflection.wideChange : Text := ['M', '0', '6', ' ', ' ', 'T', '5', ' ', 'X', '1']

theorem tool?_reflected_sample :
    (¬ Reflection.IsRespaced Reflection.narrowChange ∧
      (Effect.ofLine 90 (Machine.zeroed default) (Reflection.line Reflection.narrowChange)).tool? =
        (Effect.ofLine 90 (Machine.zeroed default) Reflection.narrowChange).tool?) ∧
    (Reflection.IsRespaced Reflection.wideChange ∧
      (Effect.ofLine 90 (Machine.zeroed default) Reflection.wideChange).tool? = none ∧
      (Effect.ofLine 90 (Machine.zeroed default)
        (Reflection.line Reflection.wideChange)).tool? = some none) := by
  have hnarrow : ¬ Reflection.IsRespaced Reflection.narrowChange := by
    intro h
    exact absurd h.spaces (by decide)
  have hwide : Reflection.IsRespaced Reflection.wideChange :=
    ⟨⟨['5'], [['X', '1']], by decide⟩, by decide, ⟨'X', ['1']⟩, by decide, by decide⟩
  exact ⟨⟨hnarrow, (tool?_reflected 90 _ _ _).1 hnarrow⟩, hwide, (tool?_reflected 90 _ _ _).2 hwide⟩

/-- One space more makes a tool change of a reflected line that was a move: its position
is lost with it. -/
theorem tool?_reflected_fails :
    let plain := Effect.ofLine 90 (Machine.zeroed default) Reflection.wideChange
    let reflected := Effect.ofLine 90 (Machine.zeroed default) (Reflection.line Reflection.wideChange)
    plain.tool? = none ∧ (plain.machine (Machine.zeroed default)).position.x = 1 ∧
      reflected.tool? = some none ∧
      (reflected.machine (Machine.zeroed default)).position.x = 0 := by
  decide +kernel

end PenPlotter
