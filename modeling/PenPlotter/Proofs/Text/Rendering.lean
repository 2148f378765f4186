import Mathlib
import PenPlotter.Proofs.Text.Pieces

/-!
# Lines written out

A line can be written in many ways: the letter of a word in either case, any blanks
around the words and at least one between them, and a comment behind a semicolon.
All of them are read as the same words and the same comment, and a line that holds
nothing but words is one of the ways to write what is read from it.

## Main definitions

* `Text.Spaced` — pieces in order with a gap of blanks behind each.
* `Word.IsProper`, `Word.Spells` — a word that a line can hold, and the ways to spell it.
* `Line.Renders` — a text that shows the words and the comment of a line.

## Main results

* `pieces_eq_iff` — **the pieces of a text are those it lays out between blanks.**
* `isProper_of_mem_tokens` — the words of a line can be written again.
* `ofText_of_renders`, `renders_ofText` — what is written is read back, and what is read
  is one of the ways to write it.
* `ofText_rendering` — **reading undoes writing.**
-/

namespace PenPlotter

/-! ### Pieces and gaps -/

namespace Text

/-- Nothing but blanks. -/
def Blanks (t : Text) : Prop := ∀ c ∈ t, isBlank c = true

@[simp] theorem blanks_nil : Blanks [] := by simp [Blanks]

@[simp] theorem blanks_cons (c : Char) (t : Text) :
    Blanks (c :: t) ↔ isBlank c = true ∧ Blanks t := by simp [Blanks]

/-- Pieces in order, each with a gap of blanks behind it.  The gap is not empty where
another piece follows. -/
inductive Spaced : List Text → Text → Prop
  | nil : Spaced [] []
  | cons {p gap : Text} {ps : List Text} {t : Text} (hgap : Blanks gap) (hne : ps ≠ [] → gap ≠ [])
      (h : Spaced ps t) : Spaced (p :: ps) (p ++ gap ++ t)

/-- Pieces that are laid out with gaps are found again. -/
theorem pieces_of_spaced {ps : List Text} {t : Text} (hps : ∀ p ∈ ps, IsPiece p)
    (h : Spaced ps t) : pieces t = ps := by
  induction h with
  | nil => rfl
  | @cons p gap ps t hgap hne h ih =>
    obtain ⟨hp, hps⟩ := List.forall_mem_cons.mp hps
    cases gap with
    | nil =>
      -- only the last piece has no gap behind it
      by_cases hlast : ps = []
      · subst hlast
        cases h
        simp [pieces_of_isPiece hp]
      · exact absurd rfl (hne hlast)
    | cons c gap =>
      rw [blanks_cons] at hgap
      rw [List.append_assoc, List.cons_append, pieces_append_blank hp hgap.1,
        pieces_blanks_append hgap.2, ih hps]

/-- Every text lays out some pieces, with blanks in front of the first. -/
theorem exists_spaced (t : Text) : ∃ ps front body, t = front ++ body ∧ (∀ p ∈ ps, IsPiece p) ∧
    Blanks front ∧ Spaced ps body := by
  induction t with
  | nil => exact ⟨[], [], [], rfl, by simp, by simp, .nil⟩
  | cons c t ih =>
    obtain ⟨ps, front, body, rfl, hps, hfront, hbody⟩ := ih
    by_cases hc : isBlank c = true
    · exact ⟨ps, c :: front, body, rfl, hps, by simp [hc, hfront], hbody⟩
    · rw [Bool.not_eq_true] at hc
      cases front with
      | cons b front =>
        -- a piece of its own, with the blanks in front of the others behind it
        refine ⟨[c] :: ps, [], [c] ++ (b :: front) ++ body, by simp, ?_, by simp, ?_⟩
        · simpa [isPiece_singleton hc] using hps
        · exact .cons hfront (by simp) hbody
      | nil =>
        cases hbody with
        | nil => exact ⟨[[c]], [], [c] ++ [] ++ [], by simp, by simp [isPiece_singleton hc], by simp,
            .cons blanks_nil (by simp) .nil⟩
        | @cons p gap ps t hgap hne h =>
          -- the first character of the first piece
          obtain ⟨hp, hps⟩ := List.forall_mem_cons.mp hps
          refine ⟨(c :: p) :: ps, [], (c :: p) ++ gap ++ t, by simp, ?_, by simp, .cons hgap hne h⟩
          intro q hq
          rcases List.mem_cons.mp hq with rfl | hq
          · exact .cons hc hp.2
          · exact hps q hq

/-- **The pieces of a text are those that it lays out between blanks.** -/
theorem pieces_eq_iff {t : Text} {ps : List Text} : pieces t = ps ↔
    (∀ p ∈ ps, IsPiece p) ∧ ∃ front body, t = front ++ body ∧ Blanks front ∧ Spaced ps body := by
  have hread : ∀ {qs : List Text} {front body : Text}, (∀ p ∈ qs, IsPiece p) → Blanks front →
      Spaced qs body → pieces (front ++ body) = qs := by
    intro qs front body hqs hfront hbody
    rw [pieces_blanks_append hfront, pieces_of_spaced hqs hbody]
  constructor
  · rintro rfl
    obtain ⟨qs, front, body, rfl, hqs, hfront, hbody⟩ := exists_spaced t
    rw [hread hqs hfront hbody]
    exact ⟨hqs, front, body, rfl, hfront, hbody⟩
  · rintro ⟨hps, front, body, rfl, hfront, hbody⟩
    exact hread hps hfront hbody

/-- The characters of what is laid out are blanks and characters of the pieces. -/
theorem mem_of_spaced {ps : List Text} {t : Text} (h : Spaced ps t) {c : Char} (hc : c ∈ t) :
    isBlank c = true ∨ ∃ p ∈ ps, c ∈ p := by
  induction h with
  | nil => simp at hc
  | cons hgap hne h ih =>
    simp only [List.mem_append] at hc
    rcases hc with (hc | hc) | hc
    · exact .inr ⟨_, by simp, hc⟩
    · exact .inl (hgap c hc)
    · rcases ih hc with hc | ⟨p, hp, hc⟩
      · exact .inl hc
      · exact .inr ⟨p, by simp [hp], hc⟩

end Text

/-! ### Words -/

namespace Word

/-- A word that a line can hold: its letter is one of `A` to `Z`, and in its value there
is neither a blank nor a semicolon. -/
structure IsProper (w : Word) : Prop where
  letter : w.letter.isUpper = true
  value : ∀ c ∈ w.value, isBlank c = false ∧ c ≠ ';'

/-- The text is the value of the word behind its letter, in either case. -/
def Spells (w : Word) (p : Text) : Prop := ∃ c, c.toUpper = w.letter ∧ p = c :: w.value

theorem IsProper.isAlpha {w : Word} (h : w.IsProper) {c : Char} (hc : c.toUpper = w.letter) :
    c.isAlpha = true := by
  rw [← Char.isUpper_toUpper_eq_isAlpha, hc, h.letter]

theorem IsProper.spells_text {w : Word} (h : w.IsProper) : w.Spells w.text :=
  ⟨w.letter, Char.toUpper_eq_of_not_isLower (Char.not_isLower_of_isUpper h.letter), rfl⟩

/-- A spelled word is read as the word. -/
theorem ofPiece?_of_spells {w : Word} (hw : w.IsProper) {p : Text} (h : w.Spells p) :
    ofPiece? p = some w := by
  obtain ⟨c, hc, rfl⟩ := h
  simp [ofPiece?, hw.isAlpha hc, hc]

/-- A spelled word is a piece, with no semicolon in it. -/
theorem isPiece_of_spells {w : Word} (hw : w.IsProper) {p : Text} (h : w.Spells p) :
    Text.IsPiece p ∧ ';' ∉ p := by
  obtain ⟨c, hc, rfl⟩ := h
  have halpha := hw.isAlpha hc
  refine ⟨.cons (not_isBlank_of_isAlpha halpha) fun d hd => (hw.value d hd).1, ?_⟩
  intro hmem
  rcases List.mem_cons.mp hmem with rfl | hmem
  · exact absurd halpha (by decide)
  · exact (hw.value _ hmem).2 rfl

/-- A piece without a semicolon that is read as a word spells it. -/
theorem spells_of_ofPiece? {w : Word} {p : Text} (h : ofPiece? p = some w) (hp : Text.IsPiece p)
    (hsemicolon : ';' ∉ p) : w.IsProper ∧ w.Spells p := by
  cases p with
  | nil => simp at h
  | cons c value =>
    rw [ofPiece?, Option.ite_none_right_eq_some] at h
    obtain ⟨hc, rfl⟩ := h.imp_right Option.some.inj
    refine ⟨⟨by simpa using hc, ?_⟩, c, rfl, rfl⟩
    intro d hd
    refine ⟨hp.2 d (by simp [hd]), ?_⟩
    rintro rfl
    exact hsemicolon (by simp [hd])

end Word

/-! ### Lines -/

namespace Line

/-- What a comment adds to the code of a line. -/
def marked : Option Text → Text
  | none => []
  | some comment => ';' :: comment

/-- The text shows the line: its words in order, each spelled in either case, blanks
around them and at least one between neighbours, and then the comment. -/
def Renders (l : Line) (t : Text) : Prop :=
  ∃ ps front body, List.Forall₂ Word.Spells l.words ps ∧ Text.Blanks front ∧ Text.Spaced ps body ∧
    t = front ++ body ++ marked l.comment

/-- A text without a semicolon and a comment behind it are told apart. -/
theorem code_append_marked {t : Text} (h : ';' ∉ t) (comment : Option Text) :
    code (t ++ marked comment) = t ∧ comment? (t ++ marked comment) = comment := by
  cases comment with
  | none =>
    rw [marked, List.append_nil]
    exact ⟨code_of_not_mem h, comment?_of_not_mem h⟩
  | some comment => exact ⟨code_append_semicolon h comment, comment?_append_semicolon h comment⟩

/-- A line is its code and what its comment adds to it. -/
theorem code_append_marked_comment? (t : Text) : code t ++ marked (comment? t) = t := by
  have h := code_append_comment? t
  cases hcomment : comment? t <;> rw [hcomment] at h <;> exact h

/-- Spelled words are pieces without semicolons, and are read as the words. -/
theorem pieces_of_spells {ws : List Word} {ps : List Text} (hws : ∀ w ∈ ws, w.IsProper)
    (h : List.Forall₂ Word.Spells ws ps) :
    (∀ p ∈ ps, Text.IsPiece p ∧ ';' ∉ p) ∧ ps.filterMap Word.ofPiece? = ws := by
  induction h with
  | nil => simp
  | cons hp hps ih =>
    obtain ⟨hw, hws⟩ := List.forall_mem_cons.mp hws
    obtain ⟨hpieces, hwords⟩ := ih hws
    refine ⟨List.forall_mem_cons.mpr ⟨Word.isPiece_of_spells hw hp, hpieces⟩, ?_⟩
    rw [List.filterMap_cons_some (Word.ofPiece?_of_spells hw hp), hwords]

/-- **A line is read from every text that shows it.** -/
theorem ofText_of_renders {l : Line} (hl : ∀ w ∈ l.words, w.IsProper) {t : Text}
    (h : l.Renders t) : ofText t = l := by
  obtain ⟨ps, front, body, hspells, hfront, hbody, rfl⟩ := h
  obtain ⟨hpieces, hwords⟩ := pieces_of_spells hl hspells
  have hsemicolon : ';' ∉ front ++ body := by
    rw [List.mem_append, not_or]
    constructor
    · intro hmem
      exact absurd (hfront _ hmem) (by decide)
    · intro hmem
      rcases Text.mem_of_spaced hbody hmem with hblank | ⟨p, hp, hmem⟩
      · exact absurd hblank (by decide)
      · exact (hpieces p hp).2 hmem
  obtain ⟨hcode, hcomment⟩ := code_append_marked hsemicolon l.comment
  have htokens : Text.pieces (front ++ body) = ps :=
    Text.pieces_eq_iff.mpr ⟨fun p hp => (hpieces p hp).1, front, body, rfl, hfront, hbody⟩
  rw [ofText, tokens, hcode, hcomment, htokens, hwords]

/-- A piece of a line has no semicolon in it. -/
theorem semicolon_not_mem_piece {t p : Text} (h : p ∈ Text.pieces (code t)) : ';' ∉ p := by
  intro hmem
  exact semicolon_not_mem_code t (Text.mem_of_mem_pieces h hmem)

/-- The words of a line can be written again. -/
theorem isProper_of_mem_tokens {t : Text} {w : Word} (h : w ∈ tokens t) : w.IsProper := by
  obtain ⟨p, hp, hw⟩ := List.mem_filterMap.mp h
  exact (Word.spells_of_ofPiece? hw (Text.isPiece_of_mem_pieces hp) (semicolon_not_mem_piece hp)).1

/-- Pieces that are all read as words spell these words. -/
theorem spells_filterMap {ps : List Text} (hps : ∀ p ∈ ps, Text.IsPiece p ∧ ';' ∉ p)
    (hwords : ∀ p ∈ ps, Word.ofPiece? p ≠ none) :
    List.Forall₂ Word.Spells (ps.filterMap Word.ofPiece?) ps := by
  induction ps with
  | nil => exact .nil
  | cons p ps ih =>
    obtain ⟨hp, hps⟩ := List.forall_mem_cons.mp hps
    obtain ⟨hword, hwords⟩ := List.forall_mem_cons.mp hwords
    obtain ⟨w, hw⟩ := Option.ne_none_iff_exists'.mp hword
    rw [List.filterMap_cons_some hw]
    exact .cons (Word.spells_of_ofPiece? hw hp.1 hp.2).2 (ih hps hwords)

/-- **A line whose pieces are all words shows what is read from it.** -/
theorem renders_ofText {t : Text} (h : ∀ p ∈ Text.pieces (code t), Word.ofPiece? p ≠ none) :
    (ofText t).Renders t := by
  obtain ⟨hpieces, front, body, hcode, hfront, hbody⟩ := Text.pieces_eq_iff.mp (rfl : Text.pieces (code t) = _)
  refine ⟨Text.pieces (code t), front, body, ?_, hfront, hbody, ?_⟩
  · exact spells_filterMap (fun p hp => ⟨hpieces p hp, semicolon_not_mem_piece hp⟩) h
  · rw [← hcode, comment_ofText, code_append_marked_comment?]

/-- Words that are joined by single spaces are written out. -/
theorem renders_joined {ws : List Word} (h : ∀ w ∈ ws, w.IsProper) :
    (⟨ws, none⟩ : Line).Renders (Text.joined (ws.map Word.text)) := by
  have hspells : List.Forall₂ Word.Spells ws (ws.map Word.text) := by
    rw [List.forall₂_map_right_iff, List.forall₂_same]
    intro w hw
    exact (h w hw).spells_text
  have hpieces := (pieces_of_spells h hspells).1
  obtain ⟨-, front, body, hjoined, hfront, hbody⟩ :=
    Text.pieces_eq_iff.mp (Text.pieces_joined fun p hp => (hpieces p hp).1)
  exact ⟨_, front, body, hspells, hfront, hbody, by rw [hjoined, marked, List.append_nil]⟩

/-- **Reading undoes writing.**  Words and a comment that are written out, in whatever
case and with whatever blanks around the words, are read back; and the words of every
line can be written out, so that they are read again from their texts joined by single
spaces. -/
theorem ofText_rendering :
    (∀ (l : Line) (t : Text), (∀ w ∈ l.words, w.IsProper) → l.Renders t →
      ofText t = l ∧ tokens t = l.words) ∧
    ∀ t : Text, (∀ w ∈ (ofText t).words, w.IsProper) ∧
      tokens (Text.joined ((ofText t).words.map Word.text)) = (ofText t).words := by
  refine ⟨?_, ?_⟩
  · intro l t hl h
    have hread := ofText_of_renders hl h
    exact ⟨hread, congrArg Line.words hread⟩
  · intro t
    have hproper : ∀ w ∈ (ofText t).words, w.IsProper := by
      intro w hw
      exact isProper_of_mem_tokens hw
    have hread := ofText_of_renders (l := ⟨(ofText t).words, none⟩) hproper (renders_joined hproper)
    exact ⟨hproper, congrArg Line.words hread⟩

/-- Words of which one has a value that starts with a letter, and one has none. -/
def sample : Line := ⟨[⟨'G', ['1']⟩, ⟨'X', ['e', '.', 'x']⟩, ⟨'Y', []⟩], some [';', ' ', 'Z']⟩

/-- A tabulator between the first two words, and blanks in front and behind. -/
def sampleText : Text :=
  [' ', 'g', '1', '\t', ' ', 'X', 'e', '.', 'x', ' ', 'y', '\u2003', ';', ';', ' ', 'Z']

theorem ofText_rendering_sample :
    ((∀ w ∈ sample.words, w.IsProper) ∧ sample.Renders sampleText) ∧
      ofText sampleText = sample ∧ tokens sampleText = sample.words := by
  have hproper : ∀ w ∈ sample.words, w.IsProper := by
    unfold sample
    simp only [List.forall_mem_cons]
    exact ⟨⟨by decide, by simp [isBlank]⟩, ⟨by decide, by simp [isBlank]⟩, ⟨by decide, by simp⟩,
      fun w hw => absurd hw List.not_mem_nil⟩
  have hrenders : sample.Renders sampleText := by
    refine ⟨[['g', '1'], ['X', 'e', '.', 'x'], ['y']], [' '],
      ['g', '1'] ++ ['\t', ' '] ++ (['X', 'e', '.', 'x'] ++ [' '] ++ (['y'] ++ ['\u2003'] ++ [])),
      ?_, ?_, ?_, rfl⟩
    · exact .cons ⟨'g', rfl, rfl⟩ (.cons ⟨'X', rfl, rfl⟩ (.cons ⟨'y', rfl, rfl⟩ .nil))
    · simp [isBlank_space]
    · exact .cons (by simp [isBlank_space]; decide) (by simp)
        (.cons (by simp [isBlank_space]) (by simp) (.cons (by simp; decide) (by simp) .nil))
  exact ⟨⟨hproper, hrenders⟩, ofText_rendering.1 _ _ hproper hrenders⟩

end Line
end PenPlotter
