import Mathlib
import PenPlotter.Line

/-!
# The pieces of a text

A text falls into its pieces at blanks, and pieces that are joined by single
spaces fall into the same pieces again.  Blanks at either end make no piece.

## Main definitions

* `IsPiece` — a text that is not empty and has no blank in it.
* `StartsBlank`, `EndsBlank` — a text that no piece reaches into from one side.

## Main results

* `pieces_append` — **no piece reaches over a blank.**
* `pieces_append_blank` — a piece and a blank split off the front.
* `pieces_append_singleton` — a blank at the end makes no piece.
* `isPiece_of_mem_pieces` — pieces are not empty and hold no blank.
* `pieces_joined` — **joined pieces fall into the same pieces.**
* `code_append`, `comment?_append` — a line behind a text without a semicolon.
-/

namespace PenPlotter

/-- The codes of letters. -/
theorem toNat_of_isAlpha {c : Char} (h : c.isAlpha = true) :
    65 ≤ c.toNat ∧ c.toNat ≤ 90 ∨ 97 ≤ c.toNat ∧ c.toNat ≤ 122 := by
  simpa [Char.isAlpha, Char.isUpper, Char.isLower, UInt32.le_iff_toNat_le] using h

/-- A letter is no blank. -/
theorem not_isBlank_of_isAlpha {c : Char} (h : c.isAlpha = true) : isBlank c = false := by
  have hrange := toNat_of_isAlpha h
  simp only [isBlank, Bool.or_eq_false_iff, Bool.and_eq_false_iff, decide_eq_false_iff_not,
    beq_eq_false_iff_ne]
  omega

namespace Text

/-- A text that is not empty and has no blank in it. -/
def IsPiece (p : Text) : Prop := p ≠ [] ∧ ∀ c ∈ p, isBlank c = false

/-- A single character that is not blank is a piece. -/
theorem isPiece_singleton {c : Char} (h : isBlank c = false) : IsPiece [c] := by
  refine ⟨List.cons_ne_nil _ _, ?_⟩
  intro d hd
  rw [List.mem_singleton.mp hd, h]

theorem IsPiece.cons {c : Char} {p : Text} (hc : isBlank c = false) (hp : ∀ d ∈ p, isBlank d = false) :
    IsPiece (c :: p) :=
  ⟨List.cons_ne_nil _ _, List.forall_mem_cons.mpr ⟨hc, hp⟩⟩

/-- The text is empty or starts with a blank. -/
def StartsBlank (t : Text) : Prop := ∀ c ∈ t.head?, isBlank c = true

/-- The text is empty or ends with a blank. -/
def EndsBlank (t : Text) : Prop := ∀ c ∈ t.getLast?, isBlank c = true

theorem startsBlank_cons {c : Char} (hc : isBlank c = true) (t : Text) : StartsBlank (c :: t) := by
  rintro _ ⟨⟩
  exact hc

/-! ### Splitting -/

/-- A character that is not blank starts the first piece. -/
theorem exists_pieces_cons {c : Char} (hc : isBlank c = false) (t : Text) :
    ∃ v ps, pieces (c :: t) = (c :: v) :: ps := by
  rw [pieces_cons_of_not_blank hc]
  cases t with
  | nil => exact ⟨[], pieces [], rfl⟩
  | cons d t =>
    cases pieces (d :: t) with
    | nil => exact ⟨[], [], rfl⟩
    | cons q others =>
      cases hd : isBlank d with
      | true => exact ⟨[], q :: others, if_pos hd⟩
      | false => exact ⟨q, others, if_neg (by rw [hd]; decide)⟩

/-- **No piece reaches over a blank**: a text falls apart where a blank, or nothing,
stands on one side. -/
theorem pieces_append {s t : Text} (h : EndsBlank s ∨ StartsBlank t) :
    pieces (s ++ t) = pieces s ++ pieces t := by
  induction s with
  | nil => rfl
  | cons c s ih =>
    rw [List.cons_append]
    cases s with
    | nil =>
      cases hc : isBlank c with
      | true => rw [pieces_cons_of_blank hc, pieces_cons_of_blank hc]; rfl
      | false =>
        have ht : StartsBlank t := by
          refine h.resolve_left fun hs => ?_
          rw [hs c rfl] at hc
          cases hc
        rw [pieces_cons_of_not_blank hc, pieces_cons_of_not_blank hc, List.nil_append]
        cases t with
        | nil => rfl
        | cons d t => cases hpieces : pieces (d :: t) <;> simp [consPiece, ht d rfl]
    | cons d s =>
      have ih := ih (by rwa [EndsBlank, List.getLast?_cons_cons] at h)
      cases hc : isBlank c with
      | true => rw [pieces_cons_of_blank hc, pieces_cons_of_blank hc, ih]
      | false =>
        rw [pieces_cons_of_not_blank hc, pieces_cons_of_not_blank hc, ih, List.cons_append]
        -- what stands behind `c` is the same, and so is the piece that starts there
        cases hd : isBlank d with
        | true =>
          cases pieces (d :: s) with
          | nil => cases pieces t <;> simp [consPiece, hd]
          | cons q others => simp [consPiece, hd]
        | false =>
          obtain ⟨v, ps, hpieces⟩ := exists_pieces_cons hd s
          simp [hpieces, consPiece, hd]

/-- A piece is its own only piece. -/
theorem pieces_of_isPiece {p : Text} (hp : IsPiece p) : pieces p = [p] := by
  obtain ⟨hne, hblank⟩ := hp
  induction p with
  | nil => exact absurd rfl hne
  | cons c p ih =>
    obtain ⟨hc, hp⟩ := List.forall_mem_cons.mp hblank
    rw [pieces_cons_of_not_blank hc]
    cases p with
    | nil => rfl
    | cons d p =>
      rw [ih (List.cons_ne_nil _ _) hp]
      simp [consPiece, hp d List.mem_cons_self]

/-- A piece at the front of a text that goes on with a blank is split off. -/
theorem pieces_append_blank {p : Text} (hp : IsPiece p) {c : Char} (hc : isBlank c = true) (t : Text) :
    pieces (p ++ c :: t) = p :: pieces t := by
  rw [pieces_append (.inr (startsBlank_cons hc t)), pieces_of_isPiece hp, pieces_cons_of_blank hc]
  rfl

/-- A blank at the end makes no piece. -/
theorem pieces_append_singleton {c : Char} (hc : isBlank c = true) (t : Text) :
    pieces (t ++ [c]) = pieces t := by
  rw [pieces_append (.inr (startsBlank_cons hc [])), pieces_cons_of_blank hc, pieces_nil,
    List.append_nil]

/-- A piece that a character is put in front of holds that character or comes
from the pieces behind it. -/
theorem mem_consPiece {c : Char} {t p : Text} {ps : List Text} (h : p ∈ consPiece c t ps) :
    p = [c] ∨ p ∈ ps ∨ ∃ q ∈ ps, p = c :: q := by
  cases t with
  | nil => simp [consPiece] at h; tauto
  | cons d t =>
    cases ps with
    | nil => simp [consPiece] at h; tauto
    | cons q others =>
      simp only [consPiece] at h
      split at h <;> simp at h ⊢ <;> tauto

/-- Pieces are not empty and hold no blank. -/
theorem isPiece_of_mem_pieces {t p : Text} (h : p ∈ pieces t) : IsPiece p := by
  induction t generalizing p with
  | nil => cases h
  | cons c t ih =>
    cases hc : isBlank c with
    | true => rw [pieces_cons_of_blank hc] at h; exact ih h
    | false =>
      rw [pieces_cons_of_not_blank hc] at h
      rcases mem_consPiece h with rfl | h | ⟨q, hq, rfl⟩
      · exact isPiece_singleton hc
      · exact ih h
      · exact .cons hc (ih hq).2

/-- The characters of a piece are characters of the text. -/
theorem mem_of_mem_pieces {t p : Text} (h : p ∈ pieces t) {c : Char} (hc : c ∈ p) : c ∈ t := by
  induction t generalizing p with
  | nil => cases h
  | cons a t ih =>
    cases ha : isBlank a with
    | true =>
      rw [pieces_cons_of_blank ha] at h
      exact List.mem_cons_of_mem _ (ih h hc)
    | false =>
      rw [pieces_cons_of_not_blank ha] at h
      rcases mem_consPiece h with rfl | h | ⟨q, hq, rfl⟩
      · exact List.mem_singleton.mp hc ▸ List.mem_cons_self
      · exact List.mem_cons_of_mem _ (ih h hc)
      · rcases List.mem_cons.mp hc with rfl | hc
        · exact List.mem_cons_self
        · exact List.mem_cons_of_mem _ (ih hq hc)

/-! ### Joining -/

theorem joined_cons_cons (p q : Text) (ps : List Text) :
    joined (p :: q :: ps) = p ++ ' ' :: joined (q :: ps) := by
  simp [joined, List.intercalate]

/-- Joined pieces start as the first of them does. -/
theorem exists_joined_cons (c : Char) (v : Text) (ps : List Text) :
    ∃ u, joined ((c :: v) :: ps) = c :: u := by
  cases ps with
  | nil => exact ⟨v, joined_singleton _⟩
  | cons q ps => exact ⟨v ++ ' ' :: joined (q :: ps), joined_cons_cons _ _ _⟩

/-- **Joined pieces fall into the same pieces.** -/
theorem pieces_joined {ps : List Text} (h : ∀ p ∈ ps, IsPiece p) : pieces (joined ps) = ps := by
  induction ps with
  | nil => rfl
  | cons p ps ih =>
    obtain ⟨hp, hps⟩ := List.forall_mem_cons.mp h
    cases ps with
    | nil => rw [joined_singleton, pieces_of_isPiece hp]
    | cons q ps => rw [joined_cons_cons, pieces_append_blank hp isBlank_space, ih hps]

theorem mem_joined {ps : List Text} {c : Char} (h : c ∈ joined ps) : c = ' ' ∨ ∃ p ∈ ps, c ∈ p := by
  induction ps with
  | nil => cases h
  | cons p ps ih =>
    cases ps with
    | nil => rw [joined_singleton] at h; exact .inr ⟨p, List.mem_cons_self, h⟩
    | cons q ps =>
      rw [joined_cons_cons, List.mem_append, List.mem_cons] at h
      rcases h with h | rfl | h
      · exact .inr ⟨p, List.mem_cons_self, h⟩
      · exact .inl rfl
      · rcases ih h with h | ⟨r, hr, hc⟩
        · exact .inl h
        · exact .inr ⟨r, List.mem_cons_of_mem _ hr, hc⟩

/-! ### Blanks at the start -/

@[simp] theorem pieces_trimStart (t : Text) : pieces (trimStart t) = pieces t := by
  induction t with
  | nil => rfl
  | cons c t ih =>
    cases hc : isBlank c with
    | true => rw [trimStart_cons_of_blank hc, pieces_cons_of_blank hc, ih]
    | false => rw [trimStart_cons_of_not_blank hc]

/-! ### Blanks around a text -/

/-- A text is what trimming leaves of it with blanks around it. -/
theorem exists_trim (t : Text) : ∃ front back : Text, t = front ++ trim t ++ back ∧
    (∀ c ∈ front, isBlank c = true) ∧ ∀ c ∈ back, isBlank c = true := by
  refine ⟨t.takeWhile isBlank, ((trimStart t).reverse.takeWhile isBlank).reverse, ?_, ?_, ?_⟩
  · have hend : trim t ++ ((trimStart t).reverse.takeWhile isBlank).reverse = trimStart t := by
      unfold trim trimEnd
      rw [← List.reverse_append, List.takeWhile_append_dropWhile, List.reverse_reverse]
    rw [List.append_assoc, hend]
    exact (List.takeWhile_append_dropWhile).symm
  · intro c hc
    exact List.mem_takeWhile_imp hc
  · intro c hc
    exact List.mem_takeWhile_imp (List.mem_reverse.mp hc)

/-- A text that neither starts nor ends with a blank is not trimmed. -/
theorem trim_eq_self {t : Text} (hhead : ∀ c ∈ t.head?, isBlank c = false)
    (hlast : ∀ c ∈ t.getLast?, isBlank c = false) : trim t = t := by
  have hself : ∀ u : Text, (∀ c ∈ u.head?, isBlank c = false) → u.dropWhile isBlank = u := by
    intro u hu
    cases u with
    | nil => rfl
    | cons c u => exact trimStart_cons_of_not_blank (hu c rfl) u
  unfold trim trimEnd trimStart
  rw [hself t hhead, hself t.reverse (by rwa [List.head?_reverse]), List.reverse_reverse]

theorem pieces_append_blanks (t : Text) {back : Text} (h : ∀ c ∈ back, isBlank c = true) :
    pieces (t ++ back) = pieces t := by
  induction back generalizing t with
  | nil => rw [List.append_nil]
  | cons c back ih =>
    obtain ⟨hc, hback⟩ := List.forall_mem_cons.mp h
    rw [List.append_cons, ih _ hback, pieces_append_singleton hc]

theorem pieces_blanks_append {front : Text} (h : ∀ c ∈ front, isBlank c = true) (t : Text) :
    pieces (front ++ t) = pieces t := by
  induction front with
  | nil => rfl
  | cons c front ih =>
    obtain ⟨hc, hfront⟩ := List.forall_mem_cons.mp h
    rw [List.cons_append, pieces_cons_of_blank hc, ih hfront]

@[simp] theorem pieces_trim (t : Text) : pieces (trim t) = pieces t := by
  obtain ⟨front, back, ht, hfront, hback⟩ := exists_trim t
  conv_rhs => rw [ht, pieces_append_blanks _ hback, pieces_blanks_append hfront]

/-- Trimming takes away nothing but blanks. -/
theorem mem_trim {t : Text} {c : Char} (hc : c ∈ t) (hblank : isBlank c = false) : c ∈ trim t := by
  obtain ⟨front, back, ht, hfront, hback⟩ := exists_trim t
  rw [ht, List.mem_append, List.mem_append] at hc
  rcases hc with (hc | hc) | hc
  · exact absurd (hfront c hc) (by rw [hblank]; decide)
  · exact hc
  · exact absurd (hback c hc) (by rw [hblank]; decide)

end Text

namespace Line

/-! ### Code and comment -/

/-- A text without a semicolon in front of a line is part of its code. -/
theorem code_append {s : Text} (h : ';' ∉ s) (t : Text) : code (s ++ t) = s ++ code t := by
  induction s with
  | nil => rfl
  | cons c s ih =>
    rw [List.mem_cons, not_or] at h
    rw [List.cons_append, code_cons (Ne.symm h.1), ih h.2, List.cons_append]

theorem comment?_append {s : Text} (h : ';' ∉ s) (t : Text) : comment? (s ++ t) = comment? t := by
  induction s with
  | nil => rfl
  | cons c s ih =>
    rw [List.mem_cons, not_or] at h
    rw [List.cons_append, comment?_cons (Ne.symm h.1), ih h.2]

theorem code_of_not_mem {t : Text} (h : ';' ∉ t) : code t = t := by
  simpa using code_append h []

theorem comment?_of_not_mem {t : Text} (h : ';' ∉ t) : comment? t = none := by
  simpa using comment?_append h []

theorem code_append_semicolon {t : Text} (h : ';' ∉ t) (comment : Text) :
    code (t ++ ';' :: comment) = t := by
  rw [code_append h, code_semicolon, List.append_nil]

theorem comment?_append_semicolon {t : Text} (h : ';' ∉ t) (comment : Text) :
    comment? (t ++ ';' :: comment) = some comment := by
  rw [comment?_append h, comment?_semicolon]

theorem semicolon_not_mem_code (t : Text) : ';' ∉ code t := by
  intro h
  have := List.mem_takeWhile_imp h
  simp at this

/-- Blanks in front of a line belong to no word and to no comment. -/
theorem code_trimStart (t : Text) : code (Text.trimStart t) = Text.trimStart (code t) := by
  induction t with
  | nil => rfl
  | cons c t ih =>
    cases hc : isBlank c with
    | true =>
      have hne : c ≠ ';' := by rintro rfl; cases hc
      rw [Text.trimStart_cons_of_blank hc, code_cons hne, Text.trimStart_cons_of_blank hc, ih]
    | false =>
      rw [Text.trimStart_cons_of_not_blank hc]
      by_cases hne : c = ';'
      · subst hne
        rfl
      · rw [code_cons hne, Text.trimStart_cons_of_not_blank hc]

@[simp] theorem tokens_trimStart (t : Text) : tokens (Text.trimStart t) = tokens t := by
  unfold tokens
  rw [code_trimStart, Text.pieces_trimStart]

end Line
end PenPlotter
