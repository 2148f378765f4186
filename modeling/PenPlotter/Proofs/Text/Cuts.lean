import Mathlib
import PenPlotter.Proofs.Text.Rendering

/-!
# Lines cut at a word

A word stands between blanks or the ends of the code, so a line can be cut there: the
words of the line are those in front of the cut, the word, and those behind it.  Every
word of a line stands at such a place.

## Main definitions

* `Line.Cut` — a place where a word stands, with the text in front of it and behind it.

## Main results

* `exists_split_of_pieces` — every piece of a text stands between blanks or ends.
* `Cut.tokens_eq` — **the words of a line around a cut.**
* `exists_cut` — **every word of a line stands at a cut.**
-/

namespace PenPlotter

/-! ### Pieces and their places -/

namespace Text

theorem EndsBlank.append {s t : Text} (ht : EndsBlank t) (hs : t = [] → EndsBlank s) :
    EndsBlank (s ++ t) := by
  cases t with
  | nil => rw [List.append_nil]; exact hs rfl
  | cons c t =>
    intro d hd
    rw [List.getLast?_append_of_ne_nil _ (List.cons_ne_nil c t)] at hd
    exact ht d hd

theorem Blanks.endsBlank {t : Text} (h : Blanks t) : EndsBlank t := by
  intro c hc
  exact h c (List.mem_of_getLast? hc)

/-- A piece of a laid out text stands between blanks or ends, with the pieces in front
of it on its one side. -/
theorem Spaced.exists_split {ps qs : List Text} {p t : Text} (hps : ∀ q ∈ ps, IsPiece q)
    (h : Spaced (ps ++ p :: qs) t) : ∃ front rest, t = front ++ (p ++ rest) ∧ pieces front = ps ∧
      EndsBlank front ∧ StartsBlank rest := by
  induction ps generalizing t with
  | nil =>
    cases h with
    | @cons _ gap _ u hgap hne hbody =>
      refine ⟨[], gap ++ u, by rw [List.nil_append, List.append_assoc], rfl, blanks_nil.endsBlank, ?_⟩
      cases gap with
      | cons b gap => exact startsBlank_cons ((blanks_cons b gap).mp hgap).1 _
      | nil =>
        -- a piece without a gap behind it is the last one
        have hqs : qs = [] := by
          by_contra hqs
          exact hne hqs rfl
        subst hqs
        cases hbody
        intro c hc
        cases hc
  | cons q ps ih =>
    obtain ⟨hq, hps⟩ := List.forall_mem_cons.mp hps
    cases h with
    | @cons _ gap _ u hgap hne hbody =>
      obtain ⟨front, rest, rfl, hfront, hends, hstarts⟩ := ih hps hbody
      obtain ⟨b, gap, rfl⟩ := List.exists_cons_of_ne_nil (hne (by simp))
      obtain ⟨hb, hrest⟩ := (blanks_cons b gap).mp hgap
      refine ⟨q ++ (b :: gap ++ front), rest, by simp, ?_, ?_, hstarts⟩
      · rw [List.cons_append, pieces_append_blank hq hb, pieces_blanks_append hrest, hfront]
      · refine (hends.append fun _ => hgap.endsBlank).append fun hnil => ?_
        cases hnil

/-- **A piece of a text stands between blanks or ends.** -/
theorem exists_split_of_pieces {t p : Text} {ps qs : List Text} (h : pieces t = ps ++ p :: qs) :
    ∃ front rest, t = front ++ (p ++ rest) ∧ pieces front = ps ∧ EndsBlank front ∧
      StartsBlank rest := by
  obtain ⟨hpieces, blanks, body, rfl, hblanks, hbody⟩ := pieces_eq_iff.mp h
  obtain ⟨front, rest, rfl, hfront, hends, hstarts⟩ := hbody.exists_split fun q hq =>
    hpieces q (List.mem_append_left _ hq)
  refine ⟨blanks ++ front, rest, (List.append_assoc _ _ _).symm, ?_,
    hends.append fun _ => hblanks.endsBlank, hstarts⟩
  rw [pieces_blanks_append hblanks, hfront]

end Text

/-! ### Cuts -/

namespace Line

/-- A place in a line where a word stands. -/
structure Cut (line : Text) where
  /-- The text in front of the word. -/
  front : Text
  /-- The word as it is written. -/
  piece : Text
  /-- The text behind the word. -/
  rest : Text
  word : Word
  text_eq : line = front ++ (piece ++ rest)
  isPiece : Text.IsPiece piece
  ofPiece? : Word.ofPiece? piece = some word
  /-- The word does not stand in the comment. -/
  not_mem : ';' ∉ front ++ piece
  endsBlank : Text.EndsBlank front
  /-- Blanks, the comment, or nothing. -/
  startsBlank : Text.StartsBlank (code rest)

theorem Cut.code_front {line : Text} (c : Cut line) : code c.front = c.front :=
  code_of_not_mem fun h => c.not_mem (List.mem_append_left _ h)

/-- **The words of a line around a cut**: those in front of it, the word that stands
there, and those behind it. -/
theorem Cut.tokens_eq {line : Text} (c : Cut line) :
    tokens line = tokens c.front ++ c.word :: tokens c.rest := by
  have hcode : code line = c.front ++ (c.piece ++ code c.rest) := by
    conv_lhs => rw [c.text_eq, ← List.append_assoc, code_append c.not_mem, List.append_assoc]
  have hpieces : Text.pieces (code line) =
      Text.pieces (code c.front) ++ c.piece :: Text.pieces (code c.rest) := by
    rw [hcode, Text.pieces_append (.inl c.endsBlank), Text.pieces_append (.inr c.startsBlank),
      Text.pieces_of_isPiece c.isPiece, c.code_front]
    rfl
  unfold tokens
  rw [hpieces, List.filterMap_append, List.filterMap_cons_some c.ofPiece?]

/-- **Every word of a line stands at a cut**, with the words in front of it on its one
side. -/
theorem exists_cut {line : Text} {front rest : List Word} {w : Word}
    (h : tokens line = front ++ w :: rest) :
    ∃ c : Cut line, c.word = w ∧ tokens c.front = front := by
  obtain ⟨ps, others, hpieces, hfront, hothers⟩ := List.filterMap_eq_append_iff.mp h
  obtain ⟨skipped, p, qs, rfl, hskipped, hp, -⟩ := List.filterMap_eq_cons_iff.mp hothers
  rw [← List.append_assoc] at hpieces
  obtain ⟨before, behind, hcode, hbefore, hends, hstarts⟩ := Text.exists_split_of_pieces hpieces
  have hmem : ';' ∉ before ++ p ++ behind := by
    rw [List.append_assoc, ← hcode]
    exact semicolon_not_mem_code line
  obtain ⟨hmemFront, hmemBehind⟩ := not_or.mp (List.mem_append.not.mp hmem)
  have hmemBefore : ';' ∉ before := fun h => hmemFront (List.mem_append_left _ h)
  refine ⟨⟨before, p, behind ++ marked (comment? line), w, ?_, ?_, hp, hmemFront, hends, ?_⟩, rfl, ?_⟩
  · conv_lhs => rw [← code_append_marked_comment? line, hcode]
    simp
  · exact Text.isPiece_of_mem_pieces (t := code line) (by rw [hpieces]; simp)
  · rwa [(code_append_marked hmemBehind _).1]
  · change tokens before = front
    unfold tokens
    rw [code_of_not_mem hmemBefore, hbefore, List.filterMap_append, hfront,
      List.filterMap_eq_nil_iff.mpr hskipped, List.append_nil]

end Line
end PenPlotter
