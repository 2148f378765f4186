import Mathlib
import PenPlotter.Proofs.Document.Loading
import PenPlotter.Proofs.Reflection.Words
import PenPlotter.Proofs.Text.Encoding

/-!
# The lines of a loaded program

Lines that are written to a file are the lines that are loaded from it, whichever way
each of them ends.  Of arbitrary bytes the newlines alone decide how many lines there
are, and no line holds one.

## Main definitions

* `Written` — the bytes that lines can be written in.
* `IsRaw` — the bytes of a line that is written, without its newline.

## Main results

* `length_rawLines` — the number of lines, by the newlines.
* `newline_not_mem_rawLines` — no line holds a newline.
* `Written.rawLines` — written lines are cut where they were ended.
* `lineText_of_isRaw`, `lineText_of_marked` — a line is read back, also behind the mark.
* `lineTexts_of_written` — **written lines are read back.**
* `lines_load` — **loading recovers the lines of a file.**
-/

namespace PenPlotter

open Utf8

/-! ### Cutting bytes into lines -/

theorem rawLines_cons_of_ne {b : UInt8} (hb : b ≠ newline) (rest : List UInt8) :
    rawLines (b :: rest) = match rawLines rest with
      | line :: others => (b :: line) :: others
      | [] => [[b]] := if_neg (by simpa using hb)

theorem rawLines_ne_nil {bytes : List UInt8} (h : bytes ≠ []) : rawLines bytes ≠ [] := by
  cases bytes with
  | nil => exact absurd rfl h
  | cons b rest =>
    by_cases hb : b = newline
    · subst hb
      exact List.cons_ne_nil _ _
    · rw [rawLines_cons_of_ne hb]
      cases rawLines rest <;> exact List.cons_ne_nil _ _

theorem rawLines_append_newline {line : List UInt8} (h : newline ∉ line) (rest : List UInt8) :
    rawLines (line ++ newline :: rest) = line :: rawLines rest := by
  induction line with
  | nil => rfl
  | cons b line ih =>
    rw [List.mem_cons, not_or] at h
    rw [List.cons_append, rawLines_cons_of_ne (Ne.symm h.1), ih h.2]

theorem rawLines_of_not_mem {line : List UInt8} (h : newline ∉ line) (hne : line ≠ []) :
    rawLines line = [line] := by
  induction line with
  | nil => exact absurd rfl hne
  | cons b line ih =>
    rw [List.mem_cons, not_or] at h
    rw [rawLines_cons_of_ne (Ne.symm h.1)]
    cases line with
    | nil => rfl
    | cons c line => rw [ih h.2 (List.cons_ne_nil _ _)]

/-- **The number of lines**: one for each newline, and one more for bytes behind the
last newline. -/
theorem length_rawLines (bytes : List UInt8) : (rawLines bytes).length =
    bytes.count newline + if bytes ≠ [] ∧ bytes.getLast? ≠ some newline then 1 else 0 := by
  induction bytes with
  | nil => rfl
  | cons b rest ih =>
    by_cases hb : b = newline
    · subst hb
      rw [rawLines_newline, List.length_cons, ih, List.count_cons_self, Nat.add_right_comm]
      cases rest with
      | nil => rfl
      | cons c rest => simp [List.getLast?_cons_cons]
    · rw [rawLines_cons_of_ne hb, List.count_cons_of_ne hb]
      cases rest with
      | nil => simp [hb]
      | cons c rest =>
        -- the byte belongs to the first line of those behind it
        cases hraw : rawLines (c :: rest) with
        | nil => exact absurd hraw (rawLines_ne_nil (List.cons_ne_nil _ _))
        | cons first others =>
          rw [hraw] at ih
          simpa [List.getLast?_cons_cons] using ih

/-- No line holds a newline. -/
theorem newline_not_mem_rawLines {bytes line : List UInt8} (h : line ∈ rawLines bytes) :
    newline ∉ line := by
  induction bytes generalizing line with
  | nil => cases h
  | cons b rest ih =>
    by_cases hb : b = newline
    · subst hb
      rcases List.mem_cons.mp h with rfl | h
      · exact List.not_mem_nil
      · exact ih h
    · rw [rawLines_cons_of_ne hb] at h
      cases hraw : rawLines rest with
      | nil =>
        rw [hraw] at h
        rw [List.mem_singleton.mp h, List.mem_singleton]
        exact Ne.symm hb
      | cons first others =>
        rw [hraw] at h ih
        rcases List.mem_cons.mp h with rfl | h
        · exact List.not_mem_cons_of_ne_of_not_mem (Ne.symm hb) (ih List.mem_cons_self)
        · exact ih (List.mem_cons_of_mem _ h)

/-! ### Ends and marks -/

@[simp] theorem stripReturn_append (line : List UInt8) :
    stripReturn (line ++ [carriageReturn]) = line := by
  simp [stripReturn]

theorem stripReturn_of_getLast? {line : List UInt8} (h : line.getLast? ≠ some carriageReturn) :
    stripReturn line = line := if_neg h

theorem mem_of_mem_stripReturn {b : UInt8} {line : List UInt8} (h : b ∈ stripReturn line) :
    b ∈ line := by
  unfold stripReturn at h
  split_ifs at h
  · exact List.mem_of_mem_dropLast h
  · exact h

theorem stripMark_append (line : List UInt8) : stripMark (byteOrderMark ++ line) = line := by
  have hprefix : byteOrderMark.isPrefixOf (byteOrderMark ++ line) = true :=
    List.isPrefixOf_iff_prefix.mpr (List.prefix_append _ _)
  rw [stripMark, if_pos hprefix, List.drop_left]

theorem mem_of_mem_stripMark {b : UInt8} {line : List UInt8} (h : b ∈ stripMark line) : b ∈ line := by
  unfold stripMark at h
  split_ifs at h
  · exact List.mem_of_mem_drop h
  · exact h

/-- The byte order mark is written as a character in front of the first line. -/
theorem encode_mark (t : Text) : encode ('\uFEFF' :: t) = byteOrderMark ++ encode t := rfl

theorem stripMark_encode {t : Text} (h : t.head? ≠ some '\uFEFF') :
    stripMark (encode t) = encode t := by
  refine if_neg ?_
  intro hprefix
  obtain ⟨rest, hrest⟩ := List.isPrefixOf_iff_prefix.mp hprefix
  -- what starts with the bytes of the mark is decoded to a text that starts with it
  have hdecode : some '\uFEFF' :: decode rest = t.map some := by
    rw [← decode_encode, ← hrest]
    exact (decode_encodeChar_append '\uFEFF' rest).symm
  cases t with
  | nil => cases hdecode
  | cons c t =>
    rw [List.map_cons, List.cons.injEq, Option.some.injEq] at hdecode
    exact h (congrArg some hdecode.1.symm)

/-- The last byte of a text is below 128 only where it is the last character. -/
theorem getLast?_of_encode {b : UInt8} (hb : b.toNat ≤ 0x7F) {t : Text}
    (h : (encode t).getLast? = some b) : t.getLast? = some (Char.ofNat b.toNat) := by
  rcases List.eq_nil_or_concat t with rfl | ⟨init, c, rfl⟩
  · cases h
  · have hform := form_encodeChar c
    have hne : String.utf8EncodeChar c ≠ [] := by
      intro hnil
      rw [hnil] at hform
      cases hform
    rw [List.concat_eq_append, encode_append, encode_cons, encode_nil, List.append_nil, List.getLast?_append_of_ne_nil _ hne] at h
    obtain ⟨-, hn⟩ := hform.eq_singleton_of_mem (List.mem_of_getLast? h) hb
    rw [List.concat_eq_append, List.getLast?_concat, ← hn, Char.ofNat_toNat]

/-! ### Single lines -/

/-- The bytes of a line that is written, without the newline that ends it. -/
def IsRaw (t : Text) (raw : List UInt8) : Prop := raw = encode t ∨ raw = encode t ++ [carriageReturn]

theorem stripReturn_of_isRaw {t : Text} {raw : List UInt8} (h : IsRaw t raw)
    (hreturn : t.getLast? ≠ some '\r') : stripReturn raw = encode t := by
  rcases h with rfl | rfl
  · apply stripReturn_of_getLast?
    intro hlast
    exact hreturn (getLast?_of_encode (by decide) hlast)
  · exact stripReturn_append _

theorem newline_not_mem_of_isRaw {t : Text} {raw : List UInt8} (h : IsRaw t raw) (ht : '\n' ∉ t) :
    newline ∉ raw := by
  have hencode : newline ∉ encode t := fun hmem => ht (mem_of_mem_encode hmem (by decide))
  rcases h with rfl | rfl
  · exact hencode
  · rw [List.mem_append, not_or]
    exact ⟨hencode, by decide⟩

/-- **A line is read back**, unless it is the first one and starts with the mark. -/
theorem lineText_of_isRaw {t : Text} {raw : List UInt8} (h : IsRaw t raw)
    (hreturn : t.getLast? ≠ some '\r') {index : ℕ} (hmark : index = 0 → t.head? ≠ some '\uFEFF') :
    lineText index raw = t := by
  unfold lineText lineItems
  dsimp only
  rw [stripReturn_of_isRaw h hreturn]
  split_ifs with hindex
  · rw [stripMark_encode (hmark hindex), shown_decode_encode]
  · exact shown_decode_encode t

/-- The first line is read back from behind the mark. -/
theorem lineText_of_marked {t : Text} {raw : List UInt8} (h : IsRaw ('\uFEFF' :: t) raw)
    (hreturn : t.getLast? ≠ some '\r') : lineText 0 raw = t := by
  have hlast : ('\uFEFF' :: t).getLast? ≠ some '\r' := by
    cases t with
    | nil => decide
    | cons c t => rwa [List.getLast?_cons_cons]
  unfold lineText lineItems
  dsimp only
  rw [stripReturn_of_isRaw h hlast, if_pos rfl, encode_mark, stripMark_append, shown_decode_encode]

/-- No line that is loaded holds a newline, whatever bytes it is made of. -/
theorem newline_not_mem_lineText {raw : List UInt8} (h : newline ∉ raw) (index : ℕ) :
    '\n' ∉ lineText index raw := by
  intro hmem
  have hbyte := mem_of_mem_shown (by decide) hmem
  change newline ∈ if index = 0 then stripMark (stripReturn raw) else stripReturn raw at hbyte
  apply h
  split_ifs at hbyte
  · exact mem_of_mem_stripReturn (mem_of_mem_stripMark hbyte)
  · exact mem_of_mem_stripReturn hbyte

/-! ### Files -/

/-- The bytes that lines are written in.  Each line ends in a newline, with a carriage
return in front of it or without; the last one may go without an end, unless it is
empty. -/
inductive Written : List Text → List UInt8 → Prop
  | nil : Written [] []
  | last {t : Text} (h : t ≠ []) : Written [t] (encode t)
  | newline {t : Text} {ts : List Text} {bytes : List UInt8} (h : Written ts bytes) :
      Written (t :: ts) (encode t ++ newline :: bytes)
  | returnNewline {t : Text} {ts : List Text} {bytes : List UInt8} (h : Written ts bytes) :
      Written (t :: ts) (encode t ++ carriageReturn :: PenPlotter.newline :: bytes)

/-- Written lines behind the mark are lines whose first one starts with it. -/
theorem Written.marked {t : Text} {ts : List Text} {bytes : List UInt8} (h : Written (t :: ts) bytes) :
    Written (('\uFEFF' :: t) :: ts) (byteOrderMark ++ bytes) := by
  cases h with
  | last => exact .last (List.cons_ne_nil _ _)
  | newline h => exact .newline h
  | returnNewline h => exact .returnNewline h

/-- **Written lines are cut where they were ended.** -/
theorem Written.rawLines {ts : List Text} {bytes : List UInt8} (h : Written ts bytes)
    (hts : ∀ t ∈ ts, '\n' ∉ t) : List.Forall₂ IsRaw ts (rawLines bytes) := by
  induction h with
  | nil => exact .nil
  | @last t hne =>
    have hraw : IsRaw t (encode t) := .inl rfl
    have hencode : encode t ≠ [] := by
      intro hnil
      have hread := shown_decode_encode t
      rw [hnil] at hread
      exact hne hread.symm
    rw [rawLines_of_not_mem (newline_not_mem_of_isRaw hraw (hts t List.mem_cons_self)) hencode]
    exact .cons hraw .nil
  | @newline t ts bytes _ ih =>
    obtain ⟨ht, hts⟩ := List.forall_mem_cons.mp hts
    have hraw : IsRaw t (encode t) := .inl rfl
    rw [rawLines_append_newline (newline_not_mem_of_isRaw hraw ht)]
    exact .cons hraw (ih hts)
  | @returnNewline t ts bytes _ ih =>
    obtain ⟨ht, hts⟩ := List.forall_mem_cons.mp hts
    have hraw : IsRaw t (encode t ++ [carriageReturn]) := .inr rfl
    rw [List.append_cons, rawLines_append_newline (newline_not_mem_of_isRaw hraw ht)]
    exact .cons hraw (ih hts)

/-- Lines behind the first one are read back. -/
theorem lineTexts_of_isRaw {ts : List Text} {raws : List (List UInt8)} (h : List.Forall₂ IsRaw ts raws)
    (hreturn : ∀ t ∈ ts, t.getLast? ≠ some '\r') {index : ℕ} (hindex : 0 < index) :
    lineTexts index raws = ts := by
  induction h generalizing index with
  | nil => rfl
  | cons hraw _ ih =>
    obtain ⟨ht, hts⟩ := List.forall_mem_cons.mp hreturn
    rw [lineTexts_cons, lineText_of_isRaw hraw ht (fun h0 => absurd h0 hindex.ne'),
      ih hts (Nat.succ_pos index)]

/-- The bytes with or without a byte order mark in front of them. -/
def withMark (marked : Bool) (bytes : List UInt8) : List UInt8 :=
  if marked then byteOrderMark ++ bytes else bytes

/-- **Written lines are read back**, also behind a byte order mark. -/
theorem lineTexts_of_written {ts : List Text} {bytes : List UInt8} (h : Written ts bytes)
    (hts : ∀ t ∈ ts, '\n' ∉ t ∧ t.getLast? ≠ some '\r')
    (hfirst : ∀ t ∈ ts.head?, t.head? ≠ some '\uFEFF') {marked : Bool}
    (hmarked : marked = true → ts ≠ []) :
    lineTexts 0 (rawLines (withMark marked bytes)) = ts := by
  have hnewline : ∀ t ∈ ts, '\n' ∉ t := fun t ht => (hts t ht).1
  have hreturn : ∀ t ∈ ts, t.getLast? ≠ some '\r' := fun t ht => (hts t ht).2
  cases ts with
  | nil =>
    have hplain : marked = false := Bool.eq_false_iff.mpr fun hm => hmarked hm rfl
    cases h
    rw [hplain]
    rfl
  | cons t ts =>
    obtain ⟨ht, hrest⟩ := List.forall_mem_cons.mp hreturn
    cases marked with
    | false =>
      obtain ⟨raw, raws, hraw, hraws, hbytes⟩ := List.forall₂_cons_left_iff.mp (h.rawLines hnewline)
      rw [withMark, if_neg Bool.false_ne_true, hbytes, lineTexts_cons,
        lineText_of_isRaw hraw ht (fun _ => hfirst t rfl), lineTexts_of_isRaw hraws hrest Nat.one_pos]
    | true =>
      -- the mark is cut off as a part of the first line
      have hmark : ∀ u ∈ ('\uFEFF' :: t) :: ts, '\n' ∉ u := by
        obtain ⟨ht, hrest⟩ := List.forall_mem_cons.mp hnewline
        exact List.forall_mem_cons.mpr ⟨List.not_mem_cons_of_ne_of_not_mem (by decide) ht, hrest⟩
      obtain ⟨raw, raws, hraw, hraws, hbytes⟩ :=
        List.forall₂_cons_left_iff.mp (h.marked.rawLines hmark)
      rw [withMark, if_pos rfl, hbytes, lineTexts_cons, lineText_of_marked hraw ht,
        lineTexts_of_isRaw hraws hrest Nat.one_pos]

theorem length_lineTexts (index : ℕ) (raws : List (List UInt8)) :
    (lineTexts index raws).length = raws.length := by
  induction raws generalizing index with
  | nil => rfl
  | cons raw raws ih => rw [lineTexts_cons, List.length_cons, ih, List.length_cons]

theorem newline_not_mem_lineTexts {raws : List (List UInt8)} (h : ∀ raw ∈ raws, newline ∉ raw)
    (index : ℕ) : ∀ t ∈ lineTexts index raws, '\n' ∉ t := by
  induction raws generalizing index with
  | nil =>
    intro t ht
    cases ht
  | cons raw raws ih =>
    obtain ⟨hraw, hraws⟩ := List.forall_mem_cons.mp h
    exact List.forall_mem_cons.mpr ⟨newline_not_mem_lineText hraw index, ih hraws (index + 1)⟩

/-- A reflected line holds no blanks but spaces and those of the line. -/
theorem mem_of_mem_line {t : Text} {c : Char} (hblank : isBlank c = true) (hspace : c ≠ ' ')
    (h : c ∈ Reflection.line t) : c ∈ t := by
  have hjoined : c ∉ Text.joined (Reflection.newPieces t) := by
    intro hmem
    rcases Text.mem_joined hmem with rfl | ⟨p, hp, hc⟩
    · exact hspace rfl
    · have hpiece := (Reflection.isPiece_of_mem_newPieces hp).1.2 c hc
      rw [hblank] at hpiece
      cases hpiece
  rcases Reflection.line_cases t with ⟨hline, -⟩ | ⟨-, hline⟩
  · rwa [hline] at h
  · have hsplit := Line.code_append_comment? t
    cases hcomment : Line.comment? t with
    | none =>
      rw [hline, hcomment] at h
      exact absurd h hjoined
    | some comment =>
      rw [hline, hcomment] at h
      rw [hcomment] at hsplit
      have hne : c ≠ ';' := by
        rintro rfl
        cases hblank
      rw [List.mem_append, List.mem_cons, List.mem_cons] at h
      rw [← hsplit]
      have hmem := ((h.resolve_left hjoined).resolve_left hspace).resolve_left hne
      exact List.mem_append_right _ (List.mem_cons_of_mem _ hmem)

/-! ### Loading -/

section

variable [Trigonometry]

namespace Document

/-- Loading bytes never fails, and stores the lines that they are cut into. -/
theorem load_bytes (d : Document) (s : Settings) (content : List UInt8) :
    (∃ stats, (d.load s (.bytes content)).1 = .ok stats) ∧
      (d.load s (.bytes content)).2.lines = programLines s.reverseForGlass content := by
  have hlines : (Source.bytes content).lines s.reverseForGlass =
      .ok (programLines s.reverseForGlass content) := rfl
  rw [load_of_ok d hlines]
  exact ⟨⟨_, rfl⟩, rfl⟩

/-- **Loading recovers the lines of a file**, reflected on demand.  Whatever the bytes
are, there is one line for each newline and one more for bytes behind the last of them,
and no line holds a newline. -/
theorem lines_load (d : Document) (s : Settings) :
    (∀ (lines : List Text) (bytes : List UInt8) (marked : Bool), Written lines bytes →
      (∀ t ∈ lines, '\n' ∉ t ∧ t.getLast? ≠ some '\r') →
      (∀ t ∈ lines.head?, t.head? ≠ some '\uFEFF') → (marked = true → lines ≠ []) →
      (∃ stats, (d.load s (.bytes (withMark marked bytes))).1 = .ok stats) ∧
        (d.load s (.bytes (withMark marked bytes))).2.lines =
          if s.reverseForGlass then Reflection.program lines else lines) ∧
    ∀ content : List UInt8, (∃ stats, (d.load s (.bytes content)).1 = .ok stats) ∧
      (d.load s (.bytes content)).2.lines.length = content.count newline +
        (if content ≠ [] ∧ content.getLast? ≠ some newline then 1 else 0) ∧
      ∀ t ∈ (d.load s (.bytes content)).2.lines, '\n' ∉ t := by
  constructor
  · intro lines bytes marked hwritten hlines hfirst hmarked
    obtain ⟨hok, hload⟩ := load_bytes d s (withMark marked bytes)
    refine ⟨hok, ?_⟩
    rw [hload, programLines, lineTexts_of_written hwritten hlines hfirst hmarked]
  · intro content
    obtain ⟨hok, hload⟩ := load_bytes d s content
    have hraws : ∀ raw ∈ rawLines content, newline ∉ raw := fun _ => newline_not_mem_rawLines
    have hplain := newline_not_mem_lineTexts hraws 0
    rw [hload, programLines]
    refine ⟨hok, ?_, ?_⟩
    · rw [← length_rawLines, ← length_lineTexts 0]
      split_ifs
      · exact List.length_map _
      · rfl
    · split_ifs
      · intro t ht
        obtain ⟨u, hu, rfl⟩ := List.mem_map.mp ht
        exact fun hmem => hplain u hu (mem_of_mem_line rfl (by decide) hmem)
      · exact hplain

/-- A stroke with a comment beyond ASCII, an empty line, and a line without an end. -/
def writtenLines : List Text :=
  [['G', '1', ' ', 'X', '1', ';', 'é'], [], ['M', '1', '7']]

/-- The same lines in bytes, the first one with a carriage return. -/
def writtenBytes : List UInt8 :=
  [0x47, 0x31, 0x20, 0x58, 0x31, 0x3B, 0xC3, 0xA9, 13, 10, 10, 0x4D, 0x31, 0x37]

/-- The lines are recovered behind a mark, and reflected for glass. -/
theorem lines_load_sample :
    Written writtenLines writtenBytes ∧
    (∀ t ∈ writtenLines, '\n' ∉ t ∧ t.getLast? ≠ some '\r') ∧
    (∀ t ∈ writtenLines.head?, t.head? ≠ some '\uFEFF') ∧ (true = true → writtenLines ≠ []) ∧
    (load {} { (default : Settings) with reverseForGlass := true }
      (.bytes (withMark true writtenBytes))).2.lines = Reflection.program writtenLines := by
  have hwritten : Written writtenLines writtenBytes :=
    .returnNewline (.newline (.last (List.cons_ne_nil _ _)))
  have hlines : ∀ t ∈ writtenLines, '\n' ∉ t ∧ t.getLast? ≠ some '\r' := by decide
  have hfirst : ∀ t ∈ writtenLines.head?, t.head? ≠ some '\uFEFF' := by decide
  have hmarked : true = true → writtenLines ≠ [] := fun _ => List.cons_ne_nil _ _
  have hload := (lines_load {} { (default : Settings) with reverseForGlass := true }).1
    writtenLines writtenBytes true hwritten hlines hfirst hmarked
  exact ⟨hwritten, hlines, hfirst, hmarked, hload.2⟩

end Document

end

end PenPlotter
