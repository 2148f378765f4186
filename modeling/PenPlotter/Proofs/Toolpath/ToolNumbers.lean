import Mathlib
import PenPlotter.Proofs.Color
import PenPlotter.Proofs.Toolpath.Colors
import PenPlotter.Proofs.Toolpath.Dropped

/-!
# Numbers of tools

A tool change starts with one fixed text, and what stands between this mark and the
comment is the number of the tool: an integer of 64 bits, with the colour in its last
twenty-four.  A line with the mark is not read for its words.  It shows in the toolpath
if it has a number and it changes the colour of the tool then, and nothing else.

## Main definitions

* `Line.IsMarked` — a line that starts as tool changes do.
* `Line.ChangesTool` — a tool change with its number.

## Main results

* `Color.eq_ofInt_iff` — the colour of a number is the number up to its last bits.
* `ofLine_eq_toolChange_iff` — the lines that change the tool, on any machine.
* `mem_compile_iff` — a node is shown by the line it comes from.
* `ofLine_of_isMarked` — **what a line with the mark does.**
* `compile_toolChange` — **the tool changes of a toolpath are those of the grammar.**
-/

namespace PenPlotter

/-! ### Colours by their number -/

namespace Color

/-- A colour keeps the last twenty-four bits of the number it is made from. -/
theorem toNat_ofNat (n : ℕ) : (ofNat n).toNat = n % 2 ^ 24 := by
  unfold ofNat toNat
  simp only [UInt8.toNat_ofNat']
  omega

/-- **The colour of a number is the number up to its last twenty-four bits.** -/
theorem eq_ofInt_iff (c : Color) (n : ℤ) : c = ofInt n ↔ (c.toNat : ℤ) = n % 2 ^ 24 := by
  have hlt : (c.toNat : ℤ) < 2 ^ 24 := by exact_mod_cast c.toNat_lt
  have hnonneg : 0 ≤ n % 16777216 := Int.emod_nonneg n (by decide)
  have hnumber : ((ofInt n).toNat : ℤ) = n % 2 ^ 24 := by
    unfold ofInt
    rw [toNat_ofNat]
    omega
  constructor
  · rintro rfl
    exact hnumber
  · intro h
    rw [← hnumber, Nat.cast_inj] at h
    rw [← ofNat_toNat c, h, ofNat_toNat]

end Color

/-! ### Tool changes -/

/-- Behind its blanks the line starts as tool changes do. -/
def Line.IsMarked (line : Text) : Prop := ToolChange.mark <+: Text.trimStart line

instance : DecidablePred Line.IsMarked := fun _ => inferInstanceAs (Decidable (_ <+: _))

/-- The line is a tool change with a number: an integer of 64 bits stands between the mark
and the comment. -/
structure Line.ChangesTool (line : Text) (n : ℤ) : Prop where
  number : ∃ rest, Text.trimStart line = ToolChange.mark ++ rest ∧
    Text.DenotesInt (Text.trim (Line.code rest)) n
  le : -2 ^ 63 ≤ n
  lt : n < 2 ^ 63

/-- The number of a tool change is what its text is read as. -/
theorem changesTool_iff (line : Text) (n : ℤ) : Line.ChangesTool line n ↔
    ∃ id, ToolChange.idText? (Text.trimStart line) = some id ∧ ToolChange.id? id = some n := by
  simp only [ToolChange.idText?_eq_some_iff, ToolChange.id?_eq_some_iff]
  constructor
  · rintro ⟨⟨rest, hrest, hn⟩, hle, hlt⟩
    exact ⟨_, ⟨rest, hrest, rfl⟩, hn, hle, hlt⟩
  · rintro ⟨_, ⟨rest, hrest, rfl⟩, hn, hle, hlt⟩
    exact ⟨⟨rest, hrest, hn⟩, hle, hlt⟩

/-- **The lines that change the tool**, on any machine, and the colour that they lead to. -/
theorem ofLine_eq_toolChange_iff {penUpAngle : Float} {m : Machine} {line : Text} {color : Color} :
    Effect.ofLine penUpAngle m line = .toolChange color ↔
      ∃ n, Line.ChangesTool line n ∧ (color.toNat : ℤ) = n % 2 ^ 24 := by
  simp only [changesTool_iff, ← Color.eq_ofInt_iff]
  unfold Effect.ofLine
  dsimp only
  cases ToolChange.idText? (Text.trimStart line) with
  | none =>
    -- words have other effects
    unfold Effect.ofWords
    dsimp only
    split_ifs
    · simp
    · split <;> simp
  | some id => cases hid : ToolChange.id? id <;> simp [hid, eq_comm]

/-- A line with the mark and without a number is passed over. -/
theorem isDropped_of_isMarked {line : Text} (h : Line.IsMarked line)
    (hnumber : ∀ n, ¬ Line.ChangesTool line n) : Line.IsDropped line := by
  obtain ⟨rest, hrest⟩ := h
  refine .toolChange rest hrest.symm ?_
  rintro n hn ⟨hle, hlt⟩
  exact hnumber n ⟨⟨rest, hrest.symm, hn⟩, hle, hlt⟩

section

variable [Trigonometry]

/-- **What a line with the mark does.**  With a number it shows as one tool change and
gives the tool the colour of the number; without one it shows nothing and changes
nothing. -/
theorem ofLine_of_isMarked {line : Text} (h : Line.IsMarked line) (s : Settings) (index : ℕ)
    (m : Machine) :
    (∃ n color, Line.ChangesTool line n ∧ (color.toNat : ℤ) = n % 2 ^ 24 ∧
      (Step.ofLine s index m line).nodes s = [.toolChange color index] ∧
      m.next s line = { m with pen.downColor := color }) ∨
    ((∀ n, ¬ Line.ChangesTool line n) ∧ (Step.ofLine s index m line).nodes s = [] ∧
      m.next s line = m) := by
  by_cases hnumber : ∃ n, Line.ChangesTool line n
  · obtain ⟨n, hn⟩ := hnumber
    have hcolor := (Color.eq_ofInt_iff (Color.ofInt n) n).mp rfl
    have heffect : Effect.ofLine s.penUpAngle m line = .toolChange (Color.ofInt n) :=
      ofLine_eq_toolChange_iff.mpr ⟨n, hn, hcolor⟩
    refine .inl ⟨n, Color.ofInt n, hn, hcolor, nodes_of_toolChange index heffect, ?_⟩
    rw [Machine.next, heffect, Effect.machine_toolChange]
  · rw [not_exists] at hnumber
    exact .inr ⟨hnumber, Step.ofLine_of_isDropped (isDropped_of_isMarked h hnumber) s index m⟩

/-! ### Toolpaths -/

/-- **A node is shown by the line it comes from.** -/
theorem mem_compile_iff (s : Settings) (p : List Text) (node : Node) :
    node ∈ compile s p ↔ ∃ line, p[node.line]? = some line ∧
      node ∈ (Step.ofLine s node.line ((Machine.zeroed s).run s (p.take node.line)) line).nodes s := by
  unfold compile
  rw [List.mem_flatMap]
  constructor
  · rintro ⟨step, hstep, hnode⟩
    obtain ⟨i, hi⟩ := List.mem_iff_getElem?.mp hstep
    rw [programTrace_getElem?, Option.map_eq_some_iff] at hi
    obtain ⟨line, hline, rfl⟩ := hi
    obtain rfl := (Step.nodes_rendering s i _ line).line_eq hnode
    exact ⟨line, hline, hnode⟩
  · rintro ⟨line, hline, hnode⟩
    refine ⟨_, List.mem_of_getElem? (i := node.line) ?_, hnode⟩
    rw [programTrace_getElem?, hline]
    rfl

/-- A step shows a tool change exactly if that is its effect. -/
theorem toolChange_mem_nodes_iff {s : Settings} {index : ℕ} {m : Machine} {line : Text}
    {color : Color} : Node.toolChange color index ∈ (Step.ofLine s index m line).nodes s ↔
      Effect.ofLine s.penUpAngle m line = .toolChange color := by
  by_cases hchange : ∃ other, Effect.ofLine s.penUpAngle m line = .toolChange other
  · obtain ⟨other, hother⟩ := hchange
    rw [nodes_of_toolChange index hother, hother, List.mem_singleton, Node.toolChange.injEq,
      Effect.toolChange.injEq]
    simp [eq_comm]
  · rw [not_exists] at hchange
    obtain ⟨ts, hnodes, -⟩ := strokes_of_line index hchange
    rw [hnodes]
    simp [hchange color]

/-- **The tool changes of a toolpath are those of the grammar.**  A line shows as a tool
change in a colour exactly if it starts with the mark and an integer of 64 bits stands
between the mark and the comment, with blanks around it; the colour is the last twenty-four
bits of the integer, red in the highest.  On every machine a line with the mark, whatever else
it holds, changes at most the colour for drawing that the pen has from its next move on. -/
theorem compile_toolChange (s : Settings) (p : List Text) :
    (∀ i color, Node.toolChange color i ∈ compile s p ↔
      ∃ line n, p[i]? = some line ∧ Line.ChangesTool line n ∧ (color.toNat : ℤ) = n % 2 ^ 24) ∧
    ∀ line, Line.IsMarked line → ∀ index m,
      (∃ n color, Line.ChangesTool line n ∧ (color.toNat : ℤ) = n % 2 ^ 24 ∧
        (Step.ofLine s index m line).nodes s = [.toolChange color index] ∧
        m.next s line = { m with pen.downColor := color }) ∨
      ((∀ n, ¬ Line.ChangesTool line n) ∧ (Step.ofLine s index m line).nodes s = [] ∧
        m.next s line = m) := by
  refine ⟨?_, fun line hline index m => ofLine_of_isMarked hline s index m⟩
  intro i color
  rw [mem_compile_iff, Node.line_toolChange]
  simp only [toolChange_mem_nodes_iff, ofLine_eq_toolChange_iff, exists_and_left]

end

/-- A tool change with a negative number, a sign of its own and blanks around it. -/
def Line.toolSample : Text :=
  [' ', 'M', '0', '6', ' ', 'T', ' ', '-', '2', '5', '6', '\t', ';', ' ', 'X', '1']

/-- A line with the mark whose other words spoil its number. -/
def Line.spoiltToolSample : Text :=
  ['M', '0', '6', ' ', 'T', '2', '5', '5', ' ', 'G', '9', '1', ' ', 'X', '5', ' ', 'Z', '0']

theorem compile_toolChange_sample :
    (Line.IsMarked Line.toolSample ∧ Line.IsMarked Line.spoiltToolSample) ∧
    Node.toolChange ⟨255, 255, 0⟩ 1 ∈ compile default [Line.spoiltToolSample, Line.toolSample] ∧
    (Machine.zeroed default).next default Line.spoiltToolSample = Machine.zeroed default := by
  have hmarks : Line.IsMarked Line.toolSample ∧ Line.IsMarked Line.spoiltToolSample := by decide
  obtain ⟨hshown, hmarked⟩ := compile_toolChange default [Line.spoiltToolSample, Line.toolSample]
  have hnumber : Line.ChangesTool Line.toolSample (-256) :=
    (changesTool_iff _ _).mpr ⟨['-', '2', '5', '6'], by decide, by decide⟩
  refine ⟨hmarks, (hshown 1 _).mpr ⟨_, -256, rfl, hnumber, by decide⟩, ?_⟩
  rcases hmarked _ hmarks.2 0 (Machine.zeroed default) with ⟨n, -, hn, -⟩ | ⟨-, -, hnext⟩
  · obtain ⟨id, hid, hn⟩ := (changesTool_iff _ _).mp hn
    cases hid
    cases hn
  · exact hnext

end PenPlotter
