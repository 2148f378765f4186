import Mathlib
import PenPlotter.Proofs.Toolpath.StrokeCount
import PenPlotter.Proofs.Toolpath.Trace

/-!
# The blocks of a toolpath

A toolpath is made of one block for each line of the program, in order.  A block
is empty, one tool change, or strokes without a gap from the position before the
line to the position behind it.

## Main definitions

* `Chained p ts q` — strokes that lead from `p` to `q` without a gap.
* `Rendering` — the blocks that a line can have.

## Main results

* `chained_polyline` — strokes through points are chained.
* `Step.nodes_rendering` — the nodes of a step are a block of its line.
* `compile_blocks` — **a toolpath is an ordered rendering without gaps.**
-/

namespace PenPlotter

/-- Strokes that lead from one point to another without a gap: each one starts at
the very point where the one before it stops. -/
def Chained : Point → List Stroke → Point → Prop
  | p, [], q => p = q
  | p, t :: rest, q => t.start = p ∧ Chained t.stop rest q

@[simp] theorem chained_nil (p q : Point) : Chained p [] q ↔ p = q := Iff.rfl

@[simp] theorem chained_cons (p q : Point) (t : Stroke) (rest : List Stroke) :
    Chained p (t :: rest) q ↔ t.start = p ∧ Chained t.stop rest q := Iff.rfl

/-- The blocks that a line can have, which leads from one point to another. -/
inductive Rendering (line : ℕ) (motion : Option Motion) (start stop : Point) : List Node → Prop
  | empty : Rendering line motion start stop []
  | toolChange (color : Color) : Rendering line motion start stop [.toolChange color line]
  /-- At least one stroke and at most the limit; a straight move is one stroke. -/
  | strokes (ts : List Stroke) (pos : 1 ≤ ts.length) (le : ts.length ≤ arcStrokeLimit)
      (linear : motion = some .linear → ts.length = 1) (lines : ∀ t ∈ ts, t.line = line)
      (chained : Chained start ts stop) : Rendering line motion start stop (ts.map Node.stroke)

theorem Rendering.line_eq {line : ℕ} {motion : Option Motion} {start stop : Point} {block : List Node}
    (h : Rendering line motion start stop block) {n : Node} (hn : n ∈ block) : n.line = line := by
  cases h with
  | empty => cases hn
  | toolChange color => rw [List.mem_singleton.mp hn, Node.line_toolChange]
  | strokes ts pos le linear lines chained =>
    obtain ⟨t, ht, rfl⟩ := List.mem_map.mp hn
    exact lines t ht

/-! ### Strokes through points -/

@[simp] theorem polyline_length (color : Color) (line : ℕ) (start : Point) (ps : List Point) :
    (polyline color line start ps).length = ps.length := by
  induction ps generalizing start with
  | nil => rfl
  | cons p ps ih => rw [polyline_cons, List.length_cons, ih, List.length_cons]

theorem line_of_mem_polyline {color : Color} {line : ℕ} {start : Point} {ps : List Point} {t : Stroke}
    (h : t ∈ polyline color line start ps) : t.line = line := by
  induction ps generalizing start with
  | nil => cases h
  | cons p ps ih =>
    rw [polyline_cons, List.mem_cons] at h
    rcases h with rfl | h
    · rfl
    · exact ih h

/-- Strokes through points lead to the last one without a gap. -/
theorem chained_polyline (color : Color) (line : ℕ) (start : Point) (ps : List Point) (stop : Point) :
    Chained start (polyline color line start (ps ++ [stop])) stop := by
  induction ps generalizing start with
  | nil => exact ⟨rfl, rfl⟩
  | cons p ps ih => exact ⟨rfl, ih p⟩

section

variable [Trigonometry]

@[simp] theorem arcPoints_length (arc : Arc) (steps : ℕ) : (arcPoints arc steps).length = steps - 1 := by
  rw [arcPoints, List.length_map, List.length_range]

/-- A motion leads through some points to the position that the line asks for. -/
theorem exists_route (start : Point) (next : Machine) (motion : Motion) :
    ∃ ps, route start next motion = ps ++ [next.position] ∧ ps.length + 1 ≤ arcStrokeLimit ∧
      (motion = .linear → ps = []) := by
  cases motion with
  | linear => exact ⟨[], rfl, by decide, fun _ => rfl⟩
  | arc winding =>
    have hbounds := arcStrokes_bounds (arcRequest start next winding).arc.length
    refine ⟨_, rfl, ?_, ?_⟩
    · rw [arcPoints_length]
      omega
    · intro h
      cases h

/-! ### Steps -/

/-- **The nodes of a step are a block of its line.** -/
theorem Step.nodes_rendering (s : Settings) (index : ℕ) (m : Machine) (line : Text) :
    Rendering index (Line.ofText line).motion m.position (m.next s line).position
      ((Step.ofLine s index m line).nodes s) := by
  unfold Step.nodes Step.ofLine Machine.next
  dsimp only
  cases heffect : Effect.ofLine s.penUpAngle m line with
  | toolChange color => exact .toolChange color
  | badToolId => exact .empty
  | blank => exact .empty
  | unreadable cause => exact .empty
  | moved motion next =>
    rw [motion_of_ofLine heffect]
    cases motion with
    | none => exact .empty
    | some motion =>
      dsimp only
      split_ifs
      · exact .empty
      · -- the route ends at the position that the line asks for
        obtain ⟨ps, hroute, hle, hlinear⟩ := exists_route m.position next motion
        rw [hroute]
        refine .strokes _ ?_ ?_ ?_ ?_ (chained_polyline _ _ _ _ _)
        · simp
        · simpa using hle
        · intro hmotion
          rw [hlinear (Option.some.inj hmotion)]
          rfl
        · intro t ht
          exact line_of_mem_polyline ht

/-- The nodes of a pass come from its lines in order. -/
theorem trace_lines (s : Settings) (index : ℕ) (m : Machine) (lines : List Text) :
    let nodes := (trace s index m lines).flatMap (Step.nodes s)
    (nodes.map Node.line).Pairwise (· ≤ ·) ∧
      ∀ n ∈ nodes, index ≤ n.line ∧ n.line < index + lines.length := by
  induction lines generalizing index m with
  | nil =>
    refine ⟨.nil, ?_⟩
    intro n hn
    cases hn
  | cons line rest ih =>
    obtain ⟨hsorted, hbounds⟩ := ih (index + 1) (m.next s line)
    have hline : ∀ n ∈ (Step.ofLine s index m line).nodes s, n.line = index := by
      intro n hn
      exact (Step.nodes_rendering s index m line).line_eq hn
    dsimp only
    rw [trace_cons, List.flatMap_cons, List.map_append, List.length_cons]
    constructor
    · refine List.pairwise_append.mpr ⟨?_, hsorted, ?_⟩
      · -- within the block of a line all nodes come from that line
        apply List.pairwise_of_forall_mem_list
        intro a ha b hb
        obtain ⟨n, hn, rfl⟩ := List.mem_map.mp ha
        obtain ⟨n', hn', rfl⟩ := List.mem_map.mp hb
        rw [hline n hn, hline n' hn']
      · -- and the nodes behind the block come from later lines
        intro a ha b hb
        obtain ⟨n, hn, rfl⟩ := List.mem_map.mp ha
        obtain ⟨n', hn', rfl⟩ := List.mem_map.mp hb
        have := (hbounds n' hn').1
        rw [hline n hn]
        omega
    · intro n hn
      rcases List.mem_append.mp hn with hn | hn
      · rw [hline n hn]
        omega
      · have := hbounds n hn
        omega

/-! ### Programs -/

/-- **A toolpath is an ordered rendering of the run without gaps.**  Each line has
a block of its own, which leads from the position behind the lines before it to
the position behind the line. -/
theorem compile_blocks (s : Settings) (p : List Text) :
    ∃ blocks : List (List Node), compile s p = blocks.flatten ∧ blocks.length = p.length ∧
      (∀ i line, p[i]? = some line → ∃ block, blocks[i]? = some block ∧
        Rendering i (Line.ofText line).motion
          ((Machine.zeroed s).run s (p.take i)).position
          ((Machine.zeroed s).run s (p.take (i + 1))).position block) ∧
      ((compile s p).map Node.line).Pairwise (· ≤ ·) ∧
      ∀ n ∈ compile s p, n.line < p.length := by
  obtain ⟨hsorted, hbounds⟩ := trace_lines s 0 (Machine.zeroed s) p
  refine ⟨(programTrace s p).map (Step.nodes s), List.flatMap_def, ?_, ?_, hsorted, ?_⟩
  · rw [List.length_map, programTrace_length]
  · intro i line hline
    have hblock : ((programTrace s p).map (Step.nodes s))[i]? =
        some ((Step.ofLine s i ((Machine.zeroed s).run s (p.take i)) line).nodes s) := by
      rw [List.getElem?_map, programTrace_getElem?, hline]
      rfl
    refine ⟨_, hblock, ?_⟩
    rw [Machine.run_take_succ s _ hline]
    exact Step.nodes_rendering s i _ line
  · intro n hn
    have := (hbounds n hn).2
    omega

end

end PenPlotter
