import Mathlib
import PenPlotter.Proofs.Toolpath.Blocks
import PenPlotter.Toolpath.Playback

/-!
# The phases of a toolpath

The nodes of a toolpath come in the order of their lines, so that a cursor cuts it into
three runs: first what is executed, then what is upcoming, then the future.  What is
read off the first nodes only, such as the place of the pen holder, is therefore read
off all of them.

## Main definitions

* `phaseNodes` — the nodes of one phase, in order.

## Main results

* `ofLine_eq_upcoming` — the look-ahead window is an interval of lines, also where it
  would end beyond sixty-four bits.
* `phaseNodes_append` — **ordered nodes fall into three runs.**
* `phaseCounts_eq` — the counts are the lengths of these runs.
* `compile_phases` — **playback cuts a toolpath into three runs.**
-/

namespace PenPlotter

/-! ### Ordered lists -/

/-- In a list where a property of an element passes to those before it, the elements
that have it come first. -/
theorem takeWhile_eq_filter {α : Type*} {P : α → Bool} {l : List α}
    (h : l.Pairwise fun a b => P b = true → P a = true) : l.takeWhile P = l.filter P := by
  induction l with
  | nil => rfl
  | cons a l ih =>
    obtain ⟨hfirst, hrest⟩ := List.pairwise_cons.mp h
    cases ha : P a with
    | true => rw [List.takeWhile_cons_of_pos ha, List.filter_cons_of_pos ha, ih hrest]
    | false =>
      have hnone : l.filter P = [] := by
        rw [List.filter_eq_nil_iff]
        intro b hb hPb
        rw [hfirst b hb hPb] at ha
        cases ha
      have hneg : ¬ P a = true := by rw [ha]; exact Bool.false_ne_true
      rw [List.takeWhile_cons_of_neg hneg, List.filter_cons_of_neg hneg, hnone]

/-! ### The phase of a line -/

namespace Phase

theorem ofLine_eq_executed (line position lookAhead : ℕ) :
    ofLine line position lookAhead = .executed ↔ line < position := by
  unfold ofLine
  split_ifs <;> simp <;> omega

theorem ofLine_eq_future (line position lookAhead : ℕ) :
    ofLine line position lookAhead = .future ↔
      position ≤ line ∧ windowEnd position lookAhead < line := by
  unfold ofLine
  split_ifs <;> simp <;> omega

/-- **The look-ahead window is an interval of lines.**  That its end stops at the last
index makes no difference to a line that has an index. -/
theorem ofLine_eq_upcoming {line : ℕ} (h : line ≤ lastIndex) (position lookAhead : ℕ) :
    ofLine line position lookAhead = .upcoming ↔
      position ≤ line ∧ line ≤ position + lookAhead := by
  unfold ofLine windowEnd
  split_ifs <;> simp <;> omega

end Phase

/-- A node is executed with all nodes from lines before its own. -/
theorem Node.executed_of_le {m n : Node} {position lookAhead : ℕ} (hle : m.line ≤ n.line)
    (h : n.phase position lookAhead = .executed) : m.phase position lookAhead = .executed := by
  unfold phase at *
  rw [Phase.ofLine_eq_executed] at *
  omega

/-- A node is in the future with all nodes from lines behind its own. -/
theorem Node.future_of_le {m n : Node} {position lookAhead : ℕ} (hle : m.line ≤ n.line)
    (h : m.phase position lookAhead = .future) : n.phase position lookAhead = .future := by
  unfold phase at *
  rw [Phase.ofLine_eq_future] at *
  omega

/-! ### The nodes of a phase -/

/-- The nodes of one phase, in order. -/
def phaseNodes (nodes : List Node) (position lookAhead : ℕ) (phase : Phase) : List Node :=
  nodes.filter fun n => n.phase position lookAhead = phase

theorem mem_phaseNodes {nodes : List Node} {position lookAhead : ℕ} {phase : Phase} {n : Node} :
    n ∈ phaseNodes nodes position lookAhead phase ↔
      n ∈ nodes ∧ n.phase position lookAhead = phase := by
  unfold phaseNodes
  rw [List.mem_filter, decide_eq_true_eq]

theorem phaseNodes_cons (n : Node) (nodes : List Node) (position lookAhead : ℕ) (phase : Phase) :
    phaseNodes (n :: nodes) position lookAhead phase =
      if n.phase position lookAhead = phase then
        n :: phaseNodes nodes position lookAhead phase
      else phaseNodes nodes position lookAhead phase := by
  unfold phaseNodes
  simp only [List.filter_cons, decide_eq_true_eq]

theorem phaseNodes_eq_nil {nodes : List Node} {position lookAhead : ℕ} {phase : Phase}
    (h : ∀ n ∈ nodes, n.phase position lookAhead ≠ phase) :
    phaseNodes nodes position lookAhead phase = [] := by
  rw [List.eq_nil_iff_forall_not_mem]
  intro n hn
  obtain ⟨hmem, hphase⟩ := mem_phaseNodes.mp hn
  exact h n hmem hphase

/-- **Ordered nodes fall into three runs**: executed, upcoming and future ones. -/
theorem phaseNodes_append {nodes : List Node} (h : (nodes.map Node.line).Pairwise (· ≤ ·))
    (position lookAhead : ℕ) :
    phaseNodes nodes position lookAhead .executed ++
      (phaseNodes nodes position lookAhead .upcoming ++
        phaseNodes nodes position lookAhead .future) = nodes := by
  induction nodes with
  | nil => rfl
  | cons n nodes ih =>
    rw [List.map_cons, List.pairwise_cons, List.forall_mem_map] at h
    obtain ⟨hfirst, hrest⟩ := h
    have hnodes := ih hrest
    cases hn : n.phase position lookAhead with
    | executed =>
      simp only [phaseNodes_cons, hn, reduceCtorEq, if_true, if_false]
      rw [List.cons_append, hnodes]
    | upcoming =>
      -- behind a node that is not executed no node is
      have hnone : phaseNodes nodes position lookAhead .executed = [] := by
        refine phaseNodes_eq_nil ?_
        intro b hb hexecuted
        rw [Node.executed_of_le (hfirst b hb) hexecuted] at hn
        cases hn
      rw [hnone, List.nil_append] at hnodes
      simp only [phaseNodes_cons, hn, reduceCtorEq, if_true, if_false]
      rw [hnone, List.nil_append, List.cons_append, hnodes]
    | future =>
      -- and behind one in the future all are
      have hnone : ∀ phase ≠ Phase.future, phaseNodes nodes position lookAhead phase = [] := by
        intro phase hphase
        refine phaseNodes_eq_nil ?_
        intro b hb
        rw [Node.future_of_le (hfirst b hb) hn]
        exact Ne.symm hphase
      have hexecuted := hnone .executed (by decide)
      have hupcoming := hnone .upcoming (by decide)
      rw [hexecuted, hupcoming, List.nil_append, List.nil_append] at hnodes
      simp only [phaseNodes_cons, hn, reduceCtorEq, if_true, if_false]
      rw [hexecuted, hupcoming, List.nil_append, List.nil_append, hnodes]

/-! ### Counts -/

/-- Counting goes on from what was counted before. -/
theorem foldl_add (nodes : List Node) (position lookAhead : ℕ) (counts : PhaseCounts) :
    nodes.foldl (fun counts node => counts.add (node.phase position lookAhead)) counts =
      ⟨counts.executed + (phaseNodes nodes position lookAhead .executed).length,
        counts.upcoming + (phaseNodes nodes position lookAhead .upcoming).length,
        counts.future + (phaseNodes nodes position lookAhead .future).length⟩ := by
  induction nodes generalizing counts with
  | nil => rfl
  | cons n nodes ih =>
    rw [List.foldl_cons, ih]
    cases hn : n.phase position lookAhead <;>
      simp only [phaseNodes_cons, hn, reduceCtorEq, if_true, if_false, PhaseCounts.add,
        List.length_cons, PhaseCounts.mk.injEq, true_and, and_true] <;>
      omega

/-- **The counts are the lengths of the runs.** -/
theorem phaseCounts_eq (nodes : List Node) (position lookAhead : ℕ) :
    phaseCounts nodes position lookAhead =
      ⟨(phaseNodes nodes position lookAhead .executed).length,
        (phaseNodes nodes position lookAhead .upcoming).length,
        (phaseNodes nodes position lookAhead .future).length⟩ := by
  unfold phaseCounts
  rw [foldl_add, Nat.zero_add, Nat.zero_add, Nat.zero_add]

/-- While the cursor moves on, nodes come to the executed ones, and leave the future. -/
theorem phaseCounts_mono (nodes : List Node) {position later : ℕ} (h : position ≤ later)
    (lookAhead : ℕ) :
    (phaseCounts nodes position lookAhead).executed ≤ (phaseCounts nodes later lookAhead).executed ∧
      (phaseCounts nodes later lookAhead).future ≤
        (phaseCounts nodes position lookAhead).future := by
  rw [phaseCounts_eq, phaseCounts_eq]
  constructor
  · refine (List.monotone_filter_right nodes ?_).length_le
    intro n hn
    unfold Node.phase at *
    rw [decide_eq_true_eq, Phase.ofLine_eq_executed] at *
    omega
  · refine (List.monotone_filter_right nodes ?_).length_le
    intro n hn
    unfold Node.phase at *
    rw [decide_eq_true_eq, Phase.ofLine_eq_future] at *
    unfold windowEnd at *
    omega

/-! ### What is shown -/

/-- The nodes that are shown without those in the future are the first ones. -/
theorem filter_isShown {nodes : List Node} (h : (nodes.map Node.line).Pairwise (· ≤ ·))
    (position lookAhead : ℕ) :
    (nodes.filter fun n => (n.phase position lookAhead).isShown false) =
      nodes.take ((phaseCounts nodes position lookAhead).executed +
        (phaseCounts nodes position lookAhead).upcoming) := by
  have hshown {phase : Phase} (hphase : phase ≠ .future) :
      ∀ n ∈ phaseNodes nodes position lookAhead phase,
        (n.phase position lookAhead).isShown false = true := by
    intro n hn
    rw [(mem_phaseNodes.mp hn).2]
    cases phase <;> first | rfl | exact absurd rfl hphase
  have hhidden : ∀ n ∈ phaseNodes nodes position lookAhead .future,
      ¬ (n.phase position lookAhead).isShown false = true := by
    intro n hn
    rw [(mem_phaseNodes.mp hn).2]
    decide
  have hruns := phaseNodes_append h position lookAhead
  have hfilter := congrArg (List.filter fun n => (n.phase position lookAhead).isShown false) hruns
  have htake := congrArg (List.take ((phaseNodes nodes position lookAhead .executed).length +
    (phaseNodes nodes position lookAhead .upcoming).length)) hruns
  rw [List.filter_append, List.filter_append, List.filter_eq_self.mpr (hshown (by decide)),
    List.filter_eq_self.mpr (hshown (by decide)), List.filter_eq_nil_iff.mpr hhidden,
    List.append_nil] at hfilter
  rw [← List.append_assoc, ← List.length_append, List.take_left] at htake
  rw [phaseCounts_eq, ← hfilter, htake, List.length_append]

/-- The pen holder is where the last stroke before the cursor starts, of all nodes. -/
theorem holderPoint_eq {nodes : List Node} (h : (nodes.map Node.line).Pairwise (· ≤ ·))
    (position : ℕ) : holderPoint nodes position =
      ((nodes.filter (·.line < position)).filterMap Node.stroke?).getLast?.map Stroke.start := by
  unfold holderPoint
  rw [takeWhile_eq_filter]
  refine (List.pairwise_map.mp h).imp ?_
  intro a b hab hb
  rw [decide_eq_true_eq] at *
  omega

section

variable [Trigonometry]

/-- **Playback cuts a toolpath into three runs.**  In the order of the nodes come those
that are executed, then the upcoming ones, which are the nodes from the lines of the
look-ahead window, and then the future.  The counts are the lengths of these runs; the
pen holder is where the last stroke before the cursor starts, of all nodes; what is
shown without the future is the first two runs; and while the cursor moves on, nodes
come to the executed ones and leave the future.  The lines of the program have an index
in sixty-four bits. -/
theorem compile_phases (s : Settings) {p : List Text} (hp : p.length ≤ lastIndex + 1)
    (position lookAhead : ℕ) :
    let nodes := compile s p
    let counts := phaseCounts nodes position lookAhead
    phaseNodes nodes position lookAhead .executed ++
      (phaseNodes nodes position lookAhead .upcoming ++
        phaseNodes nodes position lookAhead .future) = nodes ∧
    (∀ n ∈ nodes, n.phase position lookAhead = .upcoming ↔
      position ≤ n.line ∧ n.line ≤ position + lookAhead) ∧
    counts = ⟨(phaseNodes nodes position lookAhead .executed).length,
      (phaseNodes nodes position lookAhead .upcoming).length,
      (phaseNodes nodes position lookAhead .future).length⟩ ∧
    counts.executed + counts.upcoming + counts.future = nodes.length ∧
    holderPoint nodes position =
      ((nodes.filter (·.line < position)).filterMap Node.stroke?).getLast?.map Stroke.start ∧
    (nodes.filter fun n => (n.phase position lookAhead).isShown false) =
      nodes.take (counts.executed + counts.upcoming) ∧
    ∀ later, position ≤ later → counts.executed ≤ (phaseCounts nodes later lookAhead).executed ∧
      (phaseCounts nodes later lookAhead).future ≤ counts.future := by
  obtain ⟨hsorted, hbounds⟩ := trace_lines s 0 (Machine.zeroed s) p
  have hruns := phaseNodes_append hsorted position lookAhead
  intro nodes counts
  refine ⟨hruns, ?_, phaseCounts_eq nodes position lookAhead, ?_, holderPoint_eq hsorted position,
    filter_isShown hsorted position lookAhead,
    fun later h => phaseCounts_mono nodes h lookAhead⟩
  · intro n hn
    have hline := (hbounds n hn).2
    exact Phase.ofLine_eq_upcoming (by omega) position lookAhead
  · have hlength := congrArg List.length hruns
    rw [List.length_append, List.length_append] at hlength
    change (phaseCounts nodes position lookAhead).executed +
      (phaseCounts nodes position lookAhead).upcoming +
        (phaseCounts nodes position lookAhead).future = _
    rw [phaseCounts_eq, Nat.add_assoc]
    exact hlength

end

/-- The pen is lowered, two lines are drawn, and a third one stays empty. -/
def playbackSample : List Text :=
  [['G', '1', ' ', 'Z', '5', '0'], ['G', '1', ' ', 'X', '1', '0'], [], ['G', '1', ' ', 'X', '0']]

/-- With the cursor at the empty line a window that would end beyond sixty-four bits
holds all the lines behind it, and the pen holder is where the second line starts. -/
theorem compile_phases_sample :
    playbackSample.length ≤ lastIndex + 1 ∧
    (∀ n ∈ compile default playbackSample, n.phase 2 lastIndex = .upcoming ↔
      2 ≤ n.line ∧ n.line ≤ 2 + lastIndex) ∧
    holderPoint (compile default playbackSample) 2 = some Point.origin := by
  have hlength : playbackSample.length ≤ lastIndex + 1 := by decide
  obtain ⟨-, hupcoming, -, -, hholder, -⟩ := compile_phases default hlength 2 lastIndex
  refine ⟨hlength, hupcoming, ?_⟩
  rw [hholder]
  decide +kernel

end PenPlotter
