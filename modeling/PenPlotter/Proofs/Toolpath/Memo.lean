import Mathlib
import PenPlotter.Toolpath.Cache

/-!
# A cache as the memory of one compilation

Whatever is asked of a cache, and in whichever order, it holds the toolpath of the
first compilation that was completed since it was last discarded, and hands that one
out to everybody.  A compilation that is given up leaves no trace in the answers.

## Main definitions

* `Action.job?` — what an action gets compiled if it has to.
* `Reply.sequence?` — the toolpath that an answer hands out.
* `ToolpathCache.after`, `ToolpathCache.firstJob` — the cache behind some actions, and
  the job of the first compilation since the last discard.
* `ToolpathCache.IsMemo` — the cache holds the toolpath of a job, or nothing.

## Main results

* `sequence?_perform` — what an action hands out is what the cache holds behind it.
* `perform_isMemo` — every action keeps the cache the memory of the first job.
* `perform_poisoned` — the mark of a compilation that was given up is never seen.
* `after_memo` — **a cache is the memory of one compilation.**
-/

namespace PenPlotter
namespace ToolpathCache

/-- What a compilation is made from. -/
structure Job where
  settings : Settings
  program : List Text

/-- What an action gets compiled if there is no toolpath to hand out.  A compilation
that fails completes nothing. -/
def Action.job? : Action → Option Job
  | fetch s program | fetchIfFree s program | fetchAround s program _ => some ⟨s, program⟩
  | fetchFailing _ _ | discard => none

/-- The job in memory behind an action, by the one before it: the first one stays
until it is discarded. -/
def Action.remembered (before : Option Job) : Action → Option Job
  | discard => none
  | a => before.or a.job?

/-- The toolpath that an answer hands out. -/
def Reply.sequence? : Reply → Option Sequence
  | sequence q | around q _ => some q
  | busy | failed | done => none

/-- A cache without a toolpath is filled. -/
theorem request_of_none {c : ToolpathCache} (hc : c.latest = none) :
    c.request = .rebuild { c with isFilling := true } := by
  unfold request stored
  rw [hc, ite_self]

section

variable [Trigonometry]

/-- The toolpath of a job. -/
def Job.nodes (job : Job) : List Node := compile job.settings job.program

/-- The cache behind some actions. -/
def after (c : ToolpathCache) (actions : List Action) : ToolpathCache :=
  actions.foldl (fun c a => (c.perform a).2) c

/-- The job of the first compilation that some actions completed since the last discard. -/
def firstJob (actions : List Action) : Option Job := actions.foldl Action.remembered none

@[simp] theorem after_nil (c : ToolpathCache) : c.after [] = c := rfl

@[simp] theorem after_cons (c : ToolpathCache) (a : Action) (rest : List Action) :
    c.after (a :: rest) = (c.perform a).2.after rest := rfl

/-- The cache is free, and it holds the toolpath of a job, or nothing if there was no
job.  Its flag tells which, and a toolpath is that of the last compilation. -/
structure IsMemo (c : ToolpathCache) (job : Option Job) : Prop where
  free : c.isFilling = false
  vacant : c.isVacant = c.latest.isNone
  nodes : c.latest.map Sequence.nodes = job.map Job.nodes
  serial : ∀ q, c.latest = some q → q.serial + 1 = c.completed

theorem isMemo_empty : IsMemo {} none where
  free := rfl
  vacant := rfl
  nodes := rfl
  serial := by
    intro q h
    cases h

/-! ### Requests -/

/-- A cache with a toolpath hands it out. -/
theorem IsMemo.request_of_some {c : ToolpathCache} {job : Option Job} (h : IsMemo c job)
    {q : Sequence} (hc : c.latest = some q) : c.request = .stored q := by
  have hvacant := h.vacant
  rw [hc, Option.isNone_some] at hvacant
  unfold request stored
  rw [hvacant, hc]
  rfl

theorem IsMemo.fetch_of_some {c : ToolpathCache} {job : Option Job} (h : IsMemo c job)
    {q : Sequence} (hc : c.latest = some q) (s : Settings) (program : List Text) :
    c.fetch s program = (q, c) := by
  unfold fetch
  rw [h.request_of_some hc]

/-- A free cache lets everybody in, also if a compilation was given up in it. -/
theorem fetch?_of_free {c : ToolpathCache} (h : c.isFilling = false) (s : Settings)
    (program : List Text) : c.fetch? s program = some (c.fetch s program) := by
  unfold fetch? guard
  rw [h]
  cases c.isPoisoned <;> rfl

/-- **A cache that is being filled sends away** those who do not wait, and stays as it is. -/
theorem perform_of_filling {c : ToolpathCache} (h : c.isFilling = true) (s : Settings)
    (program : List Text) : c.perform (.fetchIfFree s program) = (.busy, c) := by
  unfold perform fetch? guard
  rw [h]
  rfl

/-- Whoever asks in the middle of a compilation is sent away, and the compilation goes
on as if nobody had asked. -/
theorem IsMemo.perform_fetchAround {c : ToolpathCache} {job : Option Job} (h : IsMemo c job)
    (s : Settings) (program inner : List Text) :
    c.perform (.fetchAround s program inner) =
      (.around (c.fetch s program).1 (if c.isVacant then some .busy else none),
        (c.fetch s program).2) := by
  have hvacant := h.vacant
  unfold perform fetch
  cases hc : c.latest with
  | none =>
    rw [hc, Option.isNone_none] at hvacant
    rw [request_of_none hc, hvacant]
    rfl
  | some q =>
    rw [hc, Option.isNone_some] at hvacant
    rw [h.request_of_some hc, hvacant]
    rfl

/-- A compilation that is given up leaves no more than a mark on the guard. -/
theorem IsMemo.perform_fetchFailing {c : ToolpathCache} {job : Option Job} (h : IsMemo c job)
    (s : Settings) (program : List Text) :
    (c.perform (.fetchFailing s program)).1.sequence? = c.latest ∧
      (c.perform (.fetchFailing s program)).2 =
        { c with isPoisoned := c.isPoisoned || c.isVacant } := by
  obtain ⟨latest, isVacant, completed, isFilling, isPoisoned⟩ := c
  have hvacant : isVacant = latest.isNone := h.vacant
  have hfree : isFilling = false := h.free
  subst hvacant hfree
  cases latest with
  | none =>
    rw [Option.isNone_none, Bool.or_true]
    exact ⟨rfl, rfl⟩
  | some q =>
    rw [Option.isNone_some, Bool.or_false]
    exact ⟨rfl, rfl⟩

/-- All actions that can complete a compilation do what `fetch` does. -/
theorem IsMemo.perform_of_job {c : ToolpathCache} {job : Option Job} (h : IsMemo c job)
    {a : Action} {own : Job} (ha : a.job? = some own) :
    (c.perform a).1.sequence? = some (c.fetch own.settings own.program).1 ∧
      (c.perform a).2 = (c.fetch own.settings own.program).2 := by
  cases a with
  | fetch s program => cases ha; exact ⟨rfl, rfl⟩
  | fetchIfFree s program =>
    cases ha
    unfold perform
    dsimp only
    rw [fetch?_of_free h.free]
    exact ⟨rfl, rfl⟩
  | fetchAround s program inner =>
    cases ha
    rw [h.perform_fetchAround]
    exact ⟨rfl, rfl⟩
  | _ => cases ha

/-! ### Actions -/

/-- A request fills the cache if nothing is in it, and then no other job is in memory. -/
theorem IsMemo.fetch {c : ToolpathCache} {job : Option Job} (h : IsMemo c job) (own : Job) :
    (c.fetch own.settings own.program).2.latest = some (c.fetch own.settings own.program).1 ∧
      IsMemo (c.fetch own.settings own.program).2 (job.or (some own)) := by
  have hnodes := h.nodes
  cases hc : c.latest with
  | none =>
    rw [hc] at hnodes
    unfold ToolpathCache.fetch
    rw [request_of_none hc]
    cases job with
    | some first => cases hnodes
    | none =>
      refine ⟨rfl, rfl, rfl, rfl, ?_⟩
      rintro q ⟨⟩
      rfl
  | some q =>
    rw [hc] at hnodes
    rw [h.fetch_of_some hc]
    cases job with
    | some first => exact ⟨hc, h⟩
    | none => cases hnodes

/-- **What an action hands out is what the cache holds behind it.** -/
theorem sequence?_perform {c : ToolpathCache} {job : Option Job} (h : IsMemo c job) (a : Action) :
    (c.perform a).1.sequence? = (c.perform a).2.latest := by
  cases ha : a.job? with
  | some own =>
    obtain ⟨hsequence, hcache⟩ := h.perform_of_job ha
    rw [hsequence, hcache, (h.fetch own).1]
  | none =>
    cases a with
    | fetchFailing s program =>
      obtain ⟨hsequence, hcache⟩ := h.perform_fetchFailing s program
      rw [hsequence, hcache]
    | discard => rfl
    | _ => cases ha

/-- **Every action keeps the cache the memory of the first job.** -/
theorem perform_isMemo {c : ToolpathCache} {job : Option Job} (h : IsMemo c job) (a : Action) :
    IsMemo (c.perform a).2 (a.remembered job) := by
  cases ha : a.job? with
  | some own =>
    have hremembered : a.remembered job = job.or (some own) := by
      cases a with
      | discard => cases ha
      | _ => exact congrArg (Option.or job) ha
    rw [(h.perform_of_job ha).2, hremembered]
    exact (h.fetch own).2
  | none =>
    cases a with
    | fetchFailing s program =>
      have hremembered : (Action.fetchFailing s program).remembered job = job := Option.or_none
      rw [(h.perform_fetchFailing s program).2, hremembered]
      exact ⟨h.free, h.vacant, h.nodes, h.serial⟩
    | discard =>
      refine ⟨h.free, rfl, rfl, ?_⟩
      intro q hq
      cases hq
    | _ => cases ha

theorem after_isMemo {c : ToolpathCache} {job : Option Job} (h : IsMemo c job)
    (actions : List Action) : IsMemo (c.after actions) (actions.foldl Action.remembered job) := by
  induction actions generalizing c job with
  | nil => exact h
  | cons a rest ih => exact ih (perform_isMemo h a)

/-! ### Between two discards -/

/-- A toolpath stays until it is discarded, and nothing is compiled while it does. -/
theorem IsMemo.perform_of_some {c : ToolpathCache} {job : Option Job} (h : IsMemo c job)
    {q : Sequence} (hc : c.latest = some q) {a : Action} (ha : a ≠ .discard) :
    (c.perform a).2.latest = some q ∧ (c.perform a).2.completed = c.completed := by
  cases hjob : a.job? with
  | some own =>
    rw [(h.perform_of_job hjob).2, h.fetch_of_some hc]
    exact ⟨hc, rfl⟩
  | none =>
    cases a with
    | fetchFailing s program =>
      rw [(h.perform_fetchFailing s program).2]
      exact ⟨hc, rfl⟩
    | discard => exact absurd rfl ha
    | _ => cases hjob

theorem IsMemo.after_of_some {c : ToolpathCache} {job : Option Job} (h : IsMemo c job)
    {q : Sequence} (hc : c.latest = some q) {actions : List Action}
    (hactions : .discard ∉ actions) :
    (c.after actions).latest = some q ∧ (c.after actions).completed = c.completed := by
  induction actions generalizing c job with
  | nil => exact ⟨hc, rfl⟩
  | cons a rest ih =>
    rw [List.mem_cons, not_or] at hactions
    obtain ⟨hlatest, hcompleted⟩ := h.perform_of_some hc (Ne.symm hactions.1)
    obtain ⟨hlast, hcount⟩ := ih (perform_isMemo h a) hlatest hactions.2
    exact ⟨hlast, hcount.trans hcompleted⟩

/-- A single action completes no more than one compilation, and none if there is no
toolpath behind it. -/
theorem IsMemo.completed_perform {c : ToolpathCache} {job : Option Job} (h : IsMemo c job)
    (a : Action) : (c.perform a).2.completed ≤ c.completed + 1 ∧
      ((c.perform a).2.latest = none → (c.perform a).2.completed = c.completed) := by
  cases ha : a.job? with
  | some own =>
    rw [(h.perform_of_job ha).2, (h.fetch own).1]
    refine ⟨?_, fun hnone => by cases hnone⟩
    cases hc : c.latest with
    | none =>
      unfold ToolpathCache.fetch
      rw [request_of_none hc]
      rfl
    | some q =>
      rw [h.fetch_of_some hc]
      exact Nat.le_succ _
  | none =>
    cases a with
    | fetchFailing s program =>
      rw [(h.perform_fetchFailing s program).2]
      exact ⟨Nat.le_succ _, fun _ => rfl⟩
    | discard => exact ⟨Nat.le_succ _, fun _ => rfl⟩
    | _ => cases ha

/-- **No more than one compilation is completed** between two discards. -/
theorem IsMemo.completed_after {c : ToolpathCache} {job : Option Job} (h : IsMemo c job)
    {actions : List Action} (hactions : .discard ∉ actions) :
    (c.after actions).completed ≤ c.completed + 1 := by
  induction actions generalizing c job with
  | nil => exact Nat.le_succ _
  | cons a rest ih =>
    rw [List.mem_cons, not_or] at hactions
    obtain ⟨hle, hnone⟩ := h.completed_perform a
    have hnext := perform_isMemo h a
    rw [after_cons]
    cases hc : (c.perform a).2.latest with
    | none =>
      rw [← hnone hc]
      exact ih hnext hactions.2
    | some q =>
      -- the toolpath is there, and from here on nothing is compiled
      rw [(hnext.after_of_some hc hactions.2).2]
      exact hle

/-! ### Failures -/

/-- **The mark of a compilation that was given up is never seen**: an action has the
same answer with it, and leaves the same but for the mark. -/
theorem perform_poisoned {c : ToolpathCache} (h : c.isFilling = false) (mark : Bool) (a : Action) :
    ∃ mark', ({ c with isPoisoned := mark } : ToolpathCache).perform a =
      ((c.perform a).1, { (c.perform a).2 with isPoisoned := mark' }) := by
  have hfetch (s : Settings) (program : List Text) :
      ({ c with isPoisoned := mark } : ToolpathCache).fetch s program =
        ((c.fetch s program).1, { (c.fetch s program).2 with isPoisoned := mark }) := by
    unfold ToolpathCache.fetch request stored
    dsimp only
    cases (if c.isVacant then none else c.latest) <;> rfl
  cases a with
  | fetch s program =>
    refine ⟨mark, ?_⟩
    unfold perform
    dsimp only
    rw [hfetch]
  | fetchIfFree s program =>
    refine ⟨mark, ?_⟩
    unfold perform
    dsimp only
    rw [fetch?_of_free h, fetch?_of_free (by exact h), hfetch]
  | fetchAround s program inner =>
    refine ⟨mark, ?_⟩
    unfold perform request stored
    dsimp only
    cases (if c.isVacant then none else c.latest) <;> rfl
  | fetchFailing s program =>
    unfold perform request stored
    dsimp only
    cases (if c.isVacant then none else c.latest) with
    | none => exact ⟨true, rfl⟩
    | some q => exact ⟨mark, rfl⟩
  | discard => exact ⟨mark, rfl⟩

theorem after_poisoned {c : ToolpathCache} {job : Option Job} (h : IsMemo c job) (mark : Bool)
    (actions : List Action) : ∃ mark', ({ c with isPoisoned := mark } : ToolpathCache).after actions =
      { c.after actions with isPoisoned := mark' } := by
  induction actions generalizing c job mark with
  | nil => exact ⟨mark, rfl⟩
  | cons a rest ih =>
    obtain ⟨next, hnext⟩ := perform_poisoned h.free mark a
    rw [after_cons, hnext]
    exact ih (perform_isMemo h a) next

/-- **A cache is the memory of one compilation.**  Behind every run of actions

* the flag of the cache says whether it holds a toolpath;
* the next action hands out the toolpath of the first job since the last discard, with
  the action's own job if there was none before;
* up to the next discard everybody gets that very sequence, no matter what they ask
  for, and there is no second compilation;
* a compilation that fails leaves all but the mark on the guard as it was, and every
  later answer is the one that it would have been without the failure;
* whoever does not wait is sent away while the cache is being filled, and leaves no
  trace. -/
theorem after_memo (actions : List Action) :
    let c := after {} actions
    (c.isVacant = true ↔ c.latest = none) ∧
    (∀ a, (c.perform a).1.sequence?.map Sequence.nodes =
      (firstJob (actions ++ [a])).map Job.nodes) ∧
    (∀ a q, (c.perform a).1.sequence? = some q → q.serial + 1 = (c.perform a).2.completed ∧
      ∀ rest b, .discard ∉ rest → b ≠ .discard →
        (((c.perform a).2.after rest).perform b).1.sequence? = some q) ∧
    (∀ rest, .discard ∉ rest → (c.after rest).completed ≤ c.completed + 1) ∧
    (∀ s program, let failed := (c.perform (.fetchFailing s program)).2
      failed = { c with isPoisoned := c.isPoisoned || c.isVacant } ∧
      ∀ rest b, ((failed.after rest).perform b).1 = ((c.after rest).perform b).1) ∧
    (∀ s program inner, c.perform (.fetchAround s program inner) =
      (.around (c.fetch s program).1 (if c.isVacant then some .busy else none),
        (c.fetch s program).2)) ∧
    ∀ (guarded : ToolpathCache) (s : Settings) (program : List Text), guarded.isFilling = true →
      guarded.perform (.fetchIfFree s program) = (.busy, guarded) := by
  have h := after_isMemo isMemo_empty actions
  intro c
  refine ⟨?_, ?_, ?_, ?_, ?_, h.perform_fetchAround, fun _ s program hg => perform_of_filling hg s program⟩
  · rw [h.vacant, Option.isNone_iff_eq_none]
  · intro a
    have hnext := perform_isMemo h a
    rw [sequence?_perform h a, hnext.nodes, firstJob, List.foldl_append]
    rfl
  · intro a q hq
    have hnext := perform_isMemo h a
    rw [sequence?_perform h a] at hq
    refine ⟨hnext.serial q hq, ?_⟩
    intro rest b hrest hb
    -- the sequence is in the cache behind the first request, and so behind the later one
    have hlater := after_isMemo hnext rest
    have hstored := (hnext.after_of_some hq hrest).1
    rw [sequence?_perform hlater b]
    exact (hlater.perform_of_some hstored hb).1
  · intro rest hrest
    exact h.completed_after hrest
  · intro s program failed
    have hfailed := (h.perform_fetchFailing s program).2
    refine ⟨hfailed, ?_⟩
    intro rest b
    obtain ⟨mark, hmark⟩ := after_poisoned h (c.isPoisoned || c.isVacant) rest
    obtain ⟨mark', hanswer⟩ := perform_poisoned (after_isMemo h rest).free mark b
    change (((c.perform (.fetchFailing s program)).2.after rest).perform b).1 = _
    rw [hfailed, hmark, hanswer]

end

end ToolpathCache
end PenPlotter
