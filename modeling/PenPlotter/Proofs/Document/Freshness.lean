import Mathlib
import PenPlotter.Document.Session

/-!
# Fresh toolpaths

The cache of a document knows neither the program nor the settings that its
toolpath was compiled from.  What is handed out is still the toolpath of the
program that is open, since every action that changes the program discards the
cache.  The settings are those of the first request since then.

## Main definitions

* `Action.settings?` — the settings that a request for the toolpath brings.
* `Action.renews` — the actions after which a toolpath is compiled anew.
* `Document.after` — the document behind some actions.
* `Document.firstSettings` — the settings of the first request since a renewal.
* `Document.IsFresh` — the cache holds the toolpath of the program, or nothing.

## Main results

* `perform_isFresh` — every action keeps the cache fresh.
* `perform_request` — a request is answered with the toolpath of the program.
* `run_toolpath` — **so is every request of a run, and by one sequence until the
  next renewal.**
-/

namespace PenPlotter

/-- The settings that a request for the toolpath brings. -/
def Action.settings? : Action → Option Settings
  | toolpath s | toolpathIfFree s => some s
  | _ => none

/-- After such an action a toolpath is compiled anew: any attempt to load a program,
clearing the document, closing one that is open, and giving up the toolpath. -/
def Action.renews (d : Document) : Action → Bool
  | load _ _ | clear | discardToolpath => true
  | close => d.cursor.isOpen
  | _ => false

namespace Document

section

variable [Trigonometry]

/-! ### Runs -/

/-- The document behind some actions. -/
def after (d : Document) (actions : List Action) : Document := (d.run actions).2

/-- The settings of the first request since the last renewal, if there was one, when
those before the actions are known. -/
def firstSettings (d : Document) (since : Option Settings) : List Action → Option Settings
  | [] => since
  | a :: rest =>
    firstSettings (d.perform a).2 (if a.renews d then none else since.or a.settings?) rest

@[simp] theorem after_nil (d : Document) : d.after [] = d := rfl

@[simp] theorem after_cons (d : Document) (a : Action) (rest : List Action) :
    d.after (a :: rest) = (d.perform a).2.after rest := rfl

@[simp] theorem firstSettings_nil (d : Document) (since : Option Settings) :
    d.firstSettings since [] = since := rfl

@[simp] theorem firstSettings_cons (d : Document) (since : Option Settings) (a : Action)
    (rest : List Action) : d.firstSettings since (a :: rest) =
      (d.perform a).2.firstSettings (if a.renews d then none else since.or a.settings?) rest := rfl

theorem run_cons (d : Document) (a : Action) (rest : List Action) :
    d.run (a :: rest) =
      ((d.perform a).1 :: ((d.perform a).2.run rest).1, ((d.perform a).2.run rest).2) := rfl

theorem after_append (d : Document) (actions rest : List Action) :
    d.after (actions ++ rest) = (d.after actions).after rest := by
  induction actions generalizing d with
  | nil => rfl
  | cons a actions ih => exact ih (d.perform a).2

/-- The answer to an action is given by the document behind the actions before it. -/
theorem run_getElem? (d : Document) (actions : List Action) (i : ℕ) :
    (d.run actions).1[i]? = actions[i]?.map fun a => ((d.after (actions.take i)).perform a).1 := by
  induction actions generalizing d i with
  | nil => rfl
  | cons a rest ih =>
    rw [run_cons]
    cases i with
    | zero => rfl
    | succ i => exact ih (d.perform a).2 i

theorem after_take_succ (d : Document) {actions : List Action} {i : ℕ} {a : Action}
    (h : actions[i]? = some a) :
    d.after (actions.take (i + 1)) = ((d.after (actions.take i)).perform a).2 := by
  rw [List.take_add_one, h, Option.toList_some, after_append]
  rfl

/-! ### Single actions -/

theorem perform_load (d : Document) (s : Settings) (source : Source) :
    (d.perform (.load s source)).2 = (d.load s source).2 := by
  unfold perform
  dsimp only
  split <;> next heq => rw [heq]

/-- A request that does not wait leaves everything but the cache, whether or not it
is answered. -/
theorem perform_toolpathIfFree (d : Document) (s : Settings) :
    (d.perform (.toolpathIfFree s)).2.lines = d.lines ∧
      (d.perform (.toolpathIfFree s)).2.cursor = d.cursor ∧
      (d.perform (.toolpathIfFree s)).2.estimate = d.estimate := by
  unfold perform toolpath? ToolpathCache.fetch?
  cases d.cache.guard <;> exact ⟨rfl, rfl, rfl⟩

/-! ### Freshness -/

/-- The cache holds the toolpath of the program, compiled with the settings of the
first request, or nothing if there was none.  Nobody has it under guard. -/
structure IsFresh (d : Document) (since : Option Settings) : Prop where
  idle : d.cache.IsIdle
  stored : d.cache.stored.map Sequence.nodes = since.map fun s => compile s d.lines

theorem isFresh_empty : IsFresh {} none := ⟨⟨rfl, rfl⟩, rfl⟩

/-- Without a toolpath and without a request the cache is fresh. -/
theorem isFresh_of_discarded {d : Document} (hidle : d.cache.IsIdle)
    (hstored : d.cache.stored = none) : IsFresh d none :=
  ⟨hidle, by rw [hstored]; rfl⟩

/-- A document that differs in neither program nor cache is as fresh. -/
theorem IsFresh.congr {d e : Document} {since : Option Settings} (h : IsFresh d since)
    (hlines : e.lines = d.lines) (hcache : e.cache = d.cache) : IsFresh e since :=
  ⟨hcache ▸ h.idle, by rw [hcache, hlines]; exact h.stored⟩

/-- **A request is answered with the toolpath of the program**, compiled with the
settings of the first request; the sequence is in the cache from then on. -/
theorem IsFresh.fetch {d : Document} {since : Option Settings} (h : IsFresh d since) (s : Settings) :
    (d.cache.fetch s d.lines).1.nodes = compile (since.getD s) d.lines ∧
      (d.cache.fetch s d.lines).2.stored = some (d.cache.fetch s d.lines).1 ∧
      (d.cache.fetch s d.lines).2.IsIdle := by
  have hstored := h.stored
  unfold ToolpathCache.fetch ToolpathCache.request
  cases hq : d.cache.stored with
  | some q =>
    -- the toolpath was compiled for an earlier request
    rw [hq] at hstored
    cases since with
    | none => cases hstored
    | some first => exact ⟨Option.some.inj hstored, hq, h.idle⟩
  | none =>
    rw [hq] at hstored
    cases since with
    | none => exact ⟨rfl, rfl, rfl, h.idle.2⟩
    | some first => cases hstored

/-- The document behind a request, and its answer. -/
theorem perform_request {d : Document} {since : Option Settings} (h : IsFresh d since) {a : Action}
    {s : Settings} (hs : a.settings? = some s) :
    d.perform a = (.sequence (d.cache.fetch s d.lines).1,
      { d with cache := (d.cache.fetch s d.lines).2 }) := by
  cases a with
  | toolpath t => cases hs; rfl
  | toolpathIfFree t =>
    cases hs
    rw [perform, toolpath?, ToolpathCache.fetch?, ToolpathCache.guard, h.idle.1, h.idle.2]
    rfl
  | _ => cases hs

/-- **Every action keeps the cache fresh.** -/
theorem perform_isFresh {d : Document} {since : Option Settings} (h : IsFresh d since) (a : Action) :
    IsFresh (d.perform a).2 (if a.renews d then none else since.or a.settings?) := by
  -- an action that leaves program and cache alone keeps the cache as it was
  have hsame (hrenews : a.renews d = false) (hs : a.settings? = none)
      (hlines : (d.perform a).2.lines = d.lines) (hcache : (d.perform a).2.cache = d.cache) :
      IsFresh (d.perform a).2 (if a.renews d then none else since.or a.settings?) := by
    rw [hrenews, hs, Option.or_none]
    exact h.congr hlines hcache
  -- behind a request the toolpath is stored, by the settings of the first one
  have hrequest (s : Settings) (hs : a.settings? = some s) (hrenews : a.renews d = false) :
      IsFresh (d.perform a).2 (if a.renews d then none else since.or a.settings?) := by
    obtain ⟨hnodes, hstored, hidle⟩ := h.fetch s
    rw [perform_request h hs, hrenews, hs, if_neg Bool.false_ne_true]
    refine ⟨hidle, ?_⟩
    dsimp only
    rw [hstored, Option.map_some, hnodes]
    cases since <;> rfl
  cases a with
  | load s source =>
    have hload : (d.perform (.load s source)).2.cache = d.cache.discard := by
      rw [perform_load, load]
      cases source.lines s.reverseForGlass <;> rfl
    exact isFresh_of_discarded (by rw [hload]; exact h.idle) (by rw [hload]; rfl)
  | clear => exact isFresh_of_discarded h.idle rfl
  | discardToolpath => exact isFresh_of_discarded h.idle rfl
  | close =>
    cases hopen : d.cursor.isOpen with
    | true =>
      rw [Action.renews, hopen]
      unfold perform close
      rw [hopen]
      exact isFresh_of_discarded h.idle rfl
    | false =>
      -- a document that is not open stays as it is, with its toolpath
      have hclose : (d.perform .close).2 = d := by
        unfold perform close
        rw [hopen]
        rfl
      exact hsame hopen rfl (by rw [hclose]) (by rw [hclose])
  | seek line => exact hsame rfl rfl rfl rfl
  | current => exact hsame rfl rfl rfl rfl
  | advance =>
    have hadvance : (d.perform .advance).2.lines = d.lines ∧ (d.perform .advance).2.cache = d.cache := by
      unfold perform advance
      cases d.current <;> exact ⟨rfl, rfl⟩
    exact hsame rfl rfl hadvance.1 hadvance.2
  | lastPenLift line marker => exact hsame rfl rfl rfl rfl
  | toolpath s => exact hrequest s rfl rfl
  | toolpathIfFree s => exact hrequest s rfl rfl

theorem after_isFresh {d : Document} {since : Option Settings} (h : IsFresh d since)
    (actions : List Action) : IsFresh (d.after actions) (d.firstSettings since actions) := by
  induction actions generalizing d since with
  | nil => exact h
  | cons a rest ih => exact ih (perform_isFresh h a)

/-! ### One sequence between renewals -/

theorem fetch_of_stored {c : ToolpathCache} {q : Sequence} (h : c.stored = some q) (s : Settings)
    (lines : List Text) : c.fetch s lines = (q, c) := by
  unfold ToolpathCache.fetch ToolpathCache.request
  rw [h]

/-- A stored sequence stays until the next renewal. -/
theorem stored_perform {d : Document} {since : Option Settings} (h : IsFresh d since) {q : Sequence}
    (hq : d.cache.stored = some q) {a : Action} (ha : a.renews d = false) :
    (d.perform a).2.cache.stored = some q := by
  have hrequest {s : Settings} (hs : a.settings? = some s) :
      (d.perform a).2.cache.stored = some q := by
    rw [perform_request h hs, fetch_of_stored hq]
    exact hq
  cases a with
  | load s source => cases ha
  | clear => cases ha
  | discardToolpath => cases ha
  | close =>
    change d.cursor.isOpen = false at ha
    unfold perform close
    rw [ha]
    exact hq
  | seek line => exact hq
  | current => exact hq
  | advance =>
    unfold perform advance
    cases d.current <;> exact hq
  | lastPenLift line marker => exact hq
  | toolpath s => exact hrequest rfl
  | toolpathIfFree s => exact hrequest rfl

/-- No action of a run from one index up to another renews the toolpath. -/
def IsSteady (d : Document) (actions : List Action) (i j : ℕ) : Prop :=
  ∀ k a, i < k → k < j → actions[k]? = some a → a.renews (d.after (actions.take k)) = false

/-- A sequence that is stored behind an action is stored until the next renewal. -/
theorem stored_after {d : Document} {since : Option Settings} (h : IsFresh d since)
    {actions : List Action} {q : Sequence} {i j : ℕ} (hij : i < j) (hj : j < actions.length)
    (hsteady : IsSteady d actions i j)
    (hq : (d.after (actions.take (i + 1))).cache.stored = some q) :
    (d.after (actions.take j)).cache.stored = some q := by
  induction j, hij using Nat.le_induction with
  | base => exact hq
  | succ k hik ih =>
    have hk : actions[k]? = some actions[k] := List.getElem?_eq_getElem (by omega)
    have hsteadyBefore : IsSteady d actions i k := by
      intro l a hl hlk
      exact hsteady l a hl (by omega)
    have hstored := ih (by omega) hsteadyBefore
    rw [after_take_succ d hk]
    exact stored_perform (after_isFresh h _) hstored (hsteady k _ hik (by omega) hk)

/-- **A document never hands out the toolpath of another program.**  Every request
in a run is answered with the toolpath of the lines at that time, compiled with the
settings of the first request since the last renewal, and every later request up to
the next renewal is answered with the same sequence. -/
theorem run_toolpath (actions : List Action) (i : ℕ) (a : Action) (s : Settings)
    (ha : actions[i]? = some a) (hs : a.settings? = some s) :
    ∃ q, (run {} actions).1[i]? = some (.sequence q) ∧
      q.nodes = compile ((firstSettings {} none (actions.take i)).getD s)
        (after {} (actions.take i)).lines ∧
      ∀ j b t, i < j → actions[j]? = some b → b.settings? = some t → IsSteady {} actions i j →
        (run {} actions).1[j]? = some (.sequence q) := by
  have hfresh := after_isFresh isFresh_empty
  have hi := hfresh (actions.take i)
  have hanswer := perform_request hi hs
  obtain ⟨hnodes, hstored, -⟩ := hi.fetch s
  generalize (after {} (actions.take i)).cache.fetch s (after {} (actions.take i)).lines = fetched
    at hanswer hnodes hstored
  obtain ⟨q, cache⟩ := fetched
  refine ⟨q, ?_, hnodes, ?_⟩
  · rw [run_getElem?, ha, Option.map_some, hanswer]
  · -- the sequence is stored behind this request, and still is at the later one
    intro j b t hij hb ht hsteady
    have hq : (after {} (actions.take (i + 1))).cache.stored = some q := by
      rw [after_take_succ {} ha, hanswer]
      exact hstored
    have hj := (List.getElem?_eq_some_iff.mp hb).1
    have hlater := stored_after isFresh_empty hij hj hsteady hq
    rw [run_getElem?, hb, Option.map_some, perform_request (hfresh _) ht, fetch_of_stored hlater]

end

/-- A program is loaded, asked for twice with a look at its line in between, closed,
and asked for again. -/
def sampleRun : List Action :=
  [.load default (.bytes [71, 49, 32, 88, 49]), .toolpath default, .current,
    .toolpathIfFree { showPenUp := true }, .close, .toolpath default]

theorem run_toolpath_sample :
    (sampleRun[1]? = some (.toolpath default) ∧
      (Action.toolpath default).settings? = some default) ∧
    ∃ q, (run {} sampleRun).1[1]? = some (.sequence q) ∧
      q.nodes = compile ((firstSettings {} none (sampleRun.take 1)).getD default)
        (after {} (sampleRun.take 1)).lines ∧
      ∀ j b t, 1 < j → sampleRun[j]? = some b → b.settings? = some t → IsSteady {} sampleRun 1 j →
        (run {} sampleRun).1[j]? = some (.sequence q) :=
  ⟨⟨rfl, rfl⟩, run_toolpath sampleRun 1 (.toolpath default) default rfl rfl⟩

end Document
end PenPlotter
