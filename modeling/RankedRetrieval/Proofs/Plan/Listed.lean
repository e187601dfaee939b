import RankedRetrieval.Proofs.Collection.Settled
import RankedRetrieval.Proofs.Plan.Trimmed

set_option autoImplicit false

/-!
# Cursors over static scores

A cursor that is moved past each document it stands on visits the documents of its plan
(`mem_visited`). Over a table of static scores these are the documents for which a value was set,
and each has the first of the values it was set to; all others have the last default that was set
(`prior_along`).
-/

namespace RankedRetrieval

namespace Cursor

open Plan

variable {α : Type} {c : Cursor α}

theorem lt_tryMove_next (notDone : c.document ≠ terminated) :
    c.document < (c.tryMove (next c.document)).document := by
  have le := c.plan.le_document_advance c.position (next c.document)
  rw [tryMove, moveTo_next]
  exact UInt32.lt_of_lt_of_le (lt_next notDone) le

/-- The documents that a cursor stands on, when it is moved past one after the other. -/
def visited (c : Cursor α) : List DocId :=
  if _end : c.document = terminated then []
  else c.document :: (c.tryMove (next c.document)).visited
termination_by distance c.document
decreasing_by exact distance_lt (lt_tryMove_next _end)

theorem le_of_mem_visited (c : Cursor α) : ∀ d ∈ c.visited, c.document ≤ d := by
  fun_induction visited c with
  | case1 c done => exact List.forall_mem_nil _
  | case2 c notDone ih =>
    refine List.forall_mem_cons.2 ⟨UInt32.le_refl _, fun d later => ?_⟩
    exact UInt32.le_trans (UInt32.le_of_lt (lt_tryMove_next notDone)) (ih d later)

theorem visited_pairwise (c : Cursor α) : c.visited.Pairwise fun d e => d < e := by
  fun_induction visited c with
  | case1 c done => exact List.Pairwise.nil
  | case2 c notDone ih =>
    refine List.pairwise_cons.2 ⟨fun d later => ?_, ih⟩
    exact UInt32.lt_of_lt_of_le (lt_tryMove_next notDone) (le_of_mem_visited _ d later)

/-- A cursor visits all documents of its plan from the one on that it stands on. -/
theorem mem_visited (walkable : c.plan.trim.Walkable)
    (here : ∃ t, c.plan.trim.Stands t c.position) (d : DocId) :
    d ∈ c.visited ↔ c.plan.trim.has d = true ∧ c.document ≤ d := by
  fun_induction visited c with
  | case1 c done =>
    refine iff_of_false List.not_mem_nil fun ⟨mem, le⟩ => ?_
    rw [done] at le
    rw [UInt32.le_antisymm (le_terminated d) le, (follows c.plan.trim walkable).below] at mem
    cases mem
  | case2 c notDone ih =>
    have f := follows c.plan.trim walkable
    obtain ⟨t, here⟩ := here
    have ahead := UInt32.le_of_lt (lt_next notDone)
    have there := f.move here (UInt32.le_trans (f.first here).le ahead) ahead
    have moved : c.tryMove (next c.document) =
        { c with position := c.plan.trim.advance c.position (next c.document) } := by
      rw [tryMove, moveTo_next, advance_trim]
    rw [moved] at ih ⊢
    rw [List.mem_cons, ih walkable ⟨_, there⟩]
    constructor
    · rintro (rfl | ⟨mem, le⟩)
      · exact ⟨(f.first here).has_of_ne notDone, UInt32.le_refl _⟩
      · exact ⟨mem, UInt32.le_trans ahead (UInt32.le_trans (f.first there).le le)⟩
    · rintro ⟨mem, le⟩
      by_cases same : d = c.document
      · exact .inl same
      · have later : next c.document ≤ d :=
          (next_le_iff notDone).2 (UInt32.lt_of_le_of_ne le (Ne.symm same))
        exact .inr ⟨mem, (f.first there).least mem later⟩

/-- From its start a cursor over an ordered collection visits all documents of its plan. -/
theorem mem_visited_ofPlan [Arithmetic α] {w : Workshop} (ordered : w.collection.Ordered)
    {plan : Plan α} (built : Built w plan) (d : DocId) :
    d ∈ (ofPlan plan).visited ↔ plan.trim.has d = true := by
  have walkable := built.walkable_trim ordered
  have starts := stands_start_trim plan walkable
  have first := ((follows plan.trim walkable).first starts)
  rw [mem_visited (c := ofPlan plan) walkable ⟨0, starts⟩]
  exact ⟨And.left, fun mem => ⟨mem, first.least mem UInt32.zero_le⟩⟩

end Cursor

namespace Axis

variable {β : Type} {key : β → DocId} {entries : Array β}

theorem listed_iff_find? {d : DocId} :
    listed key entries d = true ↔ (entries.find? fun e => key e = d) ≠ none := by
  rw [listed, Array.any_eq_true', ne_eq, Array.find?_eq_none]
  simp

/-- The end is no document, whether it is listed or not. -/
theorem listed_trimmed_iff (ascending : Ascending key entries) {d : DocId} :
    listed key (trimmed key entries) d = true ↔
      d ≠ terminated ∧ (entries.find? fun e => key e = d) ≠ none := by
  by_cases done : d = terminated
  · rw [done, (readable_trimmed ascending).2]
    simp
  · rw [listed_iff_find?, find?_trimmed key entries done]
    simp [done]

end Axis

namespace Workshop

theorem priorPlan_float (w : Workshop) (name : String) :
    (w.priorPlan name : Plan Float) =
      .prior (w.collection.prior name).entries (w.collection.prior name).default := by
  have same : (w.collection.prior name).entries.map (fun entry => (entry.1, entry.2)) =
      (w.collection.prior name).entries := Array.map_id' _
  exact congrArg (fun entries => Plan.prior entries (w.collection.prior name).default) same

end Workshop

namespace Cursor

open Plan Axis

variable {steps : List DraftStep} {w : Workshop}

/-- A cursor over static scores visits the documents that have one, each once and in order. -/
theorem mem_visited_prior (collected : w.collection = .ofSteps steps) (name : String) (d : DocId) :
    d ∈ (ofPlan (w.priorPlan name : Plan Float)).visited ↔
      d ≠ terminated ∧ valuesSet steps name d ≠ [] := by
  have ordered : w.collection.Ordered := collected ▸ Collection.ordered_ofSteps steps
  have listed := listed_trimmed_iff (ordered.prior name) (d := d)
  rw [mem_visited_ofPlan ordered (.prior name), Workshop.priorPlan_float]
  refine listed.trans (and_congr_right fun _ => ?_)
  rw [collected, Collection.find?_prior]
  simp

theorem score_prior (collected : w.collection = .ofSteps steps) (name : String) {d : DocId}
    (notDone : d ≠ terminated) {targets : List DocId} (within : ∀ t ∈ targets, t ≤ d)
    (passage : Option Span) (delta : Option (Delta Float)) :
    (((ofPlan (w.priorPlan name : Plan Float)).along targets d).score ⟨d, passage⟩ delta).1 =
      (valuesSet steps name d).head?.getD (lastDefault steps name) := by
  have ordered : w.collection.Ordered := collected ▸ Collection.ordered_ofSteps steps
  have walkable := (Built.prior (w := w) (α := Float) name).walkable_trim ordered
  obtain ⟨same, here⟩ := stands_along (c := ofPlan (w.priorPlan name : Plan Float)) walkable
    ⟨0, UInt32.zero_le, stands_start_trim _ walkable⟩ within
  rw [score]
  generalize (ofPlan (w.priorPlan name : Plan Float)).along targets d = c at same here
  have le := ((follows _ walkable).first here).le
  change c.plan = w.priorPlan name at same
  change (w.priorPlan name : Plan Float).trim.Stands d c.position at here
  change (w.priorPlan name : Plan Float).trim.Walkable at walkable
  rw [Workshop.priorPlan_float] at walkable here
  have found := entryAt_eq_find? walkable.1 here (UInt32.le_refl d) le
  rw [entryAt_trimmed _ _ notDone, find?_trimmed _ _ notDone, collected, Collection.find?_prior]
    at found
  rw [same, Workshop.priorPlan_float, Plan.score, collected, found, Option.map_map,
    Collection.default_prior]
  exact congrArg (Option.getD · _) Option.map_id'

/-- A cursor over static scores visits each document that was set, once and in ascending order, and
scores every document with the first value set for it, or with the last default if none was. That is
the last value set exactly where the first and the last one are the same. Its table is strictly
ascending, and is what sorting leaves of the settings. -/
theorem prior_along (steps : List DraftStep) (w : Workshop)
    (collected : w.collection = .ofSteps steps) (name : String) :
    Ascending Prod.fst (w.collection.prior name).entries ∧
      (w.collection.prior name).entries.toList =
        Table.firsts (Table.byDocument (priorSettings steps name)) ∧
      (ofPlan (w.priorPlan name : Plan Float)).visited.Pairwise (fun d e => d < e) ∧
      (∀ d, d ∈ (ofPlan (w.priorPlan name : Plan Float)).visited ↔
        d ≠ terminated ∧ valuesSet steps name d ≠ []) ∧
      ∀ (d : DocId) (targets : List DocId) (passage : Option Span) (delta : Option (Delta Float)),
        d ≠ terminated → (∀ t ∈ targets, t ≤ d) →
        let score :=
          (((ofPlan (w.priorPlan name : Plan Float)).along targets d).score ⟨d, passage⟩ delta).1
        score = (valuesSet steps name d).head?.getD (lastDefault steps name) ∧
          (score = (valuesSet steps name d).getLast?.getD (lastDefault steps name) ↔
            (valuesSet steps name d).head? = (valuesSet steps name d).getLast?) := by
  have ordered : w.collection.Ordered := collected ▸ Collection.ordered_ofSteps steps
  refine ⟨ordered.prior name, ?_, visited_pairwise _, mem_visited_prior collected name, ?_⟩
  · rw [collected, Collection.entries_prior]
  intro d targets passage delta notDone within score
  have first : score = (valuesSet steps name d).head?.getD (lastDefault steps name) :=
    score_prior collected name notDone within passage delta
  refine ⟨first, ?_⟩
  rw [first]
  cases valuesSet steps name d with
  | nil => exact iff_of_true rfl rfl
  | cons value rest =>
    rw [List.head?_cons, List.getLast?_cons, Option.getD_some, Option.getD_some, Option.some_inj]

section Example

def reset : List DraftStep :=
  [.prior "x" 2 5.0, .prior "x" 0 1.0, .priorDefault "x" 3.0, .prior "x" 0 2.0,
    .priorDefault "x" 4.0]

def resetWorkshop : Workshop :=
  { collection := .ofSteps reset, vocabulary := .builtIn, levels := [] }

/-- Document 2 has the value that was set, and document 1 the last default. -/
theorem prior_along_reset :
    (resetWorkshop.collection = .ofSteps reset ∧ (2 : DocId) ≠ terminated ∧
      (1 : DocId) ≠ terminated) ∧
      2 ∈ (ofPlan (resetWorkshop.priorPlan "x" : Plan Float)).visited ∧
      (((ofPlan (resetWorkshop.priorPlan "x" : Plan Float)).along [1] 2).score (.whole 2) none).1 =
        5.0 ∧
      (((ofPlan (resetWorkshop.priorPlan "x" : Plan Float)).along [] 1).score (.whole 1) none).1 =
        4.0 := by
  obtain ⟨_, _, _, visits, scores⟩ := prior_along reset resetWorkshop rfl "x"
  have listed := (scores 2 [1] none none (by decide) (List.forall_mem_singleton.2 (by decide))).1
  have other := (scores 1 [] none none (by decide) (List.forall_mem_nil _)).1
  exact ⟨⟨rfl, by decide, by decide⟩, (visits 2).2 ⟨by decide, List.cons_ne_nil _ _⟩, listed, other⟩

/-- Document 0 has the first of its two values, not the last. -/
theorem prior_along_overwritten :
    (valuesSet reset "x" 0).getLast? = some 2.0 ∧
      (((ofPlan (resetWorkshop.priorPlan "x" : Plan Float)).along [] 0).score (.whole 0) none).1 ≠
        2.0 := by
  decide +kernel

end Example

end Cursor

end RankedRetrieval
