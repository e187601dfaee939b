import RankedRetrieval.Proofs.Plan.Guarded
import RankedRetrieval.Proofs.Plan.Matched
import RankedRetrieval.Proofs.Plan.Paired

set_option autoImplicit false

/-!
# Two ways to statistics

The statistics of counts are either known of a term or measured by a walk. Both come to the same:
the number, the sum and the largest of the positive counts of whole documents, which no count of a
passage exceeds (`surveys_of_build`). That takes counts that have room for the occurrences.
-/

namespace RankedRetrieval

/-- The statistics of all documents with a positive count. -/
def TermStatistics.Surveys (s : TermStatistics) (count : DocId → Nat) : Prop :=
  ∃ documents : List DocId, documents.Pairwise (· < ·) ∧
    (∀ d, d ∈ documents ↔ d ≠ terminated ∧ 0 < count d) ∧
    s.documentFrequency = documents.length ∧
    s.collectionFrequency = (documents.map count).sum ∧
    s.maxCount = (documents.map count).max?.getD 0

namespace TermStatistics

variable {s s' : TermStatistics} {count count' : DocId → Nat}

theorem Tallies.surveys (h : s.Tallies count) (nowhere : count terminated = 0) :
    s.Surveys count := by
  obtain ⟨documents, occurring, rfl⟩ := h
  have positive : ∀ n ∈ documents.map count, 0 < n := List.forall_mem_map.2 occurring.positive
  refine ⟨documents, occurring.ascending, fun d => ⟨fun member => ⟨?_, occurring.positive d member⟩,
    fun found => occurring.complete d found.1 found.2⟩, ?_⟩
  · rintro rfl
    have some := occurring.positive terminated member
    omega
  · rw [← eq_ofCounts positive]
    exact ⟨List.length_map _, List.sum_eq_foldl.symm, rfl⟩

theorem Surveys.congr (h : s.Surveys count) (same : ∀ d, d ≠ terminated → count' d = count d) :
    s.Surveys count' := by
  obtain ⟨documents, ascending, members, frequency, total, most⟩ := h
  have counts : documents.map count' = documents.map count :=
    List.map_congr_left fun d member => same d ((members d).1 member).1
  refine ⟨documents, ascending, fun d => ?_, frequency, counts ▸ total, counts ▸ most⟩
  rw [members]
  exact and_congr_right fun notDone => by rw [same d notDone]

theorem Surveys.unique (h : s.Surveys count) (h' : s'.Surveys count) : s = s' := by
  obtain ⟨documents, ascending, members, frequency, total, most⟩ := h
  obtain ⟨documents', ascending', members', frequency', total', most'⟩ := h'
  obtain rfl : documents = documents' :=
    List.Pairwise.eq_of_mem_iff ascending ascending' fun d => (members d).trans (members' d).symm
  cases s
  cases s'
  simp_all

end TermStatistics

namespace Plan

open Cursor

variable {α : Type}

/-- The count of a whole document, by a cursor that is brought there. -/
def wholeCount (plan : Plan α) (d : DocId) : Nat :=
  ((ofPlan plan).along [] d).countAt (.whole d)

theorem totalIn_of_extent {plan : Plan α} (answers : plan.capabilities.has .extent = true)
    (ctx : Context) : plan.totalIn ctx = (plan.spansIn ctx).length := by
  cases plan with
  | counts | synonymCounts => cases answers
  | _ => rfl

section Built

variable [Arithmetic α] {w : Workshop} {plan : Plan α}

theorem wholeCount_eq (ordered : w.collection.Ordered) (built : Built w plan) {d : DocId}
    (notDone : d ≠ terminated) : plan.wholeCount d = plan.countIn (.whole d) := by
  have walkable := built.walkable_trim ordered
  have starts : Trails plan.trim.Stands d (ofPlan plan).position :=
    ⟨0, UInt32.zero_le, stands_start_trim plan walkable⟩
  obtain ⟨same, here⟩ := stands_along (c := ofPlan plan) walkable starts (List.forall_mem_nil _)
  have whole : (Context.whole d).document ≠ terminated := notDone
  rw [wholeCount, Cursor.countAt, same, ← countIn_trim _ whole, ← countAt_trim _ whole]
  exact countAt_eq _ walkable here (UInt32.le_refl d) ((follows _ walkable).first here).le whole

omit [Arithmetic α] in
theorem totalIn_terminated (walkable : plan.Walkable) : plan.totalIn (.whole terminated) = 0 :=
  plan.totalIn_of_not_has (follows plan walkable).below

/-- A walk comes to an end with the survey of what is counted. -/
theorem surveys_measure (ordered : w.collection.Ordered) (below : w.collection.BelowEnd)
    (built : Built w plan) :
    ∃ s, plan.measure = .ok s ∧ s.Surveys fun d => plan.countIn (.whole d) := by
  obtain ⟨s, measured⟩ := Cursor.measureFrom_ok (ofPlan plan) .empty
  have nowhere := congrArg wrapped (totalIn_terminated (built.walkable ordered below))
  exact ⟨s, measured, (tallies_measure ordered built measured).surveys nowhere⟩

end Built

end Plan

namespace Workshop

open Plan Cursor TermStatistics

variable {α : Type} [Arithmetic α] {w : Workshop} {plan : Plan α}

/-- Below its passage filters a query counts the same in whole documents. -/
theorem build_unfiltered {q : Query} (built : w.build q = .ok plan)
    (answers : plan.capabilities.has .count = true) :
    ∃ inner : Plan α, w.build (w.vocabulary.unfiltered q) = .ok inner ∧
      inner.capabilities.has .count = true ∧
      ∀ d, inner.totalIn (.whole d) = plan.totalIn (.whole d) := by
  induction q generalizing plan with
  | node operator parameters children ih =>
    by_cases form : w.vocabulary.form? operator = some .passageFilter
    · obtain ⟨m, plans, resolved, builtAll, assembled⟩ := assembled_of_build built
      have filters : m.form = .passageFilter :=
        Option.some.inj ((Vocabulary.form_of_resolve resolved).symm.trans form)
      obtain ⟨child, below, rfl, rfl, occurs, rfl⟩ := of_passageFilter assembled filters
      cases builtAll with
      | cons first _ =>
        obtain ⟨inner, innerBuilt, counts, same⟩ :=
          ih child List.mem_cons_self first (count_of_extent occurs)
        rw [Vocabulary.unfiltered_filter form]
        exact ⟨inner, innerBuilt, counts, fun d => (same d).trans (totalIn_of_extent occurs _)⟩
    · rw [Vocabulary.unfiltered_eq_self form]
      exact ⟨plan, built, answers, fun _ => rfl⟩

/-- The statistics of a query that counts are found, and are the survey of what it counts. -/
theorem surveys_statistics {steps : List DraftStep} (collected : w.collection = .ofSteps steps)
    (below : w.collection.BelowEnd) {q : Query} (built : w.build q = .ok plan)
    (fits : ∀ d, d ≠ terminated → plan.totalIn (.whole d) < 2 ^ 32) :
    ∃ s, w.statistics q plan = .ok s ∧ s.Surveys fun d => plan.countIn (.whole d) := by
  have ordered : w.collection.Ordered := collected ▸ Collection.ordered_ofSteps steps
  have whole := built_of_build w q built
  have found : ∃ s, w.statistics q plan = .ok s := by
    unfold statistics
    split
    rename_i operator parameters children inner
    split
    · rename_i leaf
      obtain ⟨term, given, _⟩ := readsTerm_of_build collected built (inner ▸ leaf)
      rw [inner] at given
      exact ⟨_, bind_eq_ok given rfl⟩
    · obtain ⟨s, measured, _⟩ := surveys_measure ordered below whole
      exact ⟨s, measured⟩
  obtain ⟨s, known⟩ := found
  obtain ⟨count, tallies, least, same⟩ := tallies_of_statistics collected built known
  have nowhere : count terminated = 0 :=
    Nat.le_zero.1 ((least terminated).trans_eq (totalIn_terminated (whole.walkable ordered below)))
  refine ⟨s, known, (tallies.surveys nowhere).congr fun d notDone => ?_⟩
  exact (countIn_of_lt (fits d notDone)).trans (same d (fits d notDone)).symm

/-- Whether the statistics are known of a term or measured, with passage filters or below them, they
are the survey of the counts of whole documents, and no count that a cursor reads of a passage
exceeds the largest, whatever moves it has made. No document may have more occurrences than a count
has room for. -/
theorem surveys_of_build (steps : List DraftStep) (w : Workshop) (q : Query) (plan : Plan α)
    (collected : w.collection = .ofSteps steps) (below : w.collection.BelowEnd)
    (built : w.build q = .ok plan) (answers : plan.capabilities.has .count = true)
    (fits : ∀ d, d ≠ terminated → plan.totalIn (.whole d) < 2 ^ 32) :
    ∃ s, w.statistics q plan = .ok s ∧ plan.measure = .ok s ∧
      (∃ inner : Plan α, w.build (w.vocabulary.unfiltered q) = .ok inner ∧
        inner.capabilities.has .count = true ∧ inner.measure = .ok s) ∧
      s.Surveys plan.wholeCount ∧
      ∀ (targets : List DocId) (ctx : Context), ctx.document ≠ terminated →
        (targets.foldl tryMove (ofPlan plan)).countAt ctx ≤ s.maxCount := by
  have ordered : w.collection.Ordered := collected ▸ Collection.ordered_ofSteps steps
  have whole := built_of_build w q built
  have walkable := whole.walkable ordered below
  obtain ⟨s, known, surveys⟩ := surveys_statistics collected below built fits
  obtain ⟨s', measured, surveys'⟩ := surveys_measure ordered below whole
  obtain ⟨inner, innerBuilt, counts, same⟩ := build_unfiltered built answers
  obtain ⟨s'', measured', surveys''⟩ :=
    surveys_measure ordered below (built_of_build w _ innerBuilt)
  obtain rfl := surveys.unique surveys'
  obtain rfl := surveys.unique (surveys''.congr fun d _ => congrArg wrapped (same d).symm)
  refine ⟨s, known, measured, ⟨inner, innerBuilt, counts, measured'⟩,
    surveys.congr fun d => wholeCount_eq ordered whole, fun targets ctx notDone => ?_⟩
  obtain ⟨there, t, here⟩ :=
    standing_moves (c := ofPlan plan) walkable (standing_ofPlan walkable) targets
  have there : (targets.foldl tryMove (ofPlan plan)).plan = plan := there
  rw [there] at here
  rw [Cursor.countAt, there]
  calc plan.countAt (targets.foldl tryMove (ofPlan plan)).position ctx
      ≤ plan.totalIn ctx := plan.countAt_le walkable notDone here
    _ ≤ plan.totalIn (.whole ctx.document) := plan.totalIn_le_whole ctx
    _ = plan.countIn (.whole ctx.document) := (countIn_of_lt (fits _ notDone)).symm
    _ ≤ s.maxCount := (tallies_measure ordered whole measured).le_maxCount notDone

section Example

def nearbyInPassage : Query := .node "passage-filter" .empty [nearby]

theorem matched_nearbyInPassage {d : DocId} (other : d ≠ 0) :
    (workshopOf 0 ["a", "b", "a", "c", "b"]).matched nearbyInPassage d = false := by
  have first : (workshopOf 0 ["a", "b", "a", "c", "b"]).listOf (.single "term" (.string "a")) =
      #[{ document := 0, spans := [⟨0, 1⟩, ⟨2, 3⟩] }] := rfl
  have leaf : (workshopOf 0 ["a", "b", "a", "c", "b"]).matched
      (.node "extents" (.single "term" (.string "a")) []) d = false := by
    change ((workshopOf 0 ["a", "b", "a", "c", "b"]).listOf _).any _ = false
    rw [first]
    simpa using other.symm
  change ((_ && _) && _) = false
  rw [leaf]
  rfl

/-- The windows are measured: there are two in the only document. -/
theorem surveys_nearbyInPassage : ∃ (plan : Plan Float) (s : TermStatistics),
    (workshopOf 0 ["a", "b", "a", "c", "b"]).build nearbyInPassage = .ok plan ∧
      plan.capabilities.has .count = true ∧ plan.wholeCount 0 = 2 ∧
      (∀ d, d ≠ terminated → plan.totalIn (.whole d) < 2 ^ 32) ∧
      (workshopOf 0 ["a", "b", "a", "c", "b"]).statistics nearbyInPassage plan = .ok s ∧
      plan.measure = .ok s ∧ s.Surveys plan.wholeCount ∧
      ∀ (targets : List DocId) (ctx : Context), ctx.document ≠ terminated →
        (targets.foldl tryMove (ofPlan plan)).countAt ctx ≤ s.maxCount := by
  have computed : ((workshopOf 0 ["a", "b", "a", "c", "b"]).build (α := Float)
      nearbyInPassage).toOption.any fun plan =>
        plan.capabilities.has .count && plan.totalIn (.whole 0) == 2 := by decide +kernel
  cases built : (workshopOf 0 ["a", "b", "a", "c", "b"]).build (α := Float) nearbyInPassage with
  | error e =>
    rw [built] at computed
    cases computed
  | ok plan =>
    rw [built] at computed
    obtain ⟨answers, two⟩ : plan.capabilities.has .count = true ∧ plan.totalIn (.whole 0) = 2 := by
      simpa [Except.toOption] using computed
    have fits (d : DocId) (_ : d ≠ terminated) : plan.totalIn (.whole d) < 2 ^ 32 := by
      by_cases only : d = 0
      · rw [only, two]
        decide
      · have absent := (has_of_build built d).trans (matched_nearbyInPassage only)
        rw [plan.totalIn_of_not_has absent]
        decide
    obtain ⟨s, known, measured, _, surveys, most⟩ := surveys_of_build
      [.tokens 0 "document" ["a", "b", "a", "c", "b"]] _ nearbyInPassage plan rfl
      (Collection.belowEnd_ofSteps (by decide)) built answers fits
    have ordered := Collection.ordered_ofSteps [.tokens 0 "document" ["a", "b", "a", "c", "b"]]
    have counted := wholeCount_eq (w := workshopOf 0 ["a", "b", "a", "c", "b"]) ordered
      (built_of_build _ _ built) (d := 0) (by decide)
    have counted := counted.trans (congrArg wrapped two)
    exact ⟨plan, s, rfl, answers, counted, fits, known, measured, surveys, most⟩

end Example

end Workshop

end RankedRetrieval
