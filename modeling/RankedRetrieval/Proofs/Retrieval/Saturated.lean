import Mathlib
import RankedRetrieval.Proofs.Retrieval.Bounded
import RankedRetrieval.Proofs.Score.Saturation

set_option autoImplicit false

/-!
# Saturating scores within bounds

Wherever a model of saturating counts stands in a query, and however it is driven, no score is above
its upper bound. Zero is a lower bound as long as the term occurs in no more documents than the
field of the lengths lists; every document with a commoner term scores below zero
(`saturated_within_bounds`).
-/

namespace RankedRetrieval.Workshop

open Plan

theorem bm25_within_bounds {w : Workshop} {steps : List DraftStep}
    (collected : w.collection = .ofSteps steps) {q : Query} {side counted : Plan ℝ}
    {model : Bm25 ℝ} (built : w.build q = .ok (.bm25 side counted model)) {d : DocId}
    {p : Position} (driven : Driven (.bm25 side counted model) d p) (regular : model.Regular)
    (ctx : Context) (delta : Option (Delta ℝ)) (le : d ≤ ctx.document)
    (notDone : ctx.document ≠ terminated) :
    ((bm25 side counted model).bounds.lower ≤
          ((bm25 side counted model).score p ctx delta).value ↔
        model.term.documentFrequency ≤ model.field.documentCount ∨
          counted.countAt (p.part 1) ctx = 0) ∧
      (counted.totalIn (.whole ctx.document) < 2 ^ 32 →
        (model.lengths.countsWithinLength = true → ClippedOnce side ctx.passage) →
          ((bm25 side counted model).score p ctx delta).value ≤
            (bm25 side counted model).bounds.upper) := by
  have ordered : w.collection.Ordered := collected ▸ Collection.ordered_ofSteps steps
  have walkable := (built_of_build w q built).walkable_trim ordered
  have attends := driven.attends_bm25 walkable
  have paired := paired_of_build_bm25 collected built
  rw [value_bm25 walkable.1 attends ctx delta le notDone]
  refine ⟨Bm25.lower_le_score_iff regular, fun fits once => ?_⟩
  exact Bm25.score_le_upper regular
    (paired.fits ctx _ notDone fits (attends.countAt_le walkable.2 ctx notDone) once)

/-- The upper bound holds where counts stay within the lengths that are read beside them and have
room for the occurrences in the document, and the lower bound exactly where the gain of the term is
not negative or nothing is counted. -/
theorem saturated_within_bounds (steps : List DraftStep) (w : Workshop) (q : Query) (plan : Plan ℝ)
    (collected : w.collection = .ofSteps steps) (built : w.build q = .ok plan) (d : DocId)
    (p r : Position) (driven : Driven plan d p) (side counted : Plan ℝ) (model : Bm25 ℝ)
    (among : Part plan p (.bm25 side counted model) r) (regular : model.Regular)
    (ctx : Context) (delta : Option (Delta ℝ)) (le : d ≤ ctx.document)
    (notDone : ctx.document ≠ terminated) :
    model.idf = Real.log
        ((model.field.documentCount + 1) / (model.term.documentFrequency + 1 / 2)) ∧
      ((bm25 side counted model).bounds.lower ≤
          ((bm25 side counted model).score r ctx delta).value ↔
        model.term.documentFrequency ≤ model.field.documentCount ∨
          counted.countAt (r.part 1) ctx = 0) ∧
      (counted.totalIn (.whole ctx.document) < 2 ^ 32 →
        (model.lengths.countsWithinLength = true → ClippedOnce side ctx.passage) →
          ((bm25 side counted model).score r ctx delta).value ≤
            (bm25 side counted model).bounds.upper) := by
  obtain ⟨q', built'⟩ := build_part among built
  exact ⟨model.idf_eq, bm25_within_bounds collected built' (driven_of_part driven among) regular ctx
    delta le notDone⟩

/-- What a query evaluates, it scores within the bounds. -/
theorem evaluations_within_saturation {r : Retrieval} {steps : List DraftStep}
    (collected : r.collection = .ofSteps steps) {q : Query} {parameters : Parameters}
    {plan : Plan ℝ} (built : (r.workshop parameters).build q = .ok plan)
    {scheme : Option PassageScheme} {e : Evaluation ℝ}
    (member : e ∈ (r.walkOf parameters plan).evaluations scheme) {side counted : Plan ℝ}
    {model : Bm25 ℝ} {p : Position}
    (among : Part plan e.root.position (.bm25 side counted model) p) (regular : model.Regular)
    (delta : Option (Delta ℝ)) :
    ((bm25 side counted model).bounds.lower ≤
          ((bm25 side counted model).score p e.context delta).value ↔
        model.term.documentFrequency ≤ model.field.documentCount ∨
          counted.countAt (p.part 1) e.context = 0) ∧
      (counted.totalIn (.whole e.context.document) < 2 ^ 32 →
        (model.lengths.countsWithinLength = true → ClippedOnce side e.context.passage) →
          ((bm25 side counted model).score p e.context delta).value ≤
            (bm25 side counted model).bounds.upper) := by
  obtain ⟨notDone, driven⟩ := r.driven_evaluations parameters plan scheme e member
  obtain ⟨q', built'⟩ := build_part among built
  exact bm25_within_bounds (w := r.workshop parameters) collected built'
    (driven_of_part driven among) regular e.context delta (UInt32.le_refl _) notDone

section Example

def oneTitled : Workshop where
  collection := .ofSteps
    [.tokens 0 "document" ["a"], .tokens 1 "document" ["a"], .tokens 0 "title" ["t"]]
  vocabulary := .builtIn
  levels := []

def beside (field : String) : Query :=
  .node "bm25" (.single "field" (.string field)) [countsOf "a"]

def saturating (field : String) (model : Bm25 ℝ) : Plan ℝ :=
  .bm25 (.lengths (oneTitled.collection.lengths field))
    (.counts (oneTitled.collection.postings "document" "a")) model

theorem defaultK1_nonneg : 0 ≤ (Arithmetic.given 1.2 : ℝ) := by
  have unpacked : (1.2 : Float).toModel.unpack =
      .finite .positive 5404319552844595 (-52) (by decide) := rfl
  rw [given_real unpacked]
  positivity

theorem defaultB_real : (Arithmetic.given 0.75 : ℝ) = 3 / 4 := by
  have unpacked : (0.75 : Float).toModel.unpack =
      .finite .positive 6755399441055744 (-53) (by decide) := rfl
  rw [given_real unpacked]
  norm_num

theorem build_beside (field : String) : ∃ model : Bm25 ℝ,
    oneTitled.build (beside field) = .ok (saturating field model) ∧ model.Regular ∧
      model.term = oneTitled.collection.termStatistics "document" "a" ∧
      model.field = oneTitled.collection.fieldStatistics field := by
  have leaf : oneTitled.build (α := ℝ) (countsOf "a") =
      .ok (.counts (oneTitled.collection.postings "document" "a")) :=
    build_of_assembled (m := ⟨Capability.count.offers, .termCounts⟩) rfl .nil (.counts rfl rfl)
  have known : oneTitled.statistics (countsOf "a")
      (.counts (α := ℝ) (oneTitled.collection.postings "document" "a")) =
        .ok (oneTitled.collection.termStatistics "document" "a") := by
    unfold Workshop.statistics countsOf
    rw [Vocabulary.unfiltered_leaf]
    rfl
  have built : oneTitled.build (beside field) = .ok (saturating field _) :=
    build_of_assembled (m := ⟨Capability.scored.offers, .bm25⟩) rfl (.cons leaf .nil)
      (.scorerOfCounts rfl rfl known)
  refine ⟨_, built, ⟨?_, ?_, ?_⟩, rfl, rfl⟩
  · exact defaultK1_nonneg
  · exact (by norm_num : (0 : ℝ) ≤ 3 / 4).trans_eq defaultB_real.symm
  · exact defaultB_real.trans_le (by norm_num)

theorem saturated_within_bounds_text : ∃ model : Bm25 ℝ,
    oneTitled.build (beside "document") = .ok (saturating "document" model) ∧ model.Regular ∧
      Driven (saturating "document" model) 0 (saturating "document" model).start ∧
      (Plan.counts (α := ℝ) (oneTitled.collection.postings "document" "a")).totalIn (.whole 0) <
        2 ^ 32 ∧
      (saturating "document" model).bounds.lower ≤
        ((saturating "document" model).score (saturating "document" model).start
          (.whole 0) none).value ∧
      ((saturating "document" model).score (saturating "document" model).start
          (.whole 0) none).value ≤ (saturating "document" model).bounds.upper := by
  obtain ⟨model, built, regular, known, listed⟩ := build_beside "document"
  obtain ⟨_, lower, upper⟩ := saturated_within_bounds _ oneTitled (beside "document") _ rfl built 0
    _ _ .start _ _ model (.self _ _) regular (.whole 0) none UInt32.zero_le (by decide)
  have rare : model.term.documentFrequency ≤ model.field.documentCount := by
    rw [known, listed]
    decide
  have fits : (Plan.counts (α := ℝ) (oneTitled.collection.postings "document" "a")).totalIn
      (.whole 0) < 2 ^ 32 := by decide +kernel
  exact ⟨model, built, regular, .start, fits, lower.2 (.inl rare),
    upper fits fun _ => .inl (Nat.zero_le 1)⟩

/-- A term of two documents, beside the lengths of a field that lists one: its scores are below
their lower bound. -/
theorem score_below_bound_common : ∃ model : Bm25 ℝ,
    oneTitled.build (beside "title") = .ok (saturating "title" model) ∧ model.Regular ∧
      Driven (saturating "title" model) 0 (saturating "title" model).start ∧
      ((saturating "title" model).score (saturating "title" model).start (.whole 0) none).value <
        (saturating "title" model).bounds.lower := by
  obtain ⟨model, built, regular, known, listed⟩ := build_beside "title"
  have walkable := (built_of_build _ _ built).walkable_trim
    (Collection.ordered_ofSteps _ : oneTitled.collection.Ordered)
  have driven : Driven (saturating "title" model) 0 (saturating "title" model).start := .start
  have attends := driven.attends_bm25 walkable
  have common : ¬ model.term.documentFrequency ≤ model.field.documentCount := by
    rw [known, listed]
    decide
  have counted : (Plan.counts (oneTitled.collection.postings "document" "a") : Plan ℝ).countAt
      ((saturating "title" model).start.part 1) (.whole 0) = 1 := rfl
  have value : ((saturating "title" model).score (saturating "title" model).start
      (.whole 0) none).value = model.score 1 _ :=
    counted ▸ value_bm25 walkable.1 attends (.whole 0) none UInt32.zero_le (by decide)
  refine ⟨model, built, regular, driven, not_le.1 fun within => ?_⟩
  rw [value] at within
  rcases (Bm25.lower_le_score_iff regular).1 within with rare | absent
  · exact common rare
  · cases absent

end Example

end RankedRetrieval.Workshop
