import RankedRetrieval.Proofs.Plan.Driven
import RankedRetrieval.Proofs.Plan.Paired
import RankedRetrieval.Proofs.Retrieval.Exhaustive

set_option autoImplicit false

/-!
# Scores within bounds

The bounds of a smoothed likelihood are known before any document is scored. Wherever it stands in a
query, and however it is driven, no score is below its lower bound. None is above the upper one
either, but for a term that occurs nowhere: documents that are shorter than the shortest of the
field, which are those that the field does not list, then score higher (`score_within_bounds`). A
query is driven to what it evaluates, so all this holds of its evaluations
(`evaluations_within_bounds`).
-/

namespace RankedRetrieval

namespace Plan

open Axis

variable {α : Type} [Arithmetic α] {side counted : Plan α} {model : Dirichlet α} {d : DocId}
  {p : Position}

def scoredChildren : Plan α → List (Plan α)
  | .combine _ _ children _ => children
  | .log child | .scale _ child => [child]
  | .require _ scorer => [scorer]
  | _ => []

omit [Arithmetic α] in
theorem Attends.countAt_le (walkable : counted.trim.Walkable) (h : Attends side counted d p)
    (ctx : Context) (notDone : ctx.document ≠ terminated) :
    counted.countAt (p.part 1) ctx ≤ counted.totalIn ctx := by
  obtain ⟨t, here⟩ := h.counts
  rw [← countAt_trim counted notDone, ← totalIn_trim counted notDone]
  exact Plan.countAt_le counted.trim walkable notDone here

omit [Arithmetic α] in
theorem Attends.lengthAt_eq (measured : side.trim.Walkable) (h : Attends side counted d p)
    (ctx : Context) (le : d ≤ ctx.document) (notDone : ctx.document ≠ terminated) :
    side.lengthAt (catchUp side.advance (p.part 0) ctx.document) ctx = side.lengthIn ctx := by
  have there := h.caught measured le
  have read := Plan.lengthAt_eq side.trim measured there (UInt32.le_refl _)
    ((follows side.trim measured).first there).le
  rw [lengthAt_trim side notDone, lengthIn_trim side notDone] at read
  exact read

/-- A scorer scores a count that is no more than what its counts hold, beside the length that its
lengths hold. -/
theorem value_dirichlet (measured : side.trim.Walkable) (walkable : counted.trim.Walkable)
    (h : Attends side counted d p) (ctx : Context) (delta : Option (Delta α))
    (le : d ≤ ctx.document) (notDone : ctx.document ≠ terminated) :
    ∃ count, count ≤ counted.totalIn ctx ∧
      ((dirichlet side counted model).score p ctx delta).value =
        model.score count (side.lengthIn ctx) := by
  refine ⟨counted.countAt (p.part 1) ctx, h.countAt_le walkable ctx notDone, ?_⟩
  simp only [score, h.lengthAt_eq measured ctx le notDone]

theorem value_bm25 {model : Bm25 α} (measured : side.trim.Walkable) (h : Attends side counted d p)
    (ctx : Context) (delta : Option (Delta α)) (le : d ≤ ctx.document)
    (notDone : ctx.document ≠ terminated) :
    ((bm25 side counted model).score p ctx delta).value =
      model.score (counted.countAt (p.part 1) ctx) (side.lengthIn ctx) := by
  simp only [score]
  split
  · rename_i absent
    rw [absent]
    exact (if_pos rfl).symm
  · rw [h.lengthAt_eq measured ctx le notDone]

end Plan

section Scans

open Plan

variable {α : Type} [Arithmetic α]

theorem Cursor.driven_foldl_scored {c : Cursor α} {d : DocId} (h : Driven c.plan d c.position)
    (notDone : d ≠ terminated) {contexts : List Context}
    (here : ∀ ctx ∈ contexts, ctx.document = d) :
    (contexts.foldl scored c).plan = c.plan ∧
      Driven c.plan d (contexts.foldl scored c).position := by
  induction contexts generalizing c with
  | nil => exact ⟨rfl, h⟩
  | cons ctx rest ih =>
    obtain ⟨rfl, others⟩ := List.forall_mem_cons.1 here
    exact ih (c := c.scored ctx) (h.scored ctx none (UInt32.le_refl _) notDone) others

theorem Cursor.driven_evaluations {c : Cursor α} {d : DocId} (h : Driven c.plan d c.position)
    (notDone : d ≠ terminated) {contexts : List Context}
    (here : ∀ ctx ∈ contexts, ctx.document = d) :
    ∀ e ∈ c.evaluations contexts, e.root.plan = c.plan ∧ e.context.document = d ∧
      Driven c.plan d e.root.position := by
  induction contexts generalizing c with
  | nil => exact List.forall_mem_nil _
  | cons ctx rest ih =>
    obtain ⟨rfl, others⟩ := List.forall_mem_cons.1 here
    refine List.forall_mem_cons.2 ⟨⟨rfl, rfl, h⟩, ?_⟩
    exact ih (c := c.scored ctx) (h.scored ctx none (UInt32.le_refl _) notDone) others

theorem Walk.driven_step (scheme : Option PassageScheme) {w : Walk α}
    (h : Driven w.root.plan w.root.document w.root.position)
    (notDone : w.root.document ≠ terminated) :
    (w.step scheme).root.plan = w.root.plan ∧
      Driven w.root.plan w.root.document (w.step scheme).root.position := by
  obtain ⟨same, driven⟩ := Cursor.driven_foldl_scored h notDone
    fun ctx (among : ctx ∈ w.contexts scheme) => document_contexts among
  have here := w.root.document_foldl_scored (w.contexts scheme)
  refine ⟨same, ?_⟩
  rw [step, Cursor.toward, same]
  exact driven.moved (UInt32.le_of_lt (lt_of_eq_of_lt here (lt_next notDone)))

theorem Walk.driven_evaluations {scheme : Option PassageScheme} {w : Walk α}
    (h : Driven w.root.plan w.root.document w.root.position) :
    ∀ e ∈ w.evaluations scheme, e.root.plan = w.root.plan ∧ e.context.document ≠ terminated ∧
      Driven w.root.plan e.context.document e.root.position := by
  fun_induction Walk.evaluations scheme w with
  | case1 w done => exact List.forall_mem_nil _
  | case2 w notDone ih =>
    intro e member
    rcases List.mem_append.1 member with here | later
    · obtain ⟨same, document, driven⟩ :=
        Cursor.driven_evaluations h notDone (fun ctx => document_contexts) e here
      exact ⟨same, document ▸ notDone, document ▸ driven⟩
    · obtain ⟨same, driven⟩ := driven_step scheme h notDone
      rw [← same]
      refine ih ?_ e later
      rw [same]
      exact driven.later (UInt32.le_of_lt (lt_step scheme notDone))

/-- A query is driven to all that it evaluates. -/
theorem Retrieval.driven_evaluations (r : Retrieval) (parameters : Parameters) (plan : Plan α)
    (scheme : Option PassageScheme) :
    ∀ e ∈ (r.walkOf parameters plan).evaluations scheme,
      e.context.document ≠ terminated ∧ Driven plan e.context.document e.root.position :=
  have here : Driven plan 0 plan.start := .start
  fun e member =>
    (Walk.driven_evaluations (w := r.walkOf parameters plan) (here.later UInt32.zero_le) e
      member).2

end Scans

namespace Workshop

open Plan

section Parts

variable {α : Type} [Arithmetic α] {w : Workshop}

theorem build_scoredChild {q : Query} {plan child : Plan α} (built : w.build q = .ok plan)
    (member : child ∈ plan.scoredChildren) : ∃ q', w.build q' = .ok child := by
  cases q with
  | node operator parameters children =>
    obtain ⟨m, plans, _, builtAll, assembled⟩ := assembled_of_build built
    have among : child ∈ plans := by
      cases assembled with
      | combine => exact member
      | log | scale => exact member
      | require => exact List.mem_cons_of_mem _ member
      | scorerOfCounts | scorer =>
        unfold scorerOf Workshop.scorer at member
        split at member <;> cases member
      | _ => cases member
    obtain ⟨q', _, built'⟩ := exists_of_plans builtAll among
    exact ⟨q', built'⟩

theorem build_part {plan part : Plan α} {p r : Position} (among : Part plan p part r) {q : Query}
    (built : w.build q = .ok plan) : ∃ q', w.build q' = .ok part := by
  induction among generalizing q with
  | self => exact ⟨q, built⟩
  | combine member _ ih =>
    obtain ⟨q', built'⟩ := build_scoredChild built (List.of_mem_zip member).1
    exact ih built'
  | log _ ih | scale _ ih | require _ ih =>
    obtain ⟨q', built'⟩ := build_scoredChild built List.mem_cons_self
    exact ih built'

end Parts

theorem dirichlet_within_bounds {w : Workshop} {steps : List DraftStep}
    (collected : w.collection = .ofSteps steps) {q : Query} {side counted : Plan ℝ}
    {model : Dirichlet ℝ} (built : w.build q = .ok (.dirichlet side counted model)) {d : DocId}
    {p : Position} (driven : Driven (.dirichlet side counted model) d p) (positive : 0 < model.mu)
    (ctx : Context) (delta : Option (Delta ℝ)) (le : d ≤ ctx.document)
    (notDone : ctx.document ≠ terminated) :
    (dirichlet side counted model).bounds.lower ≤
        ((dirichlet side counted model).score p ctx delta).value ∧
      (counted.totalIn (.whole ctx.document) < 2 ^ 32 →
        (model.lengths.countsWithinLength = true → ClippedOnce side ctx.passage) →
          (((dirichlet side counted model).score p ctx delta).value ≤
              (dirichlet side counted model).bounds.upper ↔
            (model.term.collectionFrequency = 0 →
              model.lengths.shortest ≤ side.lengthIn ctx))) := by
  have ordered : w.collection.Ordered := collected ▸ Collection.ordered_ofSteps steps
  have walkable := (built_of_build w q built).walkable_trim ordered
  have paired := paired_of_build collected built
  obtain ⟨count, fewer, value⟩ :=
    value_dirichlet walkable.1 walkable.2 (driven.attends walkable) ctx delta le notDone
  rw [value]
  refine ⟨Dirichlet.lower_le_score positive (paired.longest ctx), fun fits once => ?_⟩
  exact Dirichlet.score_le_upper_iff positive paired.matched
    (paired.fits ctx count notDone fits fewer once)

/-- Every score lies within the bounds, unless the term occurs nowhere and the document is shorter
than the shortest that the field lists. The upper bound takes counts that have room for the
occurrences in the document. -/
theorem score_within_bounds (steps : List DraftStep) (w : Workshop) (q : Query) (plan : Plan ℝ)
    (collected : w.collection = .ofSteps steps) (built : w.build q = .ok plan) (d : DocId)
    (p r : Position) (driven : Driven plan d p) (side counted : Plan ℝ) (model : Dirichlet ℝ)
    (among : Part plan p (.dirichlet side counted model) r) (positive : 0 < model.mu)
    (ctx : Context) (delta : Option (Delta ℝ)) (le : d ≤ ctx.document)
    (notDone : ctx.document ≠ terminated) :
    (dirichlet side counted model).bounds.lower ≤
        ((dirichlet side counted model).score r ctx delta).value ∧
      (counted.totalIn (.whole ctx.document) < 2 ^ 32 →
        (model.lengths.countsWithinLength = true → ClippedOnce side ctx.passage) →
          (((dirichlet side counted model).score r ctx delta).value ≤
              (dirichlet side counted model).bounds.upper ↔
            (model.term.collectionFrequency = 0 →
              model.lengths.shortest ≤ side.lengthIn ctx))) := by
  obtain ⟨q', built'⟩ := build_part among built
  exact dirichlet_within_bounds collected built' (driven_of_part driven among) positive ctx delta
    le notDone

/-- What a query evaluates, it scores within the bounds. -/
theorem evaluations_within_bounds {r : Retrieval} {steps : List DraftStep}
    (collected : r.collection = .ofSteps steps) {q : Query} {parameters : Parameters}
    {plan : Plan ℝ} (built : (r.workshop parameters).build q = .ok plan)
    {scheme : Option PassageScheme} {e : Evaluation ℝ}
    (member : e ∈ (r.walkOf parameters plan).evaluations scheme) {side counted : Plan ℝ}
    {model : Dirichlet ℝ} {p : Position}
    (among : Part plan e.root.position (.dirichlet side counted model) p)
    (positive : 0 < model.mu) (delta : Option (Delta ℝ)) :
    (dirichlet side counted model).bounds.lower ≤
        ((dirichlet side counted model).score p e.context delta).value ∧
      (counted.totalIn (.whole e.context.document) < 2 ^ 32 →
        (model.lengths.countsWithinLength = true → ClippedOnce side e.context.passage) →
          (((dirichlet side counted model).score p e.context delta).value ≤
              (dirichlet side counted model).bounds.upper ↔
            (model.term.collectionFrequency = 0 →
              model.lengths.shortest ≤ side.lengthIn e.context))) := by
  obtain ⟨notDone, driven⟩ := r.driven_evaluations parameters plan scheme e member
  obtain ⟨q', built'⟩ := build_part among built
  exact dirichlet_within_bounds (w := r.workshop parameters) collected built'
    (driven_of_part driven among) positive e.context delta (UInt32.le_refl _) notDone

section Example

/-- A document of three tokens, and another of which only a score is known. -/
def oneListed : Workshop where
  collection := .ofSteps [.tokens 0 "document" ["a", "b", "c"], .prior "x" 0 0.0, .prior "x" 1 0.0]
  vocabulary := .builtIn
  levels := []

def countsOf (term : String) : Query := .node "counts" (.single "term" (.string term)) []

def besideScores (term : String) : Query :=
  .node "combine" .empty
    [.node "dirichlet" .empty [countsOf term], .node "prior" (.single "name" (.string "x")) []]

def likelihoodOf (term : String) (model : Dirichlet ℝ) : Plan ℝ :=
  .dirichlet (.lengths (oneListed.collection.lengths "document"))
    (.counts (oneListed.collection.postings "document" term)) model

theorem defaultMu_real : (Arithmetic.given 1500.0 : ℝ) = 1500 := by
  have unpacked : (1500.0 : Float).toModel.unpack =
      .finite .positive 6597069766656000 (-42) (by decide) := rfl
  rw [given_real unpacked]
  norm_num

theorem build_besideScores (term : String) : ∃ model : Dirichlet ℝ,
    oneListed.build (besideScores term) = .ok (.combine .sum .any
      [likelihoodOf term model, oneListed.priorPlan "x"] (Workshop.weights .empty 2)) ∧
    0 < model.mu ∧ model.term = oneListed.collection.termStatistics "document" term ∧
    model.lengths = oneListed.vocabulary.lengthBounds { plain := true, clipped := false }
      (countsOf term) "document" (oneListed.collection.fieldStatistics "document") := by
  have leaf : oneListed.build (α := ℝ) (countsOf term) =
      .ok (.counts (oneListed.collection.postings "document" term)) :=
    build_of_assembled (m := ⟨Capability.count.offers, .termCounts⟩) rfl .nil (.counts rfl rfl)
  have known : oneListed.statistics (countsOf term)
      (.counts (α := ℝ) (oneListed.collection.postings "document" term)) =
        .ok (oneListed.collection.termStatistics "document" term) := by
    unfold Workshop.statistics countsOf
    rw [Vocabulary.unfiltered_leaf]
    rfl
  have prior : oneListed.build (α := ℝ) (.node "prior" (.single "name" (.string "x")) []) =
      .ok (oneListed.priorPlan "x") :=
    build_of_assembled (m := ⟨Capability.scored.offers, .prior⟩) rfl .nil (.prior rfl rfl)
  have scorer : oneListed.build (.node "dirichlet" .empty [countsOf term]) =
      .ok (likelihoodOf term _) :=
    build_of_assembled (m := ⟨Capability.scored.offers, .dirichlet⟩) rfl (.cons leaf .nil)
      (.scorerOfCounts rfl rfl known)
  refine ⟨_, build_of_assembled (m := ⟨Capability.scored.offers, .combine⟩) rfl
    (.cons scorer (.cons prior .nil)) (.combine rfl (Nat.succ_ne_zero 1) ?_ rfl), ?_, rfl, rfl⟩
  · exact List.forall_mem_cons.2 ⟨rfl, List.forall_mem_singleton.2 rfl⟩
  · exact lt_of_lt_of_eq (by norm_num) defaultMu_real.symm

theorem driven_besideScores (term : String) : ∃ (plan : Plan ℝ) (p r : Position)
    (model : Dirichlet ℝ), oneListed.build (besideScores term) = .ok plan ∧ Driven plan 0 p ∧
      p.document = 1 ∧ Part plan p (likelihoodOf term model) r ∧ 0 < model.mu ∧
      model.term = oneListed.collection.termStatistics "document" term ∧
      model.lengths = oneListed.vocabulary.lengthBounds { plain := true, clipped := false }
        (countsOf term) "document" (oneListed.collection.fieldStatistics "document") := by
  obtain ⟨model, built, positive, known, bounds⟩ := build_besideScores term
  have walkable := (built_of_build _ _ built).walkable_trim
    (Collection.ordered_ofSteps _ : oneListed.collection.Ordered)
  have member : (Plan.combine .sum .any [likelihoodOf term model, oneListed.priorPlan "x"]
      (Workshop.weights .empty 2)).trim.has 1 = true := by
    have entries : (oneListed.collection.prior "x").entries = #[(0, 0.0), (1, 0.0)] := rfl
    have known : ((oneListed.priorPlan "x" : Plan ℝ).trim).has 1 = true := by
      simp [priorPlan, entries, Plan.trim, Axis.trimmed, Plan.has, Axis.listed, terminated]
    simp only [Plan.trim, trimAll, Plan.has, inAny, known, Bool.true_or, Bool.or_true]
  obtain ⟨p, driven, here⟩ := exists_driven walkable member
  obtain ⟨q, among⟩ := exists_place driven List.mem_cons_self
  exact ⟨_, p, q, model, built, driven, here, .combine among (.self _ q), positive, known, bounds⟩

theorem score_within_bounds_unlisted : ∃ (plan : Plan ℝ) (p r : Position) (model : Dirichlet ℝ),
    oneListed.build (besideScores "a") = .ok plan ∧ Driven plan 0 p ∧ p.document = 1 ∧
      Part plan p (likelihoodOf "a" model) r ∧ 0 < model.mu ∧
      (Plan.counts (α := ℝ) (oneListed.collection.postings "document" "a")).totalIn (.whole 1) <
        2 ^ 32 ∧
      (likelihoodOf "a" model).bounds.lower ≤
        ((likelihoodOf "a" model).score r (.whole 1) none).value ∧
      ((likelihoodOf "a" model).score r (.whole 1) none).value ≤
        (likelihoodOf "a" model).bounds.upper := by
  obtain ⟨plan, p, r, model, built, driven, here, among, positive, known, _⟩ :=
    driven_besideScores "a"
  have within := score_within_bounds _ oneListed (besideScores "a") plan rfl built 0 p r driven _ _
    model among positive (.whole 1) none UInt32.zero_le (by decide)
  have occurs : model.term.collectionFrequency ≠ 0 := by
    rw [known]
    decide
  have fits : (Plan.counts (α := ℝ) (oneListed.collection.postings "document" "a")).totalIn
      (.whole 1) < 2 ^ 32 := by decide +kernel
  refine ⟨plan, p, r, model, built, driven, here, among, positive, fits, within.1, ?_⟩
  exact (within.2 fits fun _ => .inl (Nat.zero_le 1)).2 fun none => absurd none occurs

/-- A document without any token scores higher than the bound of a term that does not occur. -/
theorem score_above_bound_unseen : ∃ (plan : Plan ℝ) (p r : Position) (model : Dirichlet ℝ),
    oneListed.build (besideScores "z") = .ok plan ∧ Driven plan 0 p ∧ p.document = 1 ∧
      Part plan p (likelihoodOf "z" model) r ∧ 0 < model.mu ∧
      (likelihoodOf "z" model).bounds.upper <
        ((likelihoodOf "z" model).score r (.whole 1) none).value := by
  obtain ⟨plan, p, r, model, built, driven, here, among, positive, known, bounds⟩ :=
    driven_besideScores "z"
  obtain ⟨_, built'⟩ := build_part among built
  have walkable := (built_of_build _ _ built').walkable_trim
    (Collection.ordered_ofSteps _ : oneListed.collection.Ordered)
  have attends := (driven_of_part driven among).attends walkable
  have shortest : model.lengths.shortest = 3 := by
    rw [bounds]
    rfl
  have unseen : model.term.maxCount = 0 := by
    rw [known]
    rfl
  have best : model.lengths.best 0 = 3 := by
    unfold LengthBounds.best
    rw [shortest]
    split <;> rfl
  obtain ⟨count, fewer, value⟩ := value_dirichlet walkable.1 walkable.2 attends (.whole 1) none
    UInt32.zero_le (by decide)
  have absent : (Plan.counts (oneListed.collection.postings "document" "z") : Plan ℝ).totalIn
      (.whole 1) = 0 := by rfl
  have empty : (Plan.lengths (oneListed.collection.lengths "document") : Plan ℝ).lengthIn
      (.whole 1) = 0 := by rfl
  rw [absent] at fewer
  rw [empty, Nat.le_zero.1 fewer] at value
  have upper : (likelihoodOf "z" model).bounds.upper = model.score 0 3 := by
    change model.score model.term.maxCount (model.lengths.best model.term.maxCount) = _
    rw [unseen, best]
  refine ⟨plan, p, r, model, built, driven, here, among, positive, not_le.1 fun fits => ?_⟩
  rw [likelihoodOf, value, ← likelihoodOf, upper, Dirichlet.score_le_score positive,
    Dirichlet.likelihood_le_iff positive] at fits
  omega

end Example

end Workshop

end RankedRetrieval
