import RankedRetrieval.Proofs.Retrieval.Evaluations
import RankedRetrieval.Proofs.Score.Bits

set_option autoImplicit false

/-!
# A query lists the best of all evaluations

Without the two options that save work, a query evaluates each of its documents once, in ascending
order, and lists the first of all these evaluations in the order of their ranks
(`execute_exhaustive`). Scores may be any numbers with an order.
-/

namespace RankedRetrieval

open Plan Axis

variable {α : Type} [Arithmetic α]

def lengthOf (entries : Array (DocId × Nat)) (d : DocId) : Nat :=
  ((entries.find? fun e => e.1 = d).map Prod.snd).getD 0

def contextsOf (scheme : Option PassageScheme) (entries : Array (DocId × Nat)) (d : DocId) :
    List Context :=
  match scheme with
  | none => [.whole d]
  | some scheme =>
    (scheme.passages (lengthOf entries d)).map fun passage =>
      { document := d, passage := some passage }

namespace Walk

structure Sound (plan : Plan α) (entries : Array (DocId × Nat)) (w : Walk α) : Prop where
  plan_eq : w.root.plan = plan
  walkable : plan.Walkable
  root : plan.Stands w.root.document w.root.position
  lengths_eq : w.lengths.plan = .lengths entries
  readable : Readable Prod.fst entries
  lengths : Trails (Stands (.lengths entries : Plan α)) w.root.document w.lengths.position

variable {plan : Plan α} {entries : Array (DocId × Nat)} {w : Walk α}

omit [Arithmetic α] in
theorem Sound.isFirst (sound : Sound plan entries w) :
    IsFirst plan.has w.root.document w.root.document :=
  (follows plan sound.walkable).first sound.root

omit [Arithmetic α] in
theorem Sound.measured (sound : Sound plan entries w) :
    w.measured.plan = .lengths entries ∧
      Stands (.lengths entries : Plan α) w.root.document w.measured.position := by
  obtain ⟨s, before, here⟩ := sound.lengths
  have f : Follows _ _ _ := follows (.lengths entries : Plan α) sound.readable
  have caught := f.catchUp here before
  refine ⟨sound.lengths_eq, ?_⟩
  rw [← sound.lengths_eq] at caught
  rw [← sound.lengths_eq]
  exact caught

omit [Arithmetic α] in
theorem Sound.contexts_eq (sound : Sound plan entries w) (scheme : Option PassageScheme) :
    w.contexts scheme = contextsOf scheme entries w.root.document := by
  cases scheme with
  | none => rfl
  | some scheme =>
    obtain ⟨same, here⟩ := sound.measured
    have ahead := ((follows (.lengths entries : Plan α) sound.readable).first here).le
    have read : (.lengths entries : Plan α).lengthAt w.measured.position
        (.whole w.root.document) = _ :=
      lengthAt_eq (.lengths entries) sound.readable here (UInt32.le_refl _) ahead
    have length : w.measured.lengthAt (.whole w.root.document) =
        lengthOf entries w.root.document := by
      rw [Cursor.lengthAt, same, read]
      rfl
    rw [contexts, contextsOf, length]

theorem stands_foldl_scored {c : Cursor α} (same : c.plan = plan) {t : DocId}
    (here : plan.Stands t c.position) (contexts : List Context) :
    (contexts.foldl Cursor.scored c).plan = plan ∧
      plan.Stands t (contexts.foldl Cursor.scored c).position := by
  induction contexts generalizing c with
  | nil => exact ⟨same, here⟩
  | cons ctx rest ih =>
    refine ih same ?_
    have scored := stands_score plan here ctx none
    rw [← same] at scored ⊢
    exact scored

theorem Sound.stands_step (sound : Sound plan entries w) (scheme : Option PassageScheme)
    (notDone : w.root.document ≠ terminated) :
    (w.step scheme).root.plan = plan ∧
      plan.Stands (next w.root.document) (w.step scheme).root.position := by
  obtain ⟨same, there⟩ := stands_foldl_scored sound.plan_eq sound.root (w.contexts scheme)
  have document := w.root.document_foldl_scored (w.contexts scheme)
  have ahead := UInt32.le_of_lt (lt_next notDone)
  have moved := (follows plan sound.walkable).move there ahead (document ▸ ahead)
  rw [← same] at moved
  refine ⟨same, ?_⟩
  rw [← same]
  exact moved

theorem Sound.step (sound : Sound plan entries w) (scheme : Option PassageScheme)
    (notDone : w.root.document ≠ terminated) : Sound plan entries (w.step scheme) := by
  obtain ⟨same, root⟩ := sound.stands_step scheme notDone
  have f := follows plan sound.walkable
  have arrived := (f.first root).le
  have later := UInt32.le_trans (UInt32.le_of_lt (lt_next notDone)) arrived
  refine ⟨same, sound.walkable, f.later root arrived (UInt32.le_refl _), ?_, sound.readable, ?_⟩
  · unfold Walk.step
    split
    · exact sound.measured.1
    · exact sound.lengths_eq
  · unfold Walk.step at later ⊢
    split
    · exact ⟨w.root.document, later, sound.measured.2⟩
    · exact sound.lengths.later later

/-- The documents of a walk are those of the plan from where it stands on, in ascending order. -/
theorem documents_spec (scheme : Option PassageScheme) (w : Walk α)
    (sound : Sound plan entries w) :
    (w.documents scheme).Pairwise (fun d e => d < e) ∧
      ∀ d, d ∈ w.documents scheme ↔ plan.has d = true ∧ w.root.document ≤ d := by
  refine ⟨w.documents_pairwise scheme, fun d => ?_⟩
  fun_induction documents scheme w with
  | case1 w done =>
    refine ⟨fun h => (List.not_mem_nil h).elim, ?_⟩
    rintro ⟨mem, le⟩
    rw [done] at le
    have last : d = terminated := UInt32.le_antisymm (le_terminated d) le
    rw [last, (follows plan sound.walkable).below] at mem
    cases mem
  | case2 w notDone ih =>
    have forward := lt_step scheme notDone
    rw [List.mem_cons, ih (sound.step scheme notDone)]
    constructor
    · rintro (rfl | ⟨mem, le⟩)
      · exact ⟨sound.isFirst.has_of_ne notDone, UInt32.le_refl _⟩
      · exact ⟨mem, UInt32.le_of_lt (UInt32.lt_of_lt_of_le forward le)⟩
    · rintro ⟨mem, le⟩
      by_cases same : d = w.root.document
      · exact .inl same
      · have arrived := (follows plan sound.walkable).first (sound.stands_step scheme notDone).2
        refine .inr ⟨mem, arrived.least mem ((next_le_iff notDone).2 ?_)⟩
        exact UInt32.lt_of_le_of_ne le (Ne.symm same)

theorem contexts_evaluations (scheme : Option PassageScheme) (w : Walk α)
    (sound : Sound plan entries w) :
    (w.evaluations scheme).map Evaluation.context =
      (w.documents scheme).flatMap (contextsOf scheme entries) := by
  fun_induction documents scheme w with
  | case1 w done =>
    rw [evaluations, dif_pos done]
    rfl
  | case2 w notDone ih =>
    rw [evaluations, dif_neg notDone, List.map_append, List.flatMap_cons,
      ih (sound.step scheme notDone), Cursor.map_context_evaluations, sound.contexts_eq]

theorem root_evaluations (scheme : Option PassageScheme) (w : Walk α)
    (sound : Sound plan entries w) :
    ∀ e ∈ w.evaluations scheme, e.root.plan = plan ∧ e.root.document = e.context.document := by
  have scoredAll (c : Cursor α) (same : c.plan = plan) (contexts : List Context)
      (on : ∀ ctx ∈ contexts, c.document = ctx.document) :
      ∀ e ∈ c.evaluations contexts, e.root.plan = plan ∧ e.root.document = e.context.document := by
    induction contexts generalizing c with
    | nil => exact List.forall_mem_nil _
    | cons ctx rest ih =>
      obtain ⟨first, others⟩ := List.forall_mem_cons.1 on
      refine List.forall_mem_cons.2 ⟨⟨same, first⟩, ih (c.scored ctx) same ?_⟩
      intro ctx' member
      rw [c.document_scored ctx]
      exact others ctx' member
  fun_induction evaluations scheme w with
  | case1 w done => exact List.forall_mem_nil _
  | case2 w notDone ih =>
    intro e member
    rcases List.mem_append.1 member with here | later
    · refine scoredAll w.root sound.plan_eq _ ?_ e here
      exact fun ctx inside => (document_contexts inside).symm
    · exact ih (sound.step scheme notDone) e later

end Walk

namespace Retrieval

def passageScheme (levels : List Parameters) : Except QueryError (Option PassageScheme) :=
  if Setting.byPassage levels then some <$> PassageScheme.ofSettings levels else pure none

def ranked (r : Retrieval) (entries : List (Entry α)) : List (Result α) :=
  entries.zipIdx.map fun (entry, i) =>
    { rank := i + 1
      document := entry.document
      name := r.documentName entry.document
      score := entry.score
      passage := entry.passage }

def walkOf (r : Retrieval) (parameters : Parameters) (plan : Plan α) : Walk α where
  root := .ofPlan plan
  lengths := .ofPlan (.lengths (r.collection.lengths (passageField (r.levels parameters))))

theorem walkable_of_plan {r : Retrieval} (ordered : r.collection.Ordered)
    (below : r.collection.BelowEnd) {q : Query} {parameters : Parameters} {plan : Plan α}
    (planned : r.plan q parameters = .ok plan) : plan.Walkable := by
  obtain ⟨built, isBuilt, answered⟩ := of_bind_eq_ok planned
  obtain ⟨rfl, _⟩ := of_answering answered
  exact ((r.workshop parameters).built_of_build q isBuilt).walkable ordered below

theorem has_of_plan {r : Retrieval} {q : Query} {parameters : Parameters} {plan : Plan α}
    (planned : r.plan q parameters = .ok plan) (d : DocId) :
    plan.has d = (r.workshop parameters).matched q d := by
  obtain ⟨built, isBuilt, answered⟩ := of_bind_eq_ok planned
  obtain ⟨rfl, _⟩ := of_answering answered
  exact (r.workshop parameters).has_of_build isBuilt d

theorem sound_walkOf {r : Retrieval} (ordered : r.collection.Ordered)
    (below : r.collection.BelowEnd) {q : Query} {parameters : Parameters} {plan : Plan α}
    (planned : r.plan q parameters = .ok plan) :
    Walk.Sound plan (r.collection.lengths (passageField (r.levels parameters)))
      (r.walkOf parameters plan) := by
  have walkable := walkable_of_plan ordered below planned
  have f := follows plan walkable
  have start := stands_start plan walkable
  have readable : Readable Prod.fst
      (r.collection.lengths (passageField (r.levels parameters))) :=
    ⟨ordered.lengths _, listed_eq_false (below.lengths _)⟩
  exact ⟨rfl, walkable, f.later start UInt32.zero_le (UInt32.le_refl _), rfl, readable, 0,
    UInt32.zero_le, stands_start (.lengths _) readable⟩

def optionsOf (r : Retrieval) (parameters : Parameters) : Options :=
  .ofSettings (r.levels parameters)

def rulesOf (r : Retrieval) (parameters : Parameters) (plan : Plan α)
    (scheme : Option PassageScheme) : ScanRules α where
  earlyTermination := (r.optionsOf parameters).earlyTermination
  ceiling := plan.bounds.upper
  delta := (r.optionsOf parameters).deltaScoring && plan.supportsDelta
  passages := scheme

def firstScan (r : Retrieval) (parameters : Parameters) (plan : Plan α) : Scan α where
  root := .ofPlan plan
  lengths := .ofPlan (.lengths (r.collection.lengths (passageField (r.levels parameters))))
  best := .empty (r.optionsOf parameters).requested
  stats := .zero

theorem execute_eq {r : Retrieval} {q : Query} {parameters : Parameters} {plan : Plan α}
    (planned : r.plan q parameters = .ok plan) :
    r.execute q parameters = (do
      let scheme ← passageScheme (r.levels parameters)
      if (r.optionsOf parameters).requested = 0 then return { documents := [], stats := .zero }
      else
        let scan ← Scan.finish (r.rulesOf parameters plan scheme) (r.firstScan parameters plan)
        return r.results scan) := by
  unfold execute passageScheme
  rw [planned]
  split
  · rename_i byPassage
    exact if_pos byPassage
  · rename_i whole
    exact if_neg whole

/-- The higher score first, then the earlier document, then the earlier passage. -/
def listedBefore (e f : Entry α) : Bool :=
  Arithmetic.order f.score e.score = .lt ||
    (Arithmetic.order f.score e.score = .eq &&
      (e.document < f.document || (e.document = f.document && e.passageRank ≤ f.passageRank)))

theorem notWorse_eq : Entry.notWorse (α := α) = listedBefore := by
  funext e f
  have document : e.document < f.document ↔ e.document.toNat < f.document.toNat :=
    UInt32.lt_iff_toNat_lt
  have same : e.document = f.document ↔ e.document.toNat = f.document.toNat :=
    UInt32.toNat_inj.symm
  rw [Bool.eq_iff_iff]
  simp only [Entry.notWorse, Entry.rank, listedBefore, Ordering.isLE_then_iff_or, Nat.compare_eq_lt,
    Nat.compare_eq_eq, Nat.isLE_compare, Bool.or_eq_true, Bool.and_eq_true, decide_eq_true_eq,
    document, same]

/-- Without early termination and abandoned sums, a query evaluates each of its documents once, in
ascending order, as a whole or passage by passage, and lists the first of the evaluations in the
order of their ranks. It fails only where passages cannot be cut. -/
theorem execute_exhaustive [Std.TransCmp (Arithmetic.order (α := α))] (steps : List DraftStep)
    (r : Retrieval) (q : Query) (parameters : Parameters) (plan : Plan α)
    (collected : r.collection = .ofSteps steps) (below : r.collection.BelowEnd)
    (planned : r.plan q parameters = .ok plan)
    (some : 1 ≤ (r.optionsOf parameters).requested)
    (notEarly : (r.optionsOf parameters).earlyTermination = false)
    (noDelta : (r.optionsOf parameters).deltaScoring = false) :
    match passageScheme (r.levels parameters) with
    | .error e => r.execute (α := α) q parameters = .error e
    | .ok scheme =>
      let documents := (r.walkOf parameters plan).documents scheme
      let evaluations := (r.walkOf parameters plan).evaluations scheme
      let lengths := r.collection.lengths (passageField (r.levels parameters))
      documents.Pairwise (fun d e => d < e) ∧
        (∀ d, d ∈ documents ↔ (r.workshop parameters).matched q d = true) ∧
        evaluations.map Evaluation.context = documents.flatMap (contextsOf scheme lengths) ∧
        (∀ e ∈ evaluations, e.root.plan = plan ∧ e.root.document = e.context.document) ∧
        ∃ results, r.execute q parameters = .ok results ∧
          results.documents = r.ranked
            (((evaluations.map Evaluation.entry).mergeSort listedBefore).take
              (r.optionsOf parameters).requested) ∧
          results.stats.visited = documents.length ∧
          results.stats.scored = evaluations.length ∧
          results.stats.pruned = 0 ∧ results.stats.stoppedEarly = false := by
  have ordered : r.collection.Ordered := collected ▸ Collection.ordered_ofSteps steps
  have sound := sound_walkOf ordered below planned
  have run := execute_eq planned
  cases cut : passageScheme (r.levels parameters) with
  | error e =>
    rw [cut] at run
    exact run
  | ok scheme =>
    obtain ⟨order, members⟩ := Walk.documents_spec scheme _ sound
    refine ⟨order, ?_, Walk.contexts_evaluations scheme _ sound,
      Walk.root_evaluations scheme _ sound, ?_⟩
    · intro d
      rw [members, ← has_of_plan planned]
      have start := (follows plan sound.walkable).first (stands_start plan sound.walkable)
      exact ⟨fun h => h.1, fun mem => ⟨mem, start.least mem UInt32.zero_le⟩⟩
    · have thorough : Scan.Thorough (r.rulesOf parameters plan scheme) :=
        ⟨notEarly, by rw [rulesOf, noDelta, Bool.false_and]⟩
      obtain ⟨t, finished, best, stats⟩ :=
        Scan.finish_eq thorough (r.firstScan parameters plan)
      have room : ¬(r.optionsOf parameters).requested = 0 := by omega
      rw [cut] at run
      have done : r.execute q parameters = .ok (r.results t) := by
        refine run.trans ((if_neg room).trans ?_)
        rw [finished]
        rfl
      refine ⟨r.results t, done, ?_, ?_, ?_, stats.pruned, stats.stoppedEarly⟩
      · have kept := TopK.toList_foldl_insert (r.optionsOf parameters).requested _
          (Entry.eq_of_rank_eq (Walk.evaluations_pairwise scheme (r.walkOf parameters plan)))
        rw [notWorse_eq] at kept
        rw [← kept]
        exact congrArg r.ranked (congrArg TopK.toList best)
      · exact stats.visited.trans (Nat.zero_add _)
      · exact stats.scored.trans (Nat.zero_add _)

section Example

def eitherPrior : Query :=
  .node "combine" .empty
    [.node "prior" (.single "name" (.string "x")) [],
      .node "prior" (.single "name" (.string "y")) []]

def priorRetrieval : Retrieval :=
  { collection := .ofSteps Cursor.twoPriors, vocabulary := .builtIn, global := .empty }

/-- Three documents have one of the scores, and each is evaluated once. -/
theorem execute_eitherPrior : ∃ plan : Plan RawDouble,
    priorRetrieval.plan eitherPrior .empty = .ok plan ∧
      (∀ d, d ∈ (priorRetrieval.walkOf .empty plan).documents none ↔
        (priorRetrieval.workshop .empty).matched eitherPrior d = true) ∧
      [1, 2, 3, 4, 5].filter ((priorRetrieval.workshop .empty).matched eitherPrior) = [1, 3, 5] ∧
      ∃ results : Results RawDouble, priorRetrieval.execute eitherPrior .empty = .ok results ∧
        results.stats.scored = ((priorRetrieval.walkOf .empty plan).evaluations none).length := by
  have some : (priorRetrieval.plan (α := RawDouble) eitherPrior .empty).isOk := by decide +kernel
  cases planned : priorRetrieval.plan (α := RawDouble) eitherPrior .empty with
  | error e =>
    rw [planned] at some
    cases some
  | ok plan =>
    have below : priorRetrieval.collection.BelowEnd :=
      Collection.belowEnd_ofSteps (by decide)
    obtain ⟨_, members, _, _, results, done, _, _, scored, _⟩ :=
      execute_exhaustive Cursor.twoPriors priorRetrieval eitherPrior .empty plan rfl below planned
        (by decide) rfl rfl
    exact ⟨plan, rfl, members, by decide +kernel, results, done, scored⟩

end Example

end Retrieval

end RankedRetrieval
