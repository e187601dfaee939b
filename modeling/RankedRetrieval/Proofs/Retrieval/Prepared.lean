import RankedRetrieval.Proofs.Preparation.Conserved
import RankedRetrieval.Proofs.Retrieval.Refusals

set_option autoImplicit false

/-!
# Running a prepared query

Preparing a query that can be run wraps nothing: it writes out the lengths of scorers and opens sums
within sums. The prepared query visits the same documents, and gives each a score in which the
additions are grouped otherwise. In exact arithmetic its results are the same
(`execute_prepared`).
-/

namespace RankedRetrieval

open Arithmetic Plan Vocabulary Preparation

variable {α : Type} [Arithmetic α] {plan plan' : Plan α}

namespace Evaluation

def expression (e : Evaluation α) : Expression α :=
  e.root.plan.expression e.root.position e.context

theorem eval_expression (e : Evaluation α) : e.expression.eval = e.score :=
  e.root.plan.eval_expression e.root.position e.context

/-- Evaluations of one document whose scores differ in the grouping of sums alone. -/
structure Regroups (e e' : Evaluation α) : Prop where
  context : e'.context = e.context
  score : e.expression.eval = e.score
  score' : e'.expression.eval = e'.score
  regrouped : Regrouped e.expression e'.expression

end Evaluation

namespace Cursor

structure Twin (plan plan' : Plan α) (c c' : Cursor α) : Prop where
  plan_eq : c.plan = plan
  plan_eq' : c'.plan = plan'
  alike : Plan.Alike plan plan' c.position c'.position

variable {c c' : Cursor α}

theorem Twin.document (twin : Twin plan plan' c c') : c'.document = c.document :=
  (mirrored_alike plan plan').document twin.alike

theorem Twin.scored (twin : Twin plan plan' c c') (ctx : Context) :
    Twin plan plan' (c.scored ctx) (c'.scored ctx) := by
  obtain ⟨rfl, rfl, alike⟩ := twin
  exact ⟨rfl, rfl, (mirrored_alike c.plan c'.plan).scored alike ctx⟩

theorem Twin.toward (twin : Twin plan plan' c c') (target : DocId) :
    Twin plan plan' (c.toward target) (c'.toward target) := by
  obtain ⟨rfl, rfl, alike⟩ := twin
  exact ⟨rfl, rfl, (mirrored_alike c.plan c'.plan).move alike target⟩

theorem Twin.regroups (twin : Twin plan plan' c c') (ctx : Context) :
    Evaluation.Regroups { root := c, context := ctx } { root := c', context := ctx } := by
  obtain ⟨rfl, rfl, alike⟩ := twin
  exact ⟨rfl, Evaluation.eval_expression _, Evaluation.eval_expression _,
    (mirrored_alike c.plan c'.plan).regrouped alike ctx⟩

theorem twin_foldl_scored (twin : Twin plan plan' c c') (contexts : List Context) :
    Twin plan plan' (contexts.foldl Cursor.scored c) (contexts.foldl Cursor.scored c') := by
  induction contexts generalizing c c' with
  | nil => exact twin
  | cons ctx rest ih => exact ih (twin.scored ctx)

theorem regroups_evaluations (twin : Twin plan plan' c c') (contexts : List Context) :
    List.Forall₂ Evaluation.Regroups (c.evaluations contexts) (c'.evaluations contexts) := by
  induction contexts generalizing c c' with
  | nil => exact .nil
  | cons ctx rest ih => exact .cons (twin.regroups ctx) (ih (twin.scored ctx))

end Cursor

namespace Walk

structure Twin (plan plan' : Plan α) (w w' : Walk α) : Prop where
  root : Cursor.Twin plan plan' w.root w'.root
  lengths : w'.lengths = w.lengths

variable {w w' : Walk α}

theorem Twin.contexts (twin : Twin plan plan' w w') (scheme : Option PassageScheme) :
    w'.contexts scheme = w.contexts scheme := by
  unfold Walk.contexts measured
  rw [twin.lengths, twin.root.document]

theorem Twin.step (twin : Twin plan plan' w w') (scheme : Option PassageScheme) :
    Twin plan plan' (w.step scheme) (w'.step scheme) where
  root := by
    rw [Walk.step, Walk.step, twin.contexts, twin.root.document]
    exact (Cursor.twin_foldl_scored twin.root _).toward _
  lengths := by
    rw [Walk.step, Walk.step, measured, measured, twin.lengths, twin.root.document]

theorem evaluations_of_notDone {scheme : Option PassageScheme}
    (notDone : w.root.document ≠ terminated) :
    w.evaluations scheme =
      w.root.evaluations (w.contexts scheme) ++ (w.step scheme).evaluations scheme := by
  rw [evaluations, dif_neg notDone]

/-- Walks of the two plans meet the same documents, and their evaluations regroup sums. -/
theorem regroups_walk (scheme : Option PassageScheme) (twin : Twin plan plan' w w') :
    w'.documents scheme = w.documents scheme ∧
      List.Forall₂ Evaluation.Regroups (w.evaluations scheme) (w'.evaluations scheme) := by
  fun_induction documents scheme w generalizing w' with
  | case1 w done =>
    have done' : w'.root.document = terminated := twin.root.document.trans done
    rw [documents, dif_pos done', evaluations, dif_pos done, evaluations, dif_pos done']
    exact ⟨rfl, .nil⟩
  | case2 w notDone ih =>
    have notDone' : w'.root.document ≠ terminated := twin.root.document.trans_ne notDone
    obtain ⟨same, regroups⟩ := ih (twin.step scheme)
    have here := Cursor.regroups_evaluations twin.root (w.contexts scheme)
    rw [documents, dif_neg notDone', same, twin.root.document, evaluations_of_notDone notDone,
      evaluations_of_notDone notDone', twin.contexts]
    exact ⟨rfl, List.rel_append here regroups⟩

end Walk

namespace Scan

structure Twin (plan plan' : Plan α) (s s' : Scan α) : Prop where
  root : Cursor.Twin plan plan' s.root s'.root
  lengths : s'.lengths = s.lengths
  best : s'.best = s.best
  stats : s'.stats = s.stats

variable {rules rules' : ScanRules α} {s s' : Scan α}

theorem twin_evaluate (exact : Exact α) (thorough : Thorough rules) (thorough' : Thorough rules')
    (twin : Twin plan plan' s s') (document : DocId) (passage : Option Span) :
    Twin plan plan' (s.evaluate rules document passage) (s'.evaluate rules' document passage) := by
  have free : s.delta rules = none := by
    rw [delta, thorough.noDelta]
    rfl
  have free' : s'.delta rules' = none := by
    rw [delta, thorough'.noDelta]
    rfl
  have regroups := twin.root.regroups { document, passage }
  have same : (s'.root.score { document, passage } none).1 =
      (s.root.score { document, passage } none).1 :=
    regroups.score'.symm.trans ((regroups.regrouped.eval_eq exact).trans regroups.score)
  have kept : (s.root.score { document, passage } none).2.2 = none :=
    s.root.plan.delta_score_none _ _
  have kept' : (s'.root.score { document, passage } none).2.2 = none :=
    s'.root.plan.delta_score_none _ _
  unfold evaluate
  rw [free, free']
  dsimp only
  rw [kept, kept', same, twin.best, twin.stats]
  exact ⟨twin.root.scored _, twin.lengths, rfl, rfl⟩

theorem twin_visit (exact : Exact α) (thorough : Thorough rules) (thorough' : Thorough rules')
    (whole : rules.passages = none) (whole' : rules'.passages = none)
    (twin : Twin plan plan' s s') : Twin plan plan' (s.visit rules) (s'.visit rules') := by
  unfold visit
  rw [whole, whole', twin.root.document, twin.stats]
  refine twin_evaluate exact thorough thorough' ?_ _ none
  exact ⟨twin.root, twin.lengths, twin.best, rfl⟩

theorem finish_of_done (done : s.root.document = terminated) : s.finish rules = .ok s := by
  rw [finish, dif_pos done]

theorem finish_of_notDone (thorough : Thorough rules) (notDone : s.root.document ≠ terminated) :
    s.finish rules = finish rules
      { s.visit rules with root := (s.visit rules).root.toward (next s.root.document) } := by
  have undecided : ¬ s.isDecided rules = true := by
    rw [isDecided, thorough.notEarly]
    exact Bool.false_ne_true
  rw [finish, dif_neg notDone, if_neg undecided]
  split
  · rename_i moved
    rw [moveTo_visit] at moved
    cases moved
  · rename_i moved
    rw [moveTo_visit] at moved
    cases moved
    rfl

theorem twin_finish (exact : Exact α) (thorough : Thorough rules) (thorough' : Thorough rules')
    (whole : rules.passages = none) (whole' : rules'.passages = none) {t t' : Scan α}
    (twin : Twin plan plan' s s') (finished : s.finish rules = .ok t)
    (finished' : s'.finish rules' = .ok t') : t'.best = t.best ∧ t'.stats = t.stats := by
  -- the two scans end together, so the distance of the first carries the induction
  induction far : distance s.root.document using Nat.strongRecOn generalizing s s' with
  | ind n ih =>
    by_cases done : s.root.document = terminated
    · rw [finish_of_done done] at finished
      rw [finish_of_done (twin.root.document.trans done)] at finished'
      cases finished
      cases finished'
      exact ⟨twin.best, twin.stats⟩
    · have visited := twin_visit exact thorough thorough' whole whole' twin
      rw [finish_of_notDone thorough done] at finished
      rw [finish_of_notDone thorough' (twin.root.document.trans_ne done), twin.root.document]
        at finished'
      have nearer : distance ((s.visit rules).root.toward (next s.root.document)).document < n := by
        rw [← far]
        exact distance_lt (UInt32.lt_of_lt_of_le (lt_next done) (le_document_advance _ _ _))
      have moved : Twin plan plan'
          { s.visit rules with root := (s.visit rules).root.toward (next s.root.document) }
          { s'.visit rules' with root := (s'.visit rules').root.toward (next s.root.document) } :=
        ⟨visited.root.toward _, visited.lengths, visited.best, visited.stats⟩
      exact ih _ nearer moved finished finished' rfl

end Scan

namespace Retrieval

variable {r : Retrieval} {parameters : Parameters} {q : Query}

def listed (r : Retrieval) (parameters : Parameters) (evaluations : List (Evaluation α)) :
    List (Result α) :=
  r.ranked ((evaluations.map Evaluation.entry).foldl TopK.insert
    (.empty (r.optionsOf parameters).requested)).toList

theorem listed_of_none (none : (r.optionsOf parameters).requested = 0)
    (evaluations : List (Evaluation α)) : r.listed parameters evaluations = [] := by
  have full (entries : List (Entry α)) :
      entries.foldl TopK.insert (.empty (r.optionsOf parameters).requested) =
        .empty (r.optionsOf parameters).requested := by
    induction entries with
    | nil => rfl
    | cons e rest ih =>
      have out : (TopK.empty (α := α) (r.optionsOf parameters).requested).wouldEnter e = false :=
        if_pos none
      rw [List.foldl_cons, TopK.insert, out]
      exact ih
  rw [listed, full, TopK.toList, TopK.empty]
  rfl

section Whole

variable (whole : (r.optionsOf parameters).byPassage = false)
  (notEarly : (r.optionsOf parameters).earlyTermination = false)
  (noDelta : (r.optionsOf parameters).deltaScoring = false)

include whole in
theorem execute_eq_of_whole (planned : r.plan q parameters = .ok plan) :
    r.execute q parameters =
      if (r.optionsOf parameters).requested = 0 then .ok { documents := [], stats := .zero }
      else r.results <$>
        Scan.finish (r.rulesOf parameters plan none) (r.firstScan parameters plan) := by
  have uncut : passageScheme (r.levels parameters) = .ok none :=
    if_neg (ne_true_of_eq_false whole)
  rw [execute_eq planned, uncut]
  rfl

include notEarly noDelta in
theorem thorough_rulesOf (plan : Plan α) (scheme : Option PassageScheme) :
    Scan.Thorough (r.rulesOf parameters plan scheme) :=
  ⟨notEarly, by rw [rulesOf, noDelta, Bool.false_and]⟩

include whole notEarly noDelta

/-- What a query whose documents are looked at as a whole comes to without pruning. -/
theorem execute_whole (planned : r.plan q parameters = .ok plan) :
    let walk := r.walkOf parameters plan
    let requested := (r.optionsOf parameters).requested
    ∃ results : Results α, r.execute q parameters = .ok results ∧
      results.documents = r.listed parameters (walk.evaluations none) ∧
      results.stats.visited = (if requested = 0 then 0 else (walk.documents none).length) ∧
      results.stats.scored = (if requested = 0 then 0 else (walk.evaluations none).length) := by
  intro walk requested
  have run := execute_eq_of_whole whole planned
  by_cases none : requested = 0
  · rw [if_pos none] at run
    exact ⟨_, run, (listed_of_none none _).symm, (if_pos none).symm, (if_pos none).symm⟩
  · obtain ⟨t, finished, best, stats⟩ :=
      Scan.finish_eq (thorough_rulesOf notEarly noDelta plan _) (r.firstScan parameters plan)
    rw [if_neg none, finished] at run
    rw [if_neg none, if_neg none]
    exact ⟨r.results t, run, congrArg r.ranked (congrArg TopK.toList best),
      stats.visited.trans (Nat.zero_add _), stats.scored.trans (Nat.zero_add _)⟩

/-- In exact arithmetic plans that differ in the grouping of sums have the same results. -/
theorem results_eq_of_regroups (exact : Exact α) {q' : Query} {results results' : Results α}
    (planned : r.plan q parameters = .ok plan) (planned' : r.plan q' parameters = .ok plan')
    (regroups : Regroups plan plan') (ran : r.execute q parameters = .ok results)
    (ran' : r.execute q' parameters = .ok results') : results' = results := by
  rw [execute_eq_of_whole whole planned] at ran
  rw [execute_eq_of_whole whole planned'] at ran'
  by_cases none : (r.optionsOf parameters).requested = 0
  · rw [if_pos none] at ran ran'
    exact Except.ok.inj (ran'.symm.trans ran)
  · rw [if_neg none] at ran ran'
    cases finished : Scan.finish (r.rulesOf parameters plan _) (r.firstScan parameters plan) with
    | error e =>
      rw [finished] at ran
      cases ran
    | ok t =>
      cases finished' : Scan.finish (r.rulesOf parameters plan' _)
        (r.firstScan parameters plan') with
      | error e =>
        rw [finished'] at ran'
        cases ran'
      | ok t' =>
        rw [finished] at ran
        rw [finished'] at ran'
        cases ran
        cases ran'
        have twin : Scan.Twin plan plan' (r.firstScan parameters plan)
            (r.firstScan parameters plan') := ⟨⟨rfl, rfl, regroups.start⟩, rfl, rfl, rfl⟩
        obtain ⟨best, stats⟩ := Scan.twin_finish exact (thorough_rulesOf notEarly noDelta plan _)
          (thorough_rulesOf notEarly noDelta plan' _) rfl rfl twin finished finished'
        rw [results, results, best, stats]

end Whole

theorem plan_eq_ok_iff : r.plan q parameters = .ok plan ↔
    (r.workshop parameters).build q = .ok plan ∧ plan.capabilities.has .scored = true := by
  constructor
  · intro planned
    obtain ⟨built, isBuilt, answered⟩ := of_bind_eq_ok planned
    obtain ⟨rfl, scored⟩ := of_answering answered
    exact ⟨isBuilt, scored⟩
  · rintro ⟨built, scored⟩
    exact bind_eq_ok built (answering_of_has scored)

theorem exists_plan_of_execute {results : Results α}
    (ran : r.execute q parameters = .ok results) :
    ∃ plan : Plan α, r.plan q parameters = .ok plan := by
  obtain ⟨plan, planned, _⟩ := of_bind_eq_ok ran
  exact ⟨plan, planned⟩

/-- Preparing a query with a plan, whose documents are looked at as a whole, writes out lengths and
makes sums flat. -/
theorem prepare_of_build (means : r.vocabulary = builtIn)
    (whole : (r.optionsOf parameters).byPassage = false)
    (built : (r.workshop parameters).build q = .ok plan)
    (unwrapped : Everywhere builtIn Workshop.Unwrapped none q) :
    r.prepare q parameters =
      .ok ((q.recast builtIn Workshop.withLengths none).recast builtIn flat none) := by
  have known := Workshop.knows_of_build means built
  have off (above : Option Meaning) (q : Query) :
      withScope (.ofSettings (r.levels parameters)) above q = q := by
    have disabled : (PassageScope.ofSettings (r.levels parameters)).enabled = false := whole
    rw [withScope, disabled]
    rfl
  have made : Preparation.prepare builtIn (r.levels parameters) q = .ok (prepared _ _ q) :=
    prepare_eq_prepared known (Workshop.fitting_of_unwrapped unwrapped)
  rw [prepared, Workshop.recast_withScore _ known unwrapped,
    recast_eq_self (fun above q _ => off above q) (Everywhere.of_forall (fun _ _ => trivial) _ _)]
    at made
  rw [prepare, means, made]

/-- What two plans come to that differ in the grouping of sums: their walks meet the same documents,
each list holds the best of its own evaluations, and in exact arithmetic the two are one. -/
structure RegroupedRun (r : Retrieval) (parameters : Parameters) (plan plan' : Plan α)
    (results results' : Results α) : Prop where
  documents :
    (r.walkOf parameters plan').documents none = (r.walkOf parameters plan).documents none
  evaluations : List.Forall₂ Evaluation.Regroups ((r.walkOf parameters plan).evaluations none)
    ((r.walkOf parameters plan').evaluations none)
  listed : results.documents =
    r.listed parameters ((r.walkOf parameters plan).evaluations none)
  listed' : results'.documents =
    r.listed parameters ((r.walkOf parameters plan').evaluations none)
  visited : results'.stats.visited = results.stats.visited
  scored : results'.stats.scored = results.stats.scored
  exact : Exact α → results' = results

theorem exists_regroupedRun (whole : (r.optionsOf parameters).byPassage = false)
    (notEarly : (r.optionsOf parameters).earlyTermination = false)
    (noDelta : (r.optionsOf parameters).deltaScoring = false) {q' : Query} {results : Results α}
    (planned : r.plan q parameters = .ok plan) (planned' : r.plan q' parameters = .ok plan')
    (regroups : Regroups plan plan') (ran : r.execute q parameters = .ok results) :
    ∃ results' : Results α, r.execute q' parameters = .ok results' ∧
      r.RegroupedRun parameters plan plan' results results' := by
  have twin : Walk.Twin plan plan' (r.walkOf parameters plan) (r.walkOf parameters plan') :=
    ⟨⟨rfl, rfl, regroups.start⟩, rfl⟩
  obtain ⟨documents, evaluations⟩ := Walk.regroups_walk none twin
  obtain ⟨_, run, listed, visited, scored⟩ := execute_whole whole notEarly noDelta planned
  obtain ⟨results', ran', listed', visited', scored'⟩ :=
    execute_whole whole notEarly noDelta planned'
  cases ran.symm.trans run
  refine ⟨results', ran', documents, evaluations, listed, listed', ?_, ?_, fun exact =>
    results_eq_of_regroups whole notEarly noDelta exact planned planned' regroups ran ran'⟩
  · rw [visited, visited', documents]
  · rw [scored, scored', evaluations.length_eq]

/-- A query that can be run can be prepared. Nothing in it gets a scorer that it had not; lengths
are written out where each part of the query reads them anyway; and the plan of the flat sums meets
the same documents and scores them by the same terms. -/
theorem execute_prepared {r : Retrieval} (means : r.vocabulary = builtIn)
    {parameters : Parameters} (whole : (r.optionsOf parameters).byPassage = false)
    (notEarly : (r.optionsOf parameters).earlyTermination = false)
    (noDelta : (r.optionsOf parameters).deltaScoring = false)
    (one : isPositiveOrZero (unitWeight α) = true) {q : Query} {results : Results α}
    (ran : r.execute q parameters = .ok results) :
    let w := r.workshop parameters
    let prepared := (q.recast builtIn Workshop.withLengths none).recast builtIn flat none
    Everywhere builtIn Workshop.Unwrapped none q ∧
      Everywhere builtIn (fun above part => ∃ plan : Plan α, w.build part = .ok plan ∧
        w.build (part.recast builtIn Workshop.withLengths above) = .ok plan) none q ∧
      r.prepare q parameters = .ok prepared ∧
      ∃ (plan plan' : Plan α) (results' : Results α),
        r.plan q parameters = .ok plan ∧ r.plan prepared parameters = .ok plan' ∧
        r.execute prepared parameters = .ok results' ∧
        r.RegroupedRun parameters plan plan' results results' := by
  intro w prepared
  obtain ⟨plan, planned⟩ := exists_plan_of_execute ran
  obtain ⟨built, scored⟩ := plan_eq_ok_iff.1 planned
  have root : Workshop.Unwrapped none q := by
    have asked := Workshop.asked_of_build means built
    rw [Workshop.Unwrapped, Workshop.not_onlyCounts_of_scored (asked ▸ scored), Bool.false_and]
  have unwrapped := Workshop.everywhere_unwrapped means built root
  have measured := Workshop.build_recast_withLengths means built none
  obtain ⟨plan', built', regroups⟩ := Workshop.exists_regrouped means one measured none
  have scored' : plan'.capabilities.has .scored = true := by
    rw [capabilities, regroups.kind]
    exact scored
  have planned' : r.plan prepared parameters = .ok plan' := plan_eq_ok_iff.2 ⟨built', scored'⟩
  obtain ⟨results', ran', run⟩ :=
    exists_regroupedRun whole notEarly noDelta planned planned' regroups ran
  exact ⟨unwrapped, Workshop.everywhere_build_recast means built none,
    prepare_of_build means whole built unwrapped, plan, plan', results', planned, planned', ran',
    run⟩

section Example

def scoredRetrieval : Retrieval where
  collection := .ofSteps [.tokens 3 defaultField ["a", "b"], .prior "x" 3 2.0, .prior "x" 5 1.0]
  vocabulary := .builtIn
  global := .empty

def nestedScorers : Query :=
  let scorer (term : String) := Query.node "dirichlet" .empty
    [.node "text" (.single "term" (.string term)) []]
  .node "combine" .empty [
    .node "combine" .empty [.node "prior" (.single "name" (.string "x")) [], scorer "a"],
    scorer "b"]

theorem exists_execute_real : ∃ results : Results ℝ,
    scoredRetrieval.execute nestedScorers .empty = .ok results := by
  have ran : (scoredRetrieval.execute (α := Float) nestedScorers .empty).isOk := by decide +kernel
  have agree := agree_execute (α := Float) (β := ℝ) scoredRetrieval scoredRetrieval rfl rfl
    nestedScorers .empty
  rcases agree.outcome with ⟨_, results, _, ran'⟩ | ⟨e, failed, _⟩
  · exact ⟨results, ran'⟩
  · rw [failed] at ran
    cases ran

/-- In doubles the two queries visit the same documents, and in exact arithmetic their results are
the same. -/
theorem execute_nestedScorers :
    isPositiveOrZero (unitWeight Float) = true ∧
      ∃ results results' : Results Float,
        scoredRetrieval.execute nestedScorers .empty = .ok results ∧
        results.stats.visited = 2 ∧
        ∃ prepared, scoredRetrieval.prepare nestedScorers .empty = .ok prepared ∧
          prepared.children.length = 3 ∧ prepared.size = 8 ∧
          scoredRetrieval.execute prepared .empty = .ok results' ∧
          results'.stats.visited = 2 ∧
          ∃ exactly : Results ℝ, scoredRetrieval.execute nestedScorers .empty = .ok exactly ∧
            scoredRetrieval.execute prepared .empty = .ok exactly := by
  have one : isPositiveOrZero (unitWeight Float) = true := by decide +kernel
  have visited : (scoredRetrieval.execute (α := Float) nestedScorers .empty).toOption.any
      fun results => results.stats.visited == 2 := by decide +kernel
  have made : (scoredRetrieval.prepare nestedScorers .empty).toOption.any
      fun q => q.children.length == 3 && q.size == 8 := by decide +kernel
  cases ran : scoredRetrieval.execute (α := Float) nestedScorers .empty with
  | error e =>
    rw [ran] at visited
    cases visited
  | ok results =>
    rw [ran] at visited
    obtain ⟨_, _, isPrepared, _, _, results', _, _, ran', run⟩ :=
      execute_prepared (r := scoredRetrieval) rfl rfl rfl rfl one ran
    rw [isPrepared, Except.toOption, Option.any_some] at made
    obtain ⟨flat, size⟩ := Bool.and_eq_true_iff.1 made
    have two := eq_of_beq visited
    obtain ⟨exactly, ranExactly⟩ := exists_execute_real
    have one' : isPositiveOrZero (unitWeight ℝ) = true := by
      rw [unitWeight_real]
      exact decide_eq_true (by norm_num)
    obtain ⟨_, _, _, _, _, exactly', _, _, ranExactly', run'⟩ :=
      execute_prepared (r := scoredRetrieval) rfl rfl rfl rfl one' ranExactly
    rw [run'.exact exact_real] at ranExactly'
    exact ⟨one, results, results', rfl, two, _, isPrepared, eq_of_beq flat, eq_of_beq size, ran',
      run.visited.trans two, exactly, ranExactly, ranExactly'⟩

end Example

end Retrieval

end RankedRetrieval
