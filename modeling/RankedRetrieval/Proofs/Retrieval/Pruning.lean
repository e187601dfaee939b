import RankedRetrieval.Proofs.Plan.Abandoned
import RankedRetrieval.Proofs.Plan.Brought
import RankedRetrieval.Proofs.Plan.Settings
import RankedRetrieval.Proofs.Retrieval.Exhaustive
import RankedRetrieval.Proofs.Score.Monotone

set_option autoImplicit false

/-!
# Pruning

A scan may stop early and may abandon sums. It is followed along the walk that does neither: the
two cursors differ only in how far their lists of lengths have been brought along, and the
accumulators are the same throughout. What is left out would not have entered, since a later
candidate has to exceed the threshold (`finish_pruned`).
-/

namespace RankedRetrieval

open Arithmetic Plan

variable {α : Type} [Arithmetic α]

namespace TopK

theorem mem_insert {t : TopK α} {e f : Entry α} (h : f ∈ (t.insert e).entries.toList) :
    f = e ∨ f ∈ t.entries.toList := by
  unfold insert at h
  split at h
  · exact .inr h
  · rename_i enters
    rcases List.mem_cons.1 ((Heap.push_perm Entry.rank _ e).mem_iff.1 h) with same | kept
    · exact .inl same
    · refine .inr ?_
      split at kept
      · rename_i full
        have some : 0 < t.entries.size := by
          refine Nat.pos_of_ne_zero fun empty => ?_
          have none : t.capacity = 0 := by
            have := isFull_iff.1 full
            omega
          rw [wouldEnter, if_pos none] at enters
          exact enters rfl
        exact (Heap.pop_perm Entry.rank some).mem_iff.1 (List.mem_cons_of_mem _ kept)
      · exact kept

/-- All that is kept has a proper score and comes before the candidates still to come. -/
def Precedes (t : TopK α) (entries : List (Entry α)) : Prop :=
  ∀ f ∈ t.entries.toList, isProper f.score = true ∧ ∀ e ∈ entries, f.Before e

theorem precedes_empty (capacity : Nat) (entries : List (Entry α)) :
    (empty capacity).Precedes entries := fun _ h => absurd h List.not_mem_nil

theorem Precedes.of_subset {t : TopK α} {entries entries' : List (Entry α)}
    (h : t.Precedes entries) (sub : ∀ e ∈ entries', e ∈ entries) : t.Precedes entries' := by
  intro f member
  obtain ⟨proper, before⟩ := h f member
  exact ⟨proper, fun e inside => before e (sub e inside)⟩

theorem Precedes.insert {t : TopK α} {e : Entry α} {rest : List (Entry α)}
    (h : t.Precedes (e :: rest)) (proper : isProper e.score = true)
    (before : ∀ f ∈ rest, e.Before f) : (t.insert e).Precedes rest := by
  intro f member
  rcases mem_insert member with rfl | kept
  · exact ⟨proper, before⟩
  · obtain ⟨fine, first⟩ := h f kept
    exact ⟨fine, fun g later => first g (List.mem_cons_of_mem _ later)⟩

omit [Arithmetic α] in
theorem threshold_eq_some {t : TopK α} {threshold : α} (h : t.threshold = some threshold) :
    t.isFull = true ∧ ∃ worst, t.worst? = some worst ∧ worst.score = threshold := by
  unfold TopK.threshold at h
  split at h
  · obtain ⟨worst, there, score⟩ := Option.map_eq_some_iff.1 h
    exact ⟨by assumption, worst, there, score⟩
  · cases h

variable [Comparison α]

theorem rank_ne_lt {e f : Entry α} (before : f.Before e) (proper : isProper e.score = true)
    (proper' : isProper f.score = true) (le : atMost e.score f.score = true) :
    e.rank f ≠ .lt := by
  have score := Comparison.ranked proper proper' le
  intro first
  rcases Ordering.then_eq_lt.1 first with less | ⟨_, later⟩
  · exact score less
  · rcases before with earlier | ⟨same, earlier⟩
    · rw [UInt32.lt_iff_toNat_lt] at earlier
      rw [Nat.compare_eq_gt.2 earlier] at later
      cases later
    · rw [same, Nat.compare_eq_eq.2 rfl, Nat.compare_eq_gt.2 earlier] at later
      cases later

theorem insert_eq_self {t : TopK α} {e : Entry α} {threshold : α}
    (at_ : t.threshold = some threshold) (le : atMost e.score threshold = true)
    (proper : isProper e.score = true) (precedes : t.Precedes [e]) : t.insert e = t := by
  obtain ⟨full, worst, there, rfl⟩ := threshold_eq_some at_
  have kept : worst ∈ t.entries.toList :=
    Array.mem_toList_iff.2 (Array.mem_of_getElem? there)
  obtain ⟨proper', before⟩ := precedes worst kept
  have behind := rank_ne_lt (before e List.mem_cons_self) proper proper' le
  have out : t.wouldEnter e = false := by
    unfold wouldEnter
    split
    · rfl
    · simp [there, full, behind]
  rw [TopK.insert, out]
  rfl

theorem foldl_insert_eq_self {t : TopK α} {threshold : α} (at_ : t.threshold = some threshold)
    {entries : List (Entry α)} (precedes : t.Precedes entries)
    (below : ∀ e ∈ entries, isProper e.score = true ∧ atMost e.score threshold = true) :
    entries.foldl TopK.insert t = t := by
  induction entries with
  | nil => rfl
  | cons e rest ih =>
    obtain ⟨⟨proper, le⟩, others⟩ := List.forall_mem_cons.1 below
    have first : t.Precedes [e] := precedes.of_subset fun f inside => by
      rw [List.mem_singleton.1 inside]
      exact List.mem_cons_self
    rw [List.foldl_cons, insert_eq_self at_ le proper first]
    exact ih (precedes.of_subset fun f inside => List.mem_cons_of_mem _ inside) others

end TopK

/-- The bounds of a plan hold at an evaluation: its score is at most the bound of the plan, and of
a combination each child's score is at most the child's bound. -/
def Evaluation.isWithin (plan : Plan α) (e : Evaluation α) : Bool :=
  atMost e.score plan.bounds.upper && plan.capped e.root.position e.context

namespace Cursor

/-- Two cursors of one plan that differ only in how far lists of lengths have been brought. -/
structure Alike (plan : Plan α) (d : DocId) (c c' : Cursor α) : Prop where
  plan_eq : c.plan = plan
  plan_eq' : c'.plan = plan
  brought : plan.brought d c.position = plan.brought d c'.position
  fits : plan.Fits c'.position

variable {plan : Plan α} {d : DocId} {c c' : Cursor α}

omit [Arithmetic α] in
theorem Alike.document (h : Alike plan d c c') : c.document = c'.document := by
  have same := congrArg Position.document h.brought
  rw [document_brought, document_brought] at same
  exact same

theorem Alike.score (h : Alike plan d c c') (compose : plan.SidesCompose) (ctx : Context)
    (on : ctx.document = d) (delta : Option (Delta α)) :
    (c.score ctx delta).1 = (c'.score ctx delta).1 ∧
      (c.score ctx delta).2.2 = (c'.score ctx delta).2.2 := by
  obtain ⟨value, left⟩ := score_brought plan compose c.position ctx delta
  obtain ⟨value', left'⟩ := score_brought plan compose c'.position ctx delta
  have same := h.brought
  rw [← on] at same
  rw [← same] at value' left'
  unfold Cursor.score
  rw [h.plan_eq, h.plan_eq']
  exact ⟨value.symm.trans value', left.symm.trans left'⟩

theorem Alike.scored (h : Alike plan d c c') (compose : plan.SidesCompose) (ctx : Context)
    (on : ctx.document = d) (delta : Option (Delta α)) :
    Alike plan d (c.score ctx delta).2.1 (c'.scored ctx) := by
  have le := UInt32.le_of_eq on
  refine ⟨h.plan_eq, h.plan_eq', ?_, ?_⟩
  · change plan.brought d (c.plan.score c.position ctx delta).position =
      plan.brought d (c'.plan.score c'.position ctx none).position
    rw [h.plan_eq, h.plan_eq', brought_score le plan compose, brought_score le plan compose]
    exact h.brought
  · change plan.Fits (c'.plan.score c'.position ctx none).position
    rw [h.plan_eq']
    exact fits_score plan h.fits ctx none

omit [Arithmetic α] in
theorem Alike.toward (h : Alike plan d c c') (compose : plan.SidesCompose) {d' : DocId}
    (le : d ≤ d') (target : DocId) : Alike plan d' (c.toward target) (c'.toward target) := by
  refine ⟨h.plan_eq, h.plan_eq', ?_, ?_⟩
  · change plan.brought d' (c.plan.advance c.position target) =
      plan.brought d' (c'.plan.advance c'.position target)
    have moves := (commutes_brought d' plan).move
    rw [h.plan_eq, h.plan_eq', moves, moves, ← brought_brought le plan compose c.position,
      h.brought, brought_brought le plan compose]
  · change plan.Fits (c'.plan.advance c'.position target)
    rw [h.plan_eq']
    exact fits_advance plan h.fits target

end Cursor

namespace Scan

structure Prunes (rules : ScanRules α) (plan : Plan α) : Prop where
  ceiling : rules.ceiling = plan.bounds.upper
  delta : rules.delta = true → plan.supportsDelta = true
  compose : plan.SidesCompose

structure Regular (plan : Plan α) (e : Evaluation α) : Prop where
  proper : isProper e.score = true
  within : e.isWithin plan = true

structure Tracks (plan : Plan α) (d : DocId) (root : Cursor α) (evaluations : List (Evaluation α))
    (s t : Scan α) : Prop where
  root : Cursor.Alike plan d t.root root
  lengths : t.lengths = s.lengths
  best : t.best = (evaluations.map Evaluation.entry).foldl TopK.insert s.best

theorem isNumber_of_isProper {x : α} (h : isProper x = true) : isNumber x = true :=
  (Bool.and_eq_true_iff.1 h).1

variable {rules : ScanRules α} {plan : Plan α} [Comparison α]

/-- An evaluation that is abandoned would not have changed what is kept. -/
theorem tracks_evaluate (monotone : MonotoneArithmetic α) (prunes : Prunes rules plan) {d : DocId}
    {s : Scan α} {root : Cursor α} (alike : Cursor.Alike plan d s.root root)
    (passage : Option Span) (regular : Regular plan { root, context := { document := d, passage } })
    (precedes : s.best.Precedes
      [Evaluation.entry { root, context := { document := d, passage } }]) :
    Tracks plan d (root.scored { document := d, passage })
      [{ root, context := { document := d, passage } }] s (s.evaluate rules d passage) := by
  have scored (delta : Option (Delta α)) := alike.scored prunes.compose
    { document := d, passage } rfl delta
  have same (delta : Option (Delta α)) := alike.score prunes.compose
    { document := d, passage } rfl delta
  obtain ⟨within, capped⟩ := Bool.and_eq_true_iff.1 regular.within
  unfold evaluate
  dsimp only
  cases free : s.delta rules with
  | none =>
    have kept : (s.root.score { document := d, passage } none).2.2 = none :=
      s.root.plan.delta_score_none _ _
    rw [kept]
    refine ⟨scored none, rfl, ?_⟩
    exact congrArg (fun score => s.best.insert { score, document := d, passage }) (same none).1
  | some delta =>
    unfold Scan.delta at free
    split at free
    · rename_i pruning
      obtain ⟨threshold, at_, rfl⟩ := Option.map_eq_some_iff.1 free
      have number := isNumber_of_isProper regular.proper
      have sum : let full := root.score { document := d, passage } none
          let given := root.score { document := d, passage }
            (some { threshold, reached := 0.0, pruned := false })
          (given.2.2.any Delta.pruned = false ∧ given.1 = full.1) ∨
            (given.2.2.any Delta.pruned = true ∧ atMost full.1 threshold = true) := by
        unfold Evaluation.score at number
        unfold Cursor.score at number ⊢
        rw [alike.plan_eq'] at number ⊢
        exact score_threshold monotone (prunes.delta pruning) alike.fits capped number threshold
      obtain ⟨value, left⟩ := same (some { threshold, reached := 0.0, pruned := false })
      rw [left, value]
      -- an abandoned sum is not offered, and the whole sum would have been refused
      rcases sum with ⟨whole, full⟩ | ⟨abandoned, below⟩
      · rw [whole, full]
        exact ⟨scored _, rfl, rfl⟩
      · rw [if_pos abandoned]
        exact ⟨scored _, rfl, (TopK.insert_eq_self at_ below regular.proper precedes).symm⟩
    · cases free

theorem tracks_foldl_evaluate (monotone : MonotoneArithmetic α) (prunes : Prunes rules plan)
    {d : DocId} (passages : List (Option Span)) {s : Scan α} {root : Cursor α}
    (alike : Cursor.Alike plan d s.root root) (later : List (Entry α)) :
    let contexts : List Context := passages.map fun passage => { document := d, passage }
    let entries := (root.evaluations contexts).map Evaluation.entry
    (∀ e ∈ root.evaluations contexts, Regular plan e) →
      (entries ++ later).Pairwise Entry.Before → s.best.Precedes (entries ++ later) →
      Tracks plan d (contexts.foldl Cursor.scored root) (root.evaluations contexts) s
          (passages.foldl (evaluate rules d) s) ∧
        (passages.foldl (evaluate rules d) s).best.Precedes later := by
  induction passages generalizing s root with
  | nil => exact fun _ _ precedes => ⟨⟨alike, rfl, rfl⟩, precedes⟩
  | cons passage rest ih =>
    intro contexts entries regular order precedes
    obtain ⟨here, others⟩ := List.forall_mem_cons.1 regular
    obtain ⟨before, order⟩ := List.pairwise_cons.1 order
    have first := tracks_evaluate monotone prunes alike passage here
      (precedes.of_subset fun e inside => by
        rw [List.mem_singleton.1 inside]
        exact List.mem_cons_self)
    have kept := precedes.insert here.proper before
    have best := first.best
    rw [List.map_singleton, List.foldl_cons, List.foldl_nil] at best
    rw [← best] at kept
    obtain ⟨tracks, precedes⟩ := ih first.root others order kept
    refine ⟨⟨tracks.root, tracks.lengths.trans first.lengths, ?_⟩, precedes⟩
    rw [List.foldl_cons, tracks.best, best]
    rfl

theorem tracks_visit (monotone : MonotoneArithmetic α) (prunes : Prunes rules plan) {s : Scan α}
    {w : Walk α} (alike : Cursor.Alike plan w.root.document s.root w.root)
    (lengths : s.lengths = w.lengths) {later : List (Entry α)}
    (regular : ∀ e ∈ w.root.evaluations (w.contexts rules.passages), Regular plan e)
    (order : ((w.root.evaluations (w.contexts rules.passages)).map Evaluation.entry ++
      later).Pairwise Entry.Before)
    (precedes : s.best.Precedes
      ((w.root.evaluations (w.contexts rules.passages)).map Evaluation.entry ++ later)) :
    Cursor.Alike plan w.root.document (s.visit rules).root
        ((w.contexts rules.passages).foldl Cursor.scored w.root) ∧
      (s.visit rules).lengths = (if rules.passages.isSome then w.measured else w.lengths) ∧
      (s.visit rules).best = ((w.root.evaluations (w.contexts rules.passages)).map
        Evaluation.entry).foldl TopK.insert s.best ∧
      (s.visit rules).best.Precedes later := by
  have all := tracks_foldl_evaluate monotone prunes
    ((w.contexts rules.passages).map Context.passage)
    (s := { s with
      lengths := (w.step rules.passages).lengths
      stats := { s.stats with visited := s.stats.visited + 1 } }) alike later
  dsimp only at all
  rw [w.contexts_of_passages] at all
  obtain ⟨tracks, kept⟩ := all regular order precedes
  rw [visit_eq rules alike.document lengths]
  exact ⟨tracks.root, tracks.lengths, tracks.best, kept⟩

omit [Comparison α] in
theorem alike_step (compose : plan.SidesCompose) {s : Scan α} {w : Walk α}
    (document : s.root.document = w.root.document) (notDone : w.root.document ≠ terminated)
    (root : Cursor.Alike plan w.root.document (s.visit rules).root
      ((w.contexts rules.passages).foldl Cursor.scored w.root)) :
    Cursor.Alike plan (w.step rules.passages).root.document
      ((s.visit rules).root.toward (next s.root.document)) (w.step rules.passages).root := by
  rw [document]
  exact root.toward compose (UInt32.le_of_lt (w.lt_step rules.passages notDone)) _

/-- A scan that prunes keeps what the evaluations of its walk, all of them, would make it keep. -/
theorem finish_pruned (monotone : MonotoneArithmetic α) (prunes : Prunes rules plan) (s : Scan α)
    (w : Walk α) (alike : Cursor.Alike plan w.root.document s.root w.root)
    (lengths : s.lengths = w.lengths)
    (regular : ∀ e ∈ w.evaluations rules.passages, Regular plan e)
    (precedes : s.best.Precedes ((w.evaluations rules.passages).map Evaluation.entry)) :
    ∃ t, finish rules s = .ok t ∧
      t.best = ((w.evaluations rules.passages).map Evaluation.entry).foldl TopK.insert s.best := by
  have order := w.evaluations_pairwise rules.passages
  have document := alike.document
  fun_induction finish rules s generalizing w with
  | case1 s done =>
    have here : w.root.document = terminated := document.symm.trans done
    rw [Walk.evaluations, dif_pos here]
    exact ⟨s, rfl, rfl⟩
  | case2 s notDone decided =>
    -- the scan stops here: no evaluation still to come exceeds the ceiling, nor so the threshold
    obtain ⟨_, reached⟩ := Bool.and_eq_true_iff.1 decided
    obtain ⟨threshold, at_, ceiling⟩ := (Option.any_eq_true _ _).1 reached
    refine ⟨_, rfl, (TopK.foldl_insert_eq_self at_ precedes ?_).symm⟩
    intro e member
    obtain ⟨x, inside, rfl⟩ := List.mem_map.1 member
    obtain ⟨proper, within⟩ := regular x inside
    have below := (Bool.and_eq_true_iff.1 within).1
    rw [← prunes.ceiling] at below
    exact ⟨proper, Comparison.trans below ceiling⟩
  | case3 s notDone undecided error moved =>
    rw [moveTo_visit] at moved
    cases moved
  | case4 s notDone undecided root moved ih =>
    rw [moveTo_visit] at moved
    cases moved
    have here : w.root.document ≠ terminated := document ▸ notDone
    rw [Walk.evaluations, dif_neg here] at regular precedes order ⊢
    rw [List.map_append] at precedes order ⊢
    obtain ⟨here_, later⟩ := List.forall_mem_append.1 regular
    obtain ⟨root, lengths, best, kept⟩ := tracks_visit monotone prunes alike lengths here_ order
      precedes
    have next := alike_step prunes.compose document here root
    obtain ⟨t, finished, whole⟩ := ih (w.step rules.passages) next lengths later kept
      ((w.step rules.passages).evaluations_pairwise rules.passages) next.document
    refine ⟨t, finished, ?_⟩
    rw [whole, List.foldl_append, best]

end Scan

namespace Retrieval

theorem sidesCompose_of_plan {r : Retrieval} {q : Query} {p : Parameters} {plan : Plan α}
    (planned : r.plan q p = .ok plan) : plan.SidesCompose := by
  obtain ⟨built, isBuilt, answered⟩ := of_bind_eq_ok planned
  obtain ⟨rfl, _⟩ := of_answering answered
  exact ((r.workshop p).built_of_build q isBuilt).sidesCompose

variable [Comparison α]

theorem finish_firstScan (monotone : MonotoneArithmetic α) {r : Retrieval} {q : Query}
    {p : Parameters} {plan : Plan α} (planned : r.plan q p = .ok plan)
    (scheme : Option PassageScheme)
    (regular : ∀ e ∈ (r.walkOf p plan).evaluations scheme, Scan.Regular plan e) :
    ∃ t, Scan.finish (r.rulesOf p plan scheme) (r.firstScan p plan) = .ok t ∧
      t.best = (((r.walkOf p plan).evaluations scheme).map Evaluation.entry).foldl TopK.insert
        (.empty (r.optionsOf p).requested) := by
  have prunes : Scan.Prunes (r.rulesOf p plan scheme) plan :=
    ⟨rfl, fun given => (Bool.and_eq_true_iff.1 given).2, sidesCompose_of_plan planned⟩
  exact Scan.finish_pruned monotone prunes (r.firstScan p plan) (r.walkOf p plan)
    ⟨rfl, rfl, rfl, fits_start plan⟩ rfl regular (TopK.precedes_empty _ _)

/-- Pruning is exact: parameters that differ only in what may be pruned list the same documents,
wherever the bounds of the plan hold at every evaluation, and each score is a number other than the
negative zero. -/
theorem execute_pruned (r : Retrieval) (q : Query) (p p' : Parameters) (same : p.SameButPruning p')
    (regular : ∀ (plan : Plan Float) (scheme : Option PassageScheme), r.plan q p = .ok plan →
      passageScheme (r.levels p) = .ok scheme →
      ∀ e ∈ (r.walkOf p plan).evaluations scheme,
        e.score.isNaN = false ∧ e.score ≠ -0.0 ∧ e.isWithin plan = true) :
    (r.execute (α := Float) q p).map Results.documents =
      (r.execute (α := Float) q p').map Results.documents := by
  cases planned : r.plan (α := Float) q p with
  | error e =>
    have planned' := (plan_congr same q).trans planned
    unfold execute
    rw [planned, planned']
    rfl
  | ok plan =>
    have planned' := (plan_congr same q).trans planned
    have schemes : passageScheme (r.levels p') = passageScheme (r.levels p) := by
      rw [passageScheme, passageScheme, byPassage_congr same, ofSettings_congr same]
    have requested : (r.optionsOf p').requested = (r.optionsOf p).requested :=
      requested_congr same
    have walks : r.walkOf p' plan = r.walkOf p plan := by
      rw [walkOf, walkOf, passageField_congr same]
    rw [execute_eq planned, execute_eq planned', schemes, requested]
    cases cut : passageScheme (r.levels p) with
    | error e => rfl
    | ok scheme =>
      have all : ∀ e ∈ (r.walkOf p plan).evaluations scheme, Scan.Regular plan e := by
        intro e member
        obtain ⟨number, nonzero, within⟩ := regular plan scheme planned cut e member
        exact ⟨isProper_iff.2 ⟨number, nonzero⟩, within⟩
      obtain ⟨t, finished, best⟩ := finish_firstScan monotone_float planned scheme all
      obtain ⟨t', finished', best'⟩ := finish_firstScan monotone_float planned' scheme (walks ▸ all)
      rw [walks, requested, ← best] at best'
      -- neither scan starts when nothing is requested
      by_cases none : (r.optionsOf p).requested = 0
      · simp only [bind, Except.bind, if_pos none]
      · simp only [bind, Except.bind, if_neg none, finished, finished']
        refine congrArg Except.ok ?_
        change r.ranked t.best.toList = r.ranked t'.best.toList
        rw [best']

section Example

def onlyBest : Parameters := .single "requested" (.int 1)

def onlyBestPruned : Parameters :=
  (onlyBest.set "earlyTermination" (.bool true)).set "deltaScoring" (.bool true)

theorem onlyBest_same : onlyBest.SameButPruning onlyBestPruned :=
  (Parameters.sameButPruning_set _ (by decide) _).trans
    (Parameters.sameButPruning_set _ (by decide) _)

/-- The second of three documents reaches the ceiling, so the third is not visited, and it would
not have been listed. -/
theorem execute_onlyBest : ∃ results results' : Results Float,
    priorRetrieval.execute eitherPrior onlyBest = .ok results ∧
      priorRetrieval.execute eitherPrior onlyBestPruned = .ok results' ∧
      results.stats.visited = 3 ∧
      (results'.stats.visited = 2 ∧ results'.stats.stoppedEarly = true) ∧
      results.documents = results'.documents := by
  have evaluated : (priorRetrieval.plan (α := Float) eitherPrior onlyBest).toOption.all fun plan =>
      ((priorRetrieval.walkOf onlyBest plan).evaluations none).all fun e =>
        isProper e.score && e.isWithin plan := by decide +kernel
  have whole : (priorRetrieval.execute (α := Float) eitherPrior onlyBest).toOption.any
      fun results => results.stats.visited == 3 := by decide +kernel
  have pruned : (priorRetrieval.execute (α := Float) eitherPrior onlyBestPruned).toOption.any
      fun results => results.stats.visited == 2 && results.stats.stoppedEarly := by decide +kernel
  have regular (plan : Plan Float) (scheme : Option PassageScheme)
      (planned : priorRetrieval.plan eitherPrior onlyBest = .ok plan)
      (cut : passageScheme (priorRetrieval.levels onlyBest) = .ok scheme) :
      ∀ e ∈ (priorRetrieval.walkOf onlyBest plan).evaluations scheme,
        e.score.isNaN = false ∧ e.score ≠ -0.0 ∧ e.isWithin plan = true := by
    intro e member
    rw [planned] at evaluated
    cases cut
    obtain ⟨proper, within⟩ := Bool.and_eq_true_iff.1 (List.all_eq_true.1 evaluated e member)
    obtain ⟨number, nonzero⟩ := isProper_iff.1 proper
    exact ⟨number, nonzero, within⟩
  have listed :=
    execute_pruned priorRetrieval eitherPrior onlyBest onlyBestPruned onlyBest_same regular
  cases run : priorRetrieval.execute (α := Float) eitherPrior onlyBest with
  | error e =>
    rw [run] at whole
    cases whole
  | ok results =>
    cases run' : priorRetrieval.execute (α := Float) eitherPrior onlyBestPruned with
    | error e =>
      rw [run'] at pruned
      cases pruned
    | ok results' =>
      rw [run] at whole listed
      rw [run'] at pruned listed
      exact ⟨results, results', rfl, rfl, by simpa [Except.toOption] using whole,
        by simpa [Except.toOption] using pruned, Except.ok.inj listed⟩

end Example

end Retrieval

end RankedRetrieval
