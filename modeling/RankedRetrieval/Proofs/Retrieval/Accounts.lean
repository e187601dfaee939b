import RankedRetrieval.Proofs.Plan.Trimmed
import RankedRetrieval.Proofs.Ranking.Keys
import RankedRetrieval.Proofs.Retrieval.Pruning

set_option autoImplicit false

/-!
# What results account for

A scan may stop early and may abandon sums, whether the bounds that it relies on hold or not. Each
evaluation that it makes is completed or abandoned, and none is abandoned while there is room. So
its counters add up, and it lists as many different places as it should, in the order of their
ranks (`execute_accounts`).
-/

namespace RankedRetrieval

open Plan Axis

variable {α : Type}

def Context.place (c : Context) : DocId × Option Nat := (c.document, c.passage.map Span.start)

def Entry.context (e : Entry α) : Context := { document := e.document, passage := e.passage }

def Result.entry (x : Result α) : Entry α :=
  { score := x.score, document := x.document, passage := x.passage }

variable [Arithmetic α]

theorem Entry.rank_eq_lt {e f : Entry α} (notWorse : e.notWorse f = true)
    (apart : e.context.place ≠ f.context.place) : e.rank f = .lt := by
  have le : (e.rank f).isLE := notWorse
  cases order : e.rank f with
  | lt => rfl
  | gt =>
    rw [order] at le
    cases le
  | eq =>
    obtain ⟨document, passage⟩ := Ordering.then_eq_eq.1 (Ordering.then_eq_eq.1 order).2
    refine absurd (Prod.ext ?_ (start_eq (Nat.compare_eq_eq.1 passage))) apart
    exact UInt32.toNat_inj.1 (Nat.compare_eq_eq.1 document)

section Places

variable (scheme : Option PassageScheme) (entries : Array (DocId × Nat))

theorem document_of_mem_contextsOf {d : DocId} {c : Context}
    (h : c ∈ contextsOf scheme entries d) : c.document = d := by
  cases scheme with
  | none => rw [List.mem_singleton.1 h, Context.whole]
  | some scheme =>
    obtain ⟨passage, _, rfl⟩ := List.mem_map.1 h
    rfl

theorem nodup_places (d : DocId) : ((contextsOf scheme entries d).map Context.place).Nodup := by
  cases scheme with
  | none => exact List.nodup_singleton _
  | some scheme =>
    rw [contextsOf, List.map_map, List.Nodup, List.pairwise_map]
    refine (passages_pairwise scheme _).imp fun {a b} lt same => ?_
    have starts : a.start = b.start := Option.some.inj (Prod.mk.inj same).2
    omega

theorem nodup_places_of_ascending {documents : List DocId}
    (ascending : documents.Pairwise fun d e => d < e) :
    ((documents.flatMap (contextsOf scheme entries)).map Context.place).Nodup := by
  rw [List.map_flatMap]
  refine List.nodup_flatMap.2 ⟨fun d _ => nodup_places scheme entries d, ascending.imp ?_⟩
  intro d e lt place here there
  obtain ⟨c, inside, rfl⟩ := List.mem_map.1 here
  obtain ⟨c', inside', same⟩ := List.mem_map.1 there
  have document : c'.document = c.document := congrArg Prod.fst same
  rw [document_of_mem_contextsOf scheme entries inside,
    document_of_mem_contextsOf scheme entries inside'] at document
  exact UInt32.lt_irrefl _ (document ▸ lt)

end Places

namespace Walk

/-- A walk whose cursor over lengths has not gone past its document. The list may name the end. -/
structure Measures (entries : Array (DocId × Nat)) (w : Walk α) : Prop where
  ascending : Ascending Prod.fst entries
  plan_eq : w.lengths.plan = .lengths entries
  trails : Trails (Plan.lengths entries : Plan α).trim.Stands w.root.document w.lengths.position

variable {scheme : Option PassageScheme} {entries : Array (DocId × Nat)} {w : Walk α}

omit [Arithmetic α] in
theorem Measures.measured (h : Measures entries w) :
    w.measured.plan = .lengths entries ∧
      (Plan.lengths entries : Plan α).trim.Stands w.root.document w.measured.position := by
  have walkable : w.lengths.plan.trim.Walkable := by
    rw [h.plan_eq]
    exact readable_trimmed h.ascending
  have trails := h.trails
  rw [← h.plan_eq] at trails ⊢
  exact Cursor.stands_along walkable trails (List.forall_mem_nil _)

omit [Arithmetic α] in
theorem Measures.contexts_eq (h : Measures entries w) (notDone : w.root.document ≠ terminated) :
    w.contexts scheme = contextsOf scheme entries w.root.document := by
  cases scheme with
  | none => rfl
  | some scheme =>
    obtain ⟨same, here⟩ := h.measured
    have walkable : (Plan.lengths entries : Plan α).trim.Walkable := readable_trimmed h.ascending
    have whole : (Context.whole w.root.document).document ≠ terminated := notDone
    have ahead := ((follows (Plan.lengths entries : Plan α).trim walkable).first here).le
    have read : (Plan.lengths entries : Plan α).trim.lengthAt w.measured.position
        (.whole w.root.document) = _ := lengthAt_eq _ walkable here (UInt32.le_refl _) ahead
    rw [lengthAt_trim _ whole, lengthIn_trim _ whole] at read
    rw [contexts, contextsOf, Cursor.lengthAt, same, read]
    rfl

theorem Measures.step (h : Measures entries w) (notDone : w.root.document ≠ terminated) :
    Measures entries (w.step scheme) := by
  obtain ⟨same, here⟩ := h.measured
  have later := UInt32.le_of_lt (w.lt_step scheme notDone)
  refine ⟨h.ascending, ?_, ?_⟩
  · unfold Walk.step
    split
    · exact same
    · exact h.plan_eq
  · unfold Walk.step at later ⊢
    split
    · exact ⟨w.root.document, later, here⟩
    · exact h.trails.later later

end Walk

namespace Scan

/-- What a scan has counted after so many documents and these evaluations: some of them are
abandoned, but none while there is room, and the others have been offered to the accumulator. -/
structure Tally (capacity visited : Nat) (made : List Context) (s : Scan α) : Prop where
  offered : ∃ seen, TopK.Keeps capacity seen s.best ∧ (seen.map Entry.context).Sublist made ∧
    seen.length = s.stats.scored
  visited : s.stats.visited = visited
  made : s.stats.scored + s.stats.pruned = made.length
  full : s.stats.pruned ≠ 0 → capacity ≤ s.stats.scored
  filled : min capacity s.stats.scored ≤ s.stats.entered
  entered : s.stats.entered ≤ s.stats.scored

variable {capacity visited : Nat} {made : List Context} {s : Scan α} {rules : ScanRules α}

/-- Nothing is abandoned while there is room. -/
theorem isFull_of_pruned {ctx : Context}
    (h : (s.root.score ctx (s.delta rules)).2.2.any Delta.pruned = true) :
    s.best.isFull = true := by
  cases free : s.delta rules with
  | none =>
    have kept : (s.root.score ctx none).2.2 = none := s.root.plan.delta_score_none _ _
    rw [free, kept] at h
    cases h
  | some delta =>
    unfold Scan.delta at free
    split at free
    · obtain ⟨threshold, at_, _⟩ := Option.map_eq_some_iff.1 free
      exact (TopK.threshold_eq_some at_).1
    · cases free

theorem root_evaluate (rules : ScanRules α) (d : DocId) (s : Scan α) (passage : Option Span) :
    (s.evaluate rules d passage).root = (s.root.score ⟨d, passage⟩ (s.delta rules)).2.1 := by
  unfold evaluate
  dsimp only
  split <;> rfl

theorem lengths_evaluate (rules : ScanRules α) (d : DocId) (s : Scan α) (passage : Option Span) :
    (s.evaluate rules d passage).lengths = s.lengths := by
  unfold evaluate
  dsimp only
  split <;> rfl

variable [Std.TransCmp (Arithmetic.order (α := α))]

omit [Std.TransCmp (Arithmetic.order (α := α))] in
theorem Tally.abandon (h : Tally capacity visited made s) (root : Cursor α) (c : Context)
    (full : s.best.isFull = true) :
    Tally capacity visited (made ++ [c])
      { s with root, stats := { s.stats with pruned := s.stats.pruned + 1 } } := by
  obtain ⟨seen, keeps, sub, length⟩ := h.offered
  refine ⟨⟨seen, keeps, sub.trans (List.sublist_append_left _ _), length⟩, h.visited, ?_, ?_,
    h.filled, h.entered⟩
  · rw [List.length_append, List.length_singleton, ← h.made, Nat.add_assoc]
  · intro _
    have room := TopK.isFull_iff.1 full
    have size := keeps.size_eq
    have := keeps.capacity_eq
    dsimp only
    omega

theorem Tally.offer (h : Tally capacity visited made s) (root : Cursor α) (e : Entry α) :
    Tally capacity visited (made ++ [e.context])
      { s with
        root
        best := s.best.insert e
        stats :=
          { s.stats with
            scored := s.stats.scored + 1
            entered := s.stats.entered + (if s.best.wouldEnter e then 1 else 0) } } := by
  obtain ⟨seen, keeps, sub, length⟩ := h.offered
  refine ⟨⟨seen ++ [e], TopK.keeps_insert keeps e, ?_, ?_⟩, h.visited, ?_, ?_, ?_, ?_⟩
  · rw [List.map_append, List.map_singleton]
    exact sub.append (List.Sublist.refl _)
  · rw [List.length_append, List.length_singleton, length]
  · rw [List.length_append, List.length_singleton, ← h.made]
    exact Nat.add_right_comm _ _ _
  · exact fun some => Nat.le_succ_of_le (h.full some)
  · have filled := h.filled
    dsimp only
    cases enters : s.best.wouldEnter e with
    | true =>
      rw [if_pos rfl]
      omega
    | false =>
      -- what is refused finds the accumulator full
      have room := ((keeps.refused_iff e).1 enters).1
      have size := keeps.size_eq
      omega
  · have entered := h.entered
    dsimp only
    split <;> omega

theorem Tally.evaluate (h : Tally capacity visited made s) (rules : ScanRules α) (d : DocId)
    (passage : Option Span) :
    Tally capacity visited (made ++ [{ document := d, passage }]) (s.evaluate rules d passage) := by
  unfold Scan.evaluate
  dsimp only
  split
  · rename_i abandoned
    exact h.abandon _ _ (isFull_of_pruned abandoned)
  · exact h.offer _
      { score := (s.root.score ⟨d, passage⟩ (s.delta rules)).1, document := d, passage }

structure Accompanies (plan : Plan α) (w : Walk α) (s : Scan α) : Prop where
  root : Cursor.Alike plan w.root.document s.root w.root
  lengths : s.lengths = w.lengths

theorem Tally.foldl_evaluate (rules : ScanRules α) {plan : Plan α} (compose : plan.SidesCompose)
    {d : DocId} (passages : List (Option Span)) {root : Cursor α}
    (alike : Cursor.Alike plan d s.root root) (tally : Tally capacity visited made s) :
    let contexts : List Context := passages.map fun passage => { document := d, passage }
    let t := passages.foldl (Scan.evaluate rules d) s
    Cursor.Alike plan d t.root (contexts.foldl Cursor.scored root) ∧ t.lengths = s.lengths ∧
      Tally capacity visited (made ++ contexts) t := by
  induction passages generalizing s root made with
  | nil =>
    refine ⟨alike, rfl, ?_⟩
    rw [List.map_nil, List.append_nil]
    exact tally
  | cons passage rest ih =>
    have next := alike.scored compose { document := d, passage } rfl (s.delta rules)
    rw [← root_evaluate] at next
    obtain ⟨root, lengths, tally⟩ := ih next (tally.evaluate rules d passage)
    refine ⟨root, lengths.trans (lengths_evaluate rules d s passage), ?_⟩
    rw [List.append_assoc] at tally
    exact tally

variable {plan : Plan α} {w : Walk α}

theorem Tally.visit (rules : ScanRules α) (compose : plan.SidesCompose)
    (along : Accompanies plan w s) (tally : Tally capacity visited made s) :
    Cursor.Alike plan w.root.document (s.visit rules).root
        ((w.contexts rules.passages).foldl Cursor.scored w.root) ∧
      (s.visit rules).lengths = (w.step rules.passages).lengths ∧
      Tally capacity (visited + 1) (made ++ w.contexts rules.passages) (s.visit rules) := by
  have all := Tally.foldl_evaluate rules compose
    ((w.contexts rules.passages).map Context.passage)
    (s := { s with
      lengths := (w.step rules.passages).lengths
      stats := { s.stats with visited := s.stats.visited + 1 } }) along.root
    ⟨tally.offered, congrArg Nat.succ tally.visited, tally.made, tally.full, tally.filled,
      tally.entered⟩
  rw [w.contexts_of_passages] at all
  rw [visit_eq rules along.root.document along.lengths]
  exact all

/-- A scan evaluates what its walk does, from the first document up to where it stops, and all of
it if it does not stop early. -/
theorem finish_tally (rules : ScanRules α) (compose : plan.SidesCompose)
    {entries : Array (DocId × Nat)} (s : Scan α) (w : Walk α) (along : Accompanies plan w s)
    (measures : w.Measures entries) (tally : Tally capacity visited made s) :
    ∃ t n, finish rules s = .ok t ∧ n ≤ (w.documents rules.passages).length ∧
      (t.stats.stoppedEarly = false → n = (w.documents rules.passages).length) ∧
      Tally capacity (visited + n) (made ++ ((w.documents rules.passages).take n).flatMap
        (contextsOf rules.passages entries)) t := by
  have stands := along.root.document
  -- along the scan, which its walk accompanies: a visit adds its document to the tally
  fun_induction finish rules s generalizing w visited made with
  | case1 s done =>
    have here : w.root.document = terminated := stands.symm.trans done
    rw [Walk.documents, dif_pos here]
    refine ⟨s, 0, rfl, Nat.le_refl 0, fun _ => rfl, ?_⟩
    rw [List.take_zero, List.flatMap_nil, List.append_nil]
    exact tally
  | case2 s notDone decided =>
    refine ⟨_, 0, rfl, Nat.zero_le _, ?_, ?_⟩
    · intro going
      cases going
    · rw [List.take_zero, List.flatMap_nil, List.append_nil]
      exact ⟨tally.offered, tally.visited, tally.made, tally.full, tally.filled, tally.entered⟩
  | case3 s notDone undecided error moved =>
    rw [moveTo_visit] at moved
    cases moved
  | case4 s notDone undecided root moved ih =>
    rw [moveTo_visit] at moved
    cases moved
    have here : w.root.document ≠ terminated := stands ▸ notDone
    obtain ⟨root, lengths, tally⟩ := tally.visit rules compose along
    have next := alike_step compose stands here root
    obtain ⟨t, n, finished, le, all, tally⟩ := ih (w.step rules.passages) ⟨next, lengths⟩
      (measures.step here) ⟨tally.offered, tally.visited, tally.made, tally.full, tally.filled,
        tally.entered⟩ next.document
    rw [Walk.documents, dif_neg here]
    refine ⟨t, n + 1, finished, Nat.succ_le_succ le, fun going => ?_, ?_⟩
    · exact congrArg Nat.succ (all going)
    · rw [List.take_succ_cons, List.flatMap_cons, ← measures.contexts_eq here]
      rw [List.append_assoc, Nat.add_assoc, Nat.add_comm 1] at tally
      exact tally

end Scan

/-- How results account for the evaluations that were made for them: their counters add up, and the
best of the completed ones are listed, no place twice. -/
structure Accounts (requested : Nat) (made : List Context) (results : Results α) : Prop where
  evaluated : results.stats.scored + results.stats.pruned = made.length
  listed : results.documents.length = min requested (results.stats.scored + results.stats.pruned)
  entered : results.documents.length ≤ results.stats.entered
  scored : results.stats.entered ≤ results.stats.scored
  among : ∀ x ∈ results.documents, x.entry.context ∈ made
  ranks : results.documents.map Result.rank = List.range' 1 results.documents.length
  order : (results.documents.map Result.entry).Pairwise fun e f => e.rank f = .lt
  distinct : (results.documents.map fun x => (x.document, x.passage.map Span.start)).Nodup

namespace Retrieval

omit [Arithmetic α] in
theorem map_entry_ranked (r : Retrieval) (entries : List (Entry α)) :
    (r.ranked entries).map Result.entry = entries := by
  unfold ranked
  rw [List.map_map]
  exact List.zipIdx_map_fst 0 entries

omit [Arithmetic α] in
theorem map_rank_ranked (r : Retrieval) (entries : List (Entry α)) :
    (r.ranked entries).map Result.rank = List.range' 1 entries.length := by
  unfold ranked
  rw [← List.zipIdx_map_snd 1 entries, List.zipIdx_succ, List.map_map, List.map_map]
  exact List.map_congr_left fun x _ => rfl

omit [Arithmetic α] in
theorem measures_walkOf {r : Retrieval} (ordered : r.collection.Ordered) (parameters : Parameters)
    (plan : Plan α) :
    (r.walkOf parameters plan).Measures
      (r.collection.lengths (passageField (r.levels parameters))) := by
  have ascending := ordered.lengths (passageField (r.levels parameters))
  exact ⟨ascending, rfl, 0, UInt32.zero_le,
    stands_start_trim (.lengths _) (readable_trimmed ascending)⟩

theorem tally_firstScan (r : Retrieval) (parameters : Parameters) (plan : Plan α) :
    Scan.Tally (r.optionsOf parameters).requested 0 [] (r.firstScan parameters plan) where
  offered := ⟨[], TopK.keeps_empty _, List.Sublist.refl _, rfl⟩
  visited := rfl
  made := rfl
  full := fun some => absurd rfl some
  filled := Nat.min_le_right _ 0
  entered := Nat.le_refl 0

variable [Std.TransCmp (Arithmetic.order (α := α))]

theorem accounts_of_tally (r : Retrieval) {capacity visited : Nat} {made : List Context}
    {s : Scan α} (tally : s.Tally capacity visited made)
    (apart : (made.map Context.place).Nodup) : Accounts capacity made (r.results s) := by
  obtain ⟨seen, keeps, sub, length⟩ := tally.offered
  obtain ⟨rest, perm, order, _⟩ := keeps.exists_rest
  have entries : (r.results s).documents.map Result.entry = s.best.toList :=
    r.map_entry_ranked s.best.toList
  have count : (r.results s).documents.length = min capacity s.stats.scored := by
    rw [← List.length_map, entries, ← length, ← keeps.size_eq, ← Array.length_toList]
    exact (Heap.sorted_perm Entry.rank s.best.entries).length_eq
  have distinct : (s.best.toList.map fun e => e.context.place).Nodup := by
    have offered : (seen.map fun e => e.context.place).Nodup := by
      have all := apart.sublist (sub.map Context.place)
      rwa [List.map_map] at all
    have kept := (perm.map fun e => e.context.place).nodup_iff.2 offered
    rw [List.map_append] at kept
    exact (List.nodup_append.1 kept).1
  refine ⟨tally.made, ?_, ?_, tally.entered, ?_, ?_, ?_, ?_⟩
  · have full := tally.full
    change _ = min capacity (s.stats.scored + s.stats.pruned)
    omega
  · exact Nat.le_trans (Nat.le_of_eq count) tally.filled
  · intro x member
    have kept : x.entry ∈ s.best.toList := entries ▸ List.mem_map_of_mem member
    have inside : x.entry ∈ seen := perm.mem_iff.1 (List.mem_append_left rest kept)
    exact sub.subset (List.mem_map_of_mem inside)
  · have ranks : (r.results s).documents.map Result.rank = List.range' 1 s.best.toList.length :=
      r.map_rank_ranked s.best.toList
    rw [← entries, List.length_map] at ranks
    exact ranks
  · rw [entries]
    have places := List.pairwise_map.1 distinct
    exact ((List.pairwise_append.1 order).1.and places).imp fun h => Entry.rank_eq_lt h.1 h.2
  · have places : (fun x : Result α => (x.document, x.passage.map Span.start)) =
        (fun e => e.context.place) ∘ Result.entry := rfl
    rw [places, ← List.map_map, entries]
    exact distinct

/-- Whatever a query may leave out, its results account for every evaluation that was made: one for
each visited document, or one for each of its passages. -/
theorem execute_accounts (steps : List DraftStep) (r : Retrieval) (q : Query)
    (parameters : Parameters) (plan : Plan α) (scheme : Option PassageScheme)
    (collected : r.collection = .ofSteps steps) (planned : r.plan q parameters = .ok plan)
    (cut : passageScheme (r.levels parameters) = .ok scheme) :
    ∃ results, r.execute (α := α) q parameters = .ok results ∧
      let documents := (r.walkOf parameters plan).documents scheme
      let visited := documents.take results.stats.visited
      let lengths := r.collection.lengths (passageField (r.levels parameters))
      let requested := (r.optionsOf parameters).requested
      visited.length = results.stats.visited ∧
        (results.stats.stoppedEarly = false → requested ≠ 0 → visited = documents) ∧
        Accounts requested (visited.flatMap (contextsOf scheme lengths)) results := by
  have ordered : r.collection.Ordered := collected ▸ Collection.ordered_ofSteps steps
  have run := execute_eq planned
  rw [cut] at run
  by_cases none : (r.optionsOf parameters).requested = 0
  · refine ⟨_, run.trans (if_pos none), rfl, fun _ some => absurd none some, ?_⟩
    exact ⟨rfl, (Nat.min_zero _).symm, Nat.le_refl 0, Nat.le_refl 0, List.forall_mem_nil _, rfl,
      List.Pairwise.nil, List.nodup_nil⟩
  · have compose := sidesCompose_of_plan planned
    have apart (n : Nat) := nodup_places_of_ascending scheme
      (r.collection.lengths (passageField (r.levels parameters)))
      (((r.walkOf parameters plan).documents_pairwise scheme).sublist (List.take_sublist n _))
    obtain ⟨t, n, finished, le, all, tally⟩ :=
      Scan.finish_tally (r.rulesOf parameters plan scheme) compose
        (r.firstScan parameters plan) (r.walkOf parameters plan)
        ⟨⟨rfl, rfl, rfl, fits_start plan⟩, rfl⟩ (measures_walkOf ordered parameters plan)
        (r.tally_firstScan parameters plan)
    have visited : t.stats.visited = n := tally.visited.trans (Nat.zero_add n)
    refine ⟨r.results t, run.trans ((if_neg none).trans ?_), ?_⟩
    · rw [finished]
      rfl
    · have accounts := r.accounts_of_tally tally (apart n)
      rw [← visited] at accounts le all
      exact ⟨List.length_take_of_le le, fun going _ => List.take_of_length_le
        (Nat.le_of_eq (all going).symm), accounts⟩

/-- The second of three documents is the last that is visited, and one of the two is listed. -/
theorem execute_accounts_onlyBest : ∃ results : Results Float,
    priorRetrieval.execute eitherPrior onlyBestPruned = .ok results ∧
      results.stats.visited = 2 ∧ results.stats.scored + results.stats.pruned = 2 ∧
      results.documents.length = 1 ∧ results.stats.entered ≤ results.stats.scored := by
  have built : (priorRetrieval.plan (α := Float) eitherPrior onlyBestPruned).toOption.isSome := by
    decide +kernel
  have stopped : (priorRetrieval.execute (α := Float) eitherPrior onlyBestPruned).toOption.any
      fun results => results.stats.visited == 2 := by decide +kernel
  cases planned : priorRetrieval.plan (α := Float) eitherPrior onlyBestPruned with
  | error e =>
    rw [planned] at built
    cases built
  | ok plan =>
    obtain ⟨results, run, visited, _, accounts⟩ :=
      execute_accounts Cursor.twoPriors priorRetrieval eitherPrior onlyBestPruned plan none rfl
        planned rfl
    rw [run] at stopped
    have two : results.stats.visited = 2 := by simpa [Except.toOption] using stopped
    have made : results.stats.scored + results.stats.pruned = 2 := by
      rw [accounts.evaluated]
      simpa [contextsOf, two] using visited
    refine ⟨results, run, two, made, ?_, accounts.scored⟩
    rw [accounts.listed, made]
    rfl

end Retrieval

end RankedRetrieval
