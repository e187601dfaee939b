import RankedRetrieval.Proofs.Plan.Counted
import RankedRetrieval.Proofs.Plan.Excerpt

set_option autoImplicit false

namespace RankedRetrieval

def TermStatistics.ofCounts (counts : List Nat) : TermStatistics := counts.foldl add empty

/-- Documents in ascending order, which are those with a positive count. Whether the end is among
them is left open. -/
structure Occurring (count : DocId → Nat) (documents : List DocId) : Prop where
  ascending : documents.Pairwise (· < ·)
  positive : ∀ d ∈ documents, 0 < count d
  complete : ∀ d, d ≠ terminated → 0 < count d → d ∈ documents

def TermStatistics.Tallies (s : TermStatistics) (count : DocId → Nat) : Prop :=
  ∃ documents, Occurring count documents ∧ s = ofCounts (documents.map count)

namespace TermStatistics

theorem add_zero (s : TermStatistics) : s.add 0 = s := if_pos rfl

theorem foldl_add (s : TermStatistics) (counts : List Nat) :
    counts.foldl add s =
      { documentFrequency := s.documentFrequency + counts.countP (0 < ·)
        collectionFrequency := s.collectionFrequency + counts.sum
        maxCount := counts.foldl max s.maxCount } := by
  induction counts generalizing s with
  | nil => rfl
  | cons n counts ih =>
    rw [List.foldl_cons, ih]
    rcases Nat.eq_zero_or_pos n with rfl | some
    · simp [add_zero]
    · simp [add, Nat.ne_of_gt some, some, Nat.add_assoc, Nat.add_comm 1]

theorem collectionFrequency_ofCounts (counts : List Nat) :
    (ofCounts counts).collectionFrequency = counts.sum := by
  rw [ofCounts, foldl_add]
  exact Nat.zero_add _

theorem maxCount_ofCounts (counts : List Nat) :
    (ofCounts counts).maxCount = counts.foldl max 0 := by
  rw [ofCounts, foldl_add]
  rfl

theorem le_maxCount_ofCounts {counts : List Nat} {n : Nat} (member : n ∈ counts) :
    n ≤ (ofCounts counts).maxCount := by
  rw [maxCount_ofCounts, List.foldl_eq_foldr]
  exact List.le_max_of_le' 0 member (Nat.le_refl n)

theorem maxCount_le_sum (counts : List Nat) : (ofCounts counts).maxCount ≤ counts.sum := by
  rw [maxCount_ofCounts, List.foldl_eq_foldr]
  induction counts with
  | nil => exact Nat.le_refl 0
  | cons n counts ih =>
    rw [List.foldr_cons, List.sum_cons]
    omega

theorem eq_ofCounts {counts : List Nat} (positive : ∀ n ∈ counts, 0 < n) :
    { documentFrequency := counts.length
      collectionFrequency := counts.foldl (· + ·) 0
      maxCount := counts.max?.getD 0 } = ofCounts counts := by
  have all : counts.countP (0 < ·) = counts.length :=
    List.countP_eq_length.2 fun n member => decide_eq_true (positive n member)
  have most : counts.max?.getD 0 = counts.foldl max 0 := by
    cases counts with
    | nil => rfl
    | cons n counts => rw [List.max?_cons', Option.getD_some, List.foldl_cons, Nat.zero_max]
  rw [ofCounts, foldl_add, all, most, ← List.sum_eq_foldl]
  simp [empty]

variable {s : TermStatistics} {count : DocId → Nat}

theorem Tallies.le_maxCount (h : s.Tallies count) {d : DocId} (notDone : d ≠ terminated) :
    count d ≤ s.maxCount := by
  obtain ⟨documents, occurring, rfl⟩ := h
  rcases Nat.eq_zero_or_pos (count d) with none | some
  · rw [none]
    exact Nat.zero_le _
  · exact le_maxCount_ofCounts (List.mem_map_of_mem (occurring.complete d notDone some))

theorem Tallies.maxCount_eq_zero (h : s.Tallies count) (unseen : s.collectionFrequency = 0) :
    s.maxCount = 0 := by
  obtain ⟨documents, _, rfl⟩ := h
  rw [collectionFrequency_ofCounts] at unseen
  exact Nat.le_zero.1 (unseen ▸ maxCount_le_sum _)

end TermStatistics

section Measured

open Plan TermStatistics

variable {α : Type}

theorem Cursor.le_of_counted {c : Cursor α} (walkable : c.plan.trim.Walkable) {t d : DocId}
    (here : c.plan.trim.Stands t c.position) (le : t ≤ d) (notDone : d ≠ terminated)
    (some : 0 < c.plan.countIn (.whole d)) : c.document ≤ d := by
  have whole : (Context.whole d).document ≠ terminated := notDone
  rw [← countIn_trim _ whole] at some
  exact ((follows _ walkable).first here).least (has_of_countIn_pos some) le

/-- The documents with counts that a cursor is still to come to. -/
structure Cursor.ToCome (c : Cursor α) (t : DocId) (documents : List DocId) : Prop where
  ascending : documents.Pairwise (· < ·)
  later : ∀ d ∈ documents, c.document ≤ d ∧ 0 < c.plan.countIn (.whole d)
  complete : ∀ d, t ≤ d → d ≠ terminated → 0 < c.plan.countIn (.whole d) → d ∈ documents

section Steps

variable {c : Cursor α} {t : DocId}

theorem Cursor.toCome_nil (walkable : c.plan.trim.Walkable)
    (here : c.plan.trim.Stands t c.position) (done : c.document = terminated) : c.ToCome t [] where
  ascending := .nil
  later := List.forall_mem_nil _
  complete d le notDone some := by
    have late := Cursor.le_of_counted walkable here le notDone some
    rw [done] at late
    exact absurd (UInt32.le_antisymm (le_terminated d) late) notDone

theorem Cursor.ToCome.before {c' : Cursor α} {documents : List DocId}
    (h : c'.ToCome (next c.document) documents) (same : c'.plan = c.plan)
    (ahead : next c.document ≤ c'.document) (walkable : c.plan.trim.Walkable)
    (here : c.plan.trim.Stands t c.position) (notDone : c.document ≠ terminated) :
    c.ToCome t (if 0 < c.plan.countIn (.whole c.document) then c.document :: documents
      else documents) := by
  have after d (member : d ∈ documents) : c.document < d :=
    UInt32.lt_of_lt_of_le (lt_next notDone) (UInt32.le_trans ahead (h.later d member).1)
  have others d (member : d ∈ documents) : c.document ≤ d ∧ 0 < c.plan.countIn (.whole d) :=
    ⟨UInt32.le_of_lt (after d member), same ▸ (h.later d member).2⟩
  have missed d (le : t ≤ d) (notEnd : d ≠ terminated) (some : 0 < c.plan.countIn (.whole d))
      (other : c.document ≠ d) : d ∈ documents := by
    have reached := Cursor.le_of_counted walkable here le notEnd some
    exact h.complete d ((next_le_iff notDone).2 (UInt32.lt_of_le_of_ne reached other)) notEnd
      (same.symm ▸ some)
  split
  · rename_i some
    refine ⟨.cons after h.ascending, ?_, fun d le notEnd counted => ?_⟩
    · exact List.forall_mem_cons.2 ⟨⟨UInt32.le_refl _, some⟩, others⟩
    · by_cases here : c.document = d
      · exact here ▸ List.mem_cons_self
      · exact List.mem_cons_of_mem _ (missed d le notEnd counted here)
  · rename_i none
    exact ⟨h.ascending, others, fun d le notEnd some =>
      missed d le notEnd some fun here => none (here ▸ some)⟩

end Steps

/-- A walk takes in the counts of the documents that are still to come. -/
theorem Cursor.measureFrom_eq {c : Cursor α} (walkable : c.plan.trim.Walkable) {t : DocId}
    (here : c.plan.trim.Stands t c.position) {s s' : TermStatistics}
    (measured : c.measureFrom s = .ok s') :
    ∃ documents, c.ToCome t documents ∧
      s' = (documents.map fun d => c.plan.countIn (.whole d)).foldl add s := by
  fun_induction measureFrom c s generalizing t with
  | case1 c s done =>
    cases measured
    exact ⟨[], toCome_nil walkable here done, rfl⟩
  | case2 c s notDone e moved =>
    rw [c.moveTo_next] at moved
    cases moved
  | case3 c s notDone moved' moved ih =>
    rw [c.moveTo_next] at moved
    cases moved
    have f := follows c.plan.trim walkable
    have first := f.first here
    have forward := UInt32.le_of_lt (lt_next notDone)
    have there := f.move here (UInt32.le_trans first.le forward) forward
    have ahead := (f.first there).le
    rw [advance_trim] at there ahead
    have counted : c.countAt (.whole c.document) = c.plan.countIn (.whole c.document) := by
      have whole : (Context.whole c.document).document ≠ terminated := notDone
      rw [Cursor.countAt, ← countAt_trim _ whole, ← countIn_trim _ whole]
      exact countAt_eq _ walkable here first.le (UInt32.le_refl _) whole
    obtain ⟨documents, toCome, rfl⟩ := ih walkable there measured
    refine ⟨_, toCome.before rfl ahead walkable here notDone, ?_⟩
    rw [counted]
    split
    · rfl
    · rename_i none
      rw [Nat.eq_zero_of_not_pos none, add_zero]

theorem Plan.tallies_measure [Arithmetic α] {w : Workshop} (ordered : w.collection.Ordered)
    {plan : Plan α} (built : Built w plan) {s : TermStatistics} (measured : plan.measure = .ok s) :
    s.Tallies fun d => plan.countIn (.whole d) := by
  have walkable := built.walkable_trim ordered
  obtain ⟨documents, toCome, same⟩ :=
    Cursor.measureFrom_eq (c := .ofPlan plan) walkable (stands_start_trim plan walkable) measured
  exact ⟨documents, ⟨toCome.ascending, fun d member => (toCome.later d member).2,
    fun d => toCome.complete d UInt32.zero_le⟩, same⟩

end Measured

section Terms

open TermStatistics

theorem eq_of_someSpans {spans found : List Span} (h : someSpans spans = some found) :
    found = spans ∧ 0 < spans.length := by
  unfold someSpans at h
  split at h
  · cases h
  · rename_i some
    cases h
    exact ⟨rfl, List.length_pos_iff.2 some⟩

def frequencyOf (steps : List DraftStep) (field term : String) (d : DocId) : Nat :=
  (occurrences term 0 (tokensOf steps field d)).length

theorem Collection.mem_postings {steps : List DraftStep} {field term : String} {posting : Posting}
    (member : posting ∈ ((ofSteps steps).postings field term).toList) :
    posting.spans.length = frequencyOf steps field term posting.document ∧
      0 < frequencyOf steps field term posting.document := by
  have found := ((ordered_ofSteps steps).postings field term).find?_of_mem member
  rw [find?_postings] at found
  obtain ⟨spans, listed, same⟩ := Option.map_eq_some_iff.1 found
  obtain ⟨rfl, some⟩ := eq_of_someSpans listed
  exact ⟨congrArg (fun p : Posting => p.spans.length) same.symm, some⟩

theorem Collection.tallies_termStatistics (steps : List DraftStep) (field term : String) :
    ((ofSteps steps).termStatistics field term).Tallies (frequencyOf steps field term) := by
  have counts : ((ofSteps steps).postings field term).toList.map (fun p => p.spans.length) =
      (((ofSteps steps).postings field term).toList.map Posting.document).map
        (frequencyOf steps field term) := by
    rw [List.map_map]
    exact List.map_congr_left fun posting member => (mem_postings member).1
  refine ⟨((ofSteps steps).postings field term).toList.map Posting.document, ⟨?_, ?_, ?_⟩, ?_⟩
  · exact List.pairwise_map.2 ((ordered_ofSteps steps).postings field term)
  · rw [List.forall_mem_map]
    exact fun posting member => (mem_postings member).2
  · intro d _ some
    have found := find?_postings steps field term d
    rw [someSpans, if_neg (List.length_pos_iff.1 some)] at found
    have member := Array.mem_toList_iff.2 (Array.mem_of_find?_eq_some found)
    exact List.mem_map.2 ⟨_, member, rfl⟩
  · rw [termStatistics, ← counts]
    refine eq_ofCounts ?_
    rw [List.forall_mem_map]
    intro posting member
    exact (mem_postings member).1 ▸ (mem_postings member).2

end Terms

namespace Vocabulary

variable {v : Vocabulary} {operator : String} {parameters : Parameters}

theorem unfiltered_filter (form : v.form? operator = some .passageFilter) (child : Query) :
    v.unfiltered (.node operator parameters [child]) = v.unfiltered child := by
  rw [unfiltered]
  exact form

theorem unfiltered_eq_self (form : v.form? operator ≠ some .passageFilter)
    (children : List Query) :
    v.unfiltered (.node operator parameters children) = .node operator parameters children := by
  unfold unfiltered
  split
  · exact absurd ‹_› form
  · rfl

theorem unfiltered_leaf : v.unfiltered (.node operator parameters []) =
    .node operator parameters [] := by
  unfold unfiltered
  split
  · rename_i none
    cases none
  · rfl

theorem isFiltered_filter (form : v.form? operator = some .passageFilter) (child : Query) :
    v.isFiltered (.node operator parameters [child]) = true := by
  rw [isFiltered, form]
  rfl

theorem isTermLeaf_iff {q : Query} : v.isTermLeaf q = true ↔
    v.form? q.operator = some .termExtents ∨ v.form? q.operator = some .termCounts := by
  unfold isTermLeaf
  split
  · rename_i form
    simp [form]
  · rename_i form
    simp [form]
  · rename_i other other'
    exact ⟨fun h => (Bool.false_ne_true h).elim, fun h => (h.elim other other').elim⟩

theorem not_isTermLeaf {form : Form} (known : v.form? operator = some form)
    (other : form ≠ .termExtents ∧ form ≠ .termCounts ∧ form ≠ .passageFilter)
    {children : List Query} :
    ¬v.isTermLeaf (v.unfiltered (.node operator parameters children)) = true := by
  obtain ⟨noExtents, noCounts, noFilter⟩ := other
  have noFilter' : v.form? operator ≠ some .passageFilter :=
    known ▸ fun same => noFilter (Option.some.inj same)
  rw [unfiltered_eq_self noFilter', isTermLeaf_iff, Query.operator, known, Option.some.injEq,
    Option.some.injEq]
  exact fun h => h.elim noExtents noCounts

end Vocabulary

namespace Plan

variable {α : Type}

theorem restrict_again (ctx : Context) (chosen : Prop) [Decidable chosen] (spans : List Span) :
    restrict ctx.passage (restrict (if chosen then ctx.passage else none) spans) =
      restrict ctx.passage spans := by
  split
  · cases ctx.passage with
    | none => rfl
    | some p => simp [restrict]
  · rfl

/-- What a plan reads of a term, within the passage if it is filtered. -/
structure ReadsTerm (steps : List DraftStep) (field term : String) (filtered : Bool)
    (plan : Plan α) : Prop where
  spans : plan.capabilities.has .extent = true → ∀ ctx : Context, plan.spansIn ctx =
    restrict (if filtered then ctx.passage else none)
      (occurrences term 0 (tokensOf steps field ctx.document))
  total : ∀ ctx : Context, plan.totalIn ctx =
    (restrict (if filtered then ctx.passage else none)
      (occurrences term 0 (tokensOf steps field ctx.document))).length

theorem readsTerm_extents (steps : List DraftStep) (field term : String) :
    ReadsTerm (α := α) steps field term false
      (.extents ((Collection.ofSteps steps).postings field term)) where
  spans _ ctx := Pattern.spansIn_extents steps field term ctx
  total ctx := congrArg List.length (Pattern.spansIn_extents (α := α) steps field term ctx)

theorem readsTerm_counts (steps : List DraftStep) (field term : String) :
    ReadsTerm (α := α) steps field term false
      (.counts ((Collection.ofSteps steps).postings field term)) where
  spans answers := nomatch answers
  total ctx := by
    have spans := congrArg List.length (Pattern.spansIn_extents (α := α) steps field term ctx)
    rw [spansIn] at spans
    rw [totalIn, if_neg Bool.false_ne_true]
    refine Eq.trans ?_ spans
    cases ((Collection.ofSteps steps).postings field term).find? fun e =>
      e.document = ctx.document <;> rfl

theorem ReadsTerm.filter {steps : List DraftStep} {field term : String} {filtered : Bool}
    {plan : Plan α} (h : ReadsTerm steps field term filtered plan)
    (answers : plan.capabilities.has .extent = true) :
    ReadsTerm steps field term true (.passageFilter plan) := by
  have spans (ctx : Context) : (passageFilter plan).spansIn ctx =
      restrict ctx.passage (occurrences term 0 (tokensOf steps field ctx.document)) := by
    rw [spansIn, h.spans answers, restrict_again]
  exact ⟨fun _ => spans, fun ctx => congrArg List.length (spans ctx)⟩

end Plan

namespace Workshop

open Plan

variable {α : Type} [Arithmetic α] {w : Workshop}

/-- A term under filters is read within the passage. -/
theorem readsTerm_of_build {steps : List DraftStep} (collected : w.collection = .ofSteps steps)
    {q : Query} {plan : Plan α} (built : w.build q = .ok plan)
    (leaf : w.vocabulary.isTermLeaf (w.vocabulary.unfiltered q) = true) :
    ∃ term, requiredText (w.vocabulary.unfiltered q).operator
        (w.vocabulary.unfiltered q).parameters "term" = .ok term ∧
      ReadsTerm steps (Query.fieldOf (w.vocabulary.unfiltered q).parameters) term
        (w.vocabulary.isFiltered q) plan := by
  induction q generalizing plan with
  | node operator parameters children ih =>
    obtain ⟨m, plans, resolved, builtAll, assembled⟩ := assembled_of_build built
    have form : w.vocabulary.form? operator = some m.form := Vocabulary.form_of_resolve resolved
    -- only a term or a filter keeps a query a term under filters
    have refuted {other : Form} (same : m.form = other)
        (h : other ≠ .termExtents ∧ other ≠ .termCounts ∧ other ≠ .passageFilter) : False :=
      Vocabulary.not_isTermLeaf (form.trans (congrArg some same)) h leaf
    cases assembled with
    | extents _ given =>
      rw [Vocabulary.unfiltered_leaf, collected]
      exact ⟨_, given, readsTerm_extents steps _ _⟩
    | counts _ given =>
      rw [Vocabulary.unfiltered_leaf, collected]
      exact ⟨_, given, readsTerm_counts steps _ _⟩
    | passageFilter filters answers =>
      rw [filters] at form
      cases builtAll with
      | cons first _ =>
        rw [Vocabulary.unfiltered_filter form] at leaf ⊢
        rw [Vocabulary.isFiltered_filter form]
        obtain ⟨term, given, reads⟩ := ih _ List.mem_cons_self first leaf
        exact ⟨term, given, reads.filter answers⟩
    | window _ ordered =>
      rcases eq_of_windowOrder? ordered with ⟨other, _⟩ | ⟨other, _⟩
      · exact (refuted other (by decide)).elim
      · exact (refuted other (by decide)).elim
    | boolean _ grouped =>
      rcases eq_of_booleanMode? grouped with ⟨other, _⟩ | ⟨other, _⟩
      · exact (refuted other (by decide)).elim
      · exact (refuted other (by decide)).elim
    | scorerOfCounts scores | scorer scores =>
      rcases eq_of_isScorer scores with other | other
      · exact (refuted other (by decide)).elim
      · exact (refuted other (by decide)).elim
    | lengths other | prior other | synonym other | synonymCounts other | passageLength other
    | combine other | log other | scale other | require other =>
      exact (refuted other (by decide)).elim

/-- Whether the counts are of a term or measured, the statistics are those of what they hold. -/
theorem tallies_of_statistics {steps : List DraftStep} (collected : w.collection = .ofSteps steps)
    {q : Query} {plan : Plan α} (built : w.build q = .ok plan) {s : TermStatistics}
    (known : w.statistics q plan = .ok s) :
    ∃ count, s.Tallies count ∧ (∀ d, count d ≤ plan.totalIn (.whole d)) ∧
      ∀ d, plan.totalIn (.whole d) < 2 ^ 32 → count d = plan.totalIn (.whole d) := by
  have ordered : w.collection.Ordered := collected ▸ Collection.ordered_ofSteps steps
  unfold statistics at known
  split at known
  rename_i operator parameters children inner
  split at known
  · rename_i leaf
    rw [← inner] at leaf
    obtain ⟨term, given, reads⟩ := readsTerm_of_build collected built leaf
    rw [inner] at given reads
    obtain ⟨term', given', same⟩ := of_bind_eq_ok known
    cases given.symm.trans given'
    cases same
    have counts (d : DocId) : frequencyOf steps (Query.fieldOf parameters) term d =
        plan.totalIn (.whole d) := by
      rw [reads.total]
      split <;> rfl
    rw [collected]
    exact ⟨_, Collection.tallies_termStatistics steps _ term, fun d => (counts d).le,
      fun d _ => counts d⟩
  · exact ⟨_, tallies_measure ordered (built_of_build w q built) known,
      fun d => plan.countIn_le_totalIn _, fun d => countIn_of_lt⟩

end Workshop

end RankedRetrieval
