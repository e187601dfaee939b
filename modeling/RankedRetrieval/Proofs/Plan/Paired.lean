import RankedRetrieval.Proofs.Plan.Tallied
import RankedRetrieval.Proofs.Score.Likelihood

set_option autoImplicit false

namespace RankedRetrieval

section Fields

variable {steps : List DraftStep} {field : String} {d : DocId}

theorem givenTokens_of_pos (some : 0 < (tokensOf steps field d).length) :
    givenTokens steps field d = .some (tokensOf steps field d) := by
  unfold tokensOf at *
  cases listed : givenTokens steps field d with
  | none =>
    rw [listed] at some
    exact absurd some (Nat.lt_irrefl 0)
  | some tokens => rfl

theorem Collection.mem_lengths {entry : DocId × Nat}
    (member : entry ∈ ((ofSteps steps).lengths field).toList) :
    entry.2 = (tokensOf steps field entry.1).length := by
  have found := ((ordered_ofSteps steps).lengths field).find?_of_mem member
  rw [find?_lengths] at found
  obtain ⟨tokens, listed, same⟩ := Option.map_eq_some_iff.1 found
  rw [tokensOf, listed]
  exact congrArg Prod.snd same.symm

theorem Collection.lengths_mem {tokens : List String}
    (listed : givenTokens steps field d = some tokens) :
    (d, tokens.length) ∈ ((ofSteps steps).lengths field).toList := by
  have found := find?_lengths steps field d
  rw [listed] at found
  exact Array.mem_toList_iff.2 (Array.mem_of_find?_eq_some found)

theorem Collection.minLength_le {tokens : List String}
    (listed : givenTokens steps field d = some tokens) :
    ((ofSteps steps).fieldStatistics field).minLength ≤ tokens.length :=
  List.min?_getD_le_of_mem (List.mem_map_of_mem (lengths_mem listed))

theorem Collection.le_maxLength (steps : List DraftStep) (field : String) (d : DocId) :
    (tokensOf steps field d).length ≤ ((ofSteps steps).fieldStatistics field).maxLength := by
  unfold tokensOf
  cases listed : givenTokens steps field d with
  | none => exact Nat.zero_le _
  | some tokens => exact List.le_max?_getD_of_mem (List.mem_map_of_mem (lengths_mem listed))

theorem Collection.sum_lengths_le {documents : List DocId} (distinct : documents.Nodup)
    (listed : ∀ d ∈ documents, (givenTokens steps field d).isSome = true) :
    (documents.map fun d => (tokensOf steps field d).length).sum ≤
      ((ofSteps steps).fieldStatistics field).collectionLength := by
  have all : ((ofSteps steps).lengths field).toList.map Prod.snd =
      (((ofSteps steps).lengths field).toList.map Prod.fst).map
        fun d => (tokensOf steps field d).length := by
    rw [List.map_map]
    exact List.map_congr_left fun entry member => mem_lengths member
  have within : documents ⊆ ((ofSteps steps).lengths field).toList.map Prod.fst := by
    intro d member
    obtain ⟨tokens, given⟩ := Option.isSome_iff_exists.1 (listed d member)
    exact List.mem_map.2 ⟨_, lengths_mem given, rfl⟩
  obtain ⟨documents', same, among⟩ := List.subperm_of_subset distinct within
  rw [fieldStatistics, FieldStatistics.ofLengths, ← List.sum_eq_foldl, all,
    ← (same.map fun d => (tokensOf steps field d).length).sum_eq]
  exact (among.map _).sum_le_sum fun _ _ => Nat.zero_le _

/-- Where only documents of the field are counted, the counts have no larger share of its tokens
than a shortest document full of occurrences would have. -/
theorem TermStatistics.Tallies.share {s : TermStatistics} {count : DocId → Nat}
    (h : s.Tallies count) (listed : ∀ d, 0 < count d → (givenTokens steps field d).isSome = true) :
    s.collectionFrequency * ((Collection.ofSteps steps).fieldStatistics field).minLength ≤
      s.maxCount * ((Collection.ofSteps steps).fieldStatistics field).collectionLength := by
  obtain ⟨documents, occurring, rfl⟩ := h
  rw [collectionFrequency_ofCounts]
  generalize shortest : ((Collection.ofSteps steps).fieldStatistics field).minLength = least
  generalize most : (ofCounts (documents.map count)).maxCount = greatest
  have each d (member : d ∈ documents) :
      count d * least ≤ greatest * (tokensOf steps field d).length := by
    obtain ⟨tokens, given⟩ := Option.isSome_iff_exists.1 (listed d (occurring.positive d member))
    rw [← most, ← shortest, tokensOf, given]
    exact Nat.mul_le_mul (le_maxCount_ofCounts (List.mem_map_of_mem member))
      (Collection.minLength_le given)
  calc (documents.map count).sum * least
      = (documents.map fun d => count d * least).sum := (List.sum_map_mul_right _ _ _).symm
    _ ≤ (documents.map fun d => greatest * (tokensOf steps field d).length).sum :=
        List.sum_le_sum each
    _ = greatest * (documents.map fun d => (tokensOf steps field d).length).sum :=
        List.sum_map_mul_left _ _ _
    _ ≤ greatest * ((Collection.ofSteps steps).fieldStatistics field).collectionLength := by
        refine Nat.mul_le_mul_left _ (Collection.sum_lengths_le ?_ ?_)
        · exact occurring.ascending.imp UInt32.ne_of_lt
        · exact fun d member => listed d (occurring.positive d member)

theorem length_occurrences_le (term : String) (position : Nat) (tokens : List String) :
    (occurrences term position tokens).length ≤ tokens.length := by
  induction tokens generalizing position with
  | nil => exact Nat.le_refl 0
  | cons token tokens ih =>
    have later := ih (position + 1)
    rw [occurrences]
    split
    · simp only [List.length_cons]
      omega
    · simp only [List.length_cons]
      omega

theorem length_occurrences_within_le (term : String) (passage : Span) (position : Nat)
    (tokens : List String) :
    ((occurrences term position tokens).filter passage.contains).length ≤
      min (position + tokens.length) passage.stop - max position passage.start := by
  induction tokens generalizing position with
  | nil => exact Nat.zero_le _
  | cons token tokens ih =>
    have later := ih (position + 1)
    rw [occurrences]
    split
    · rw [List.filter_cons]
      split
      · rename_i inside
        have bounds : passage.start ≤ position ∧ position + 1 ≤ passage.stop :=
          Span.contains_iff.1 inside
        simp only [List.length_cons]
        omega
      · simp only [List.length_cons]
        omega
    · simp only [List.length_cons]
      omega

end Fields

/-- The number of times a plan of lengths clips them to the passage. -/
def Plan.clips {α : Type} : Plan α → Nat
  | .passageLength child => child.clips + 1
  | _ => 0

section Clipped

theorem clippedLength_le (passage : Option Span) (length : Nat) :
    clippedLength passage length ≤ length := by
  cases passage with
  | none => exact Nat.le_refl length
  | some p => exact (Nat.sub_le _ _).trans (Nat.min_le_left _ _)

theorem iterate_clipped_le (passage : Option Span) (times length : Nat) :
    (clippedLength passage)^[times] length ≤ length := by
  induction times with
  | zero => exact Nat.le_refl length
  | succ times ih =>
    rw [Function.iterate_succ_apply']
    exact (clippedLength_le passage _).trans ih

theorem iterate_clipped_none (times length : Nat) :
    (clippedLength none)^[times] length = length := by
  induction times with
  | zero => rfl
  | succ times ih => rw [Function.iterate_succ_apply', ih, clippedLength]

theorem iterate_clipped_start (stop times length : Nat) :
    (clippedLength (some ⟨0, stop⟩))^[times + 1] length =
      clippedLength (some ⟨0, stop⟩) length := by
  induction times with
  | zero => rfl
  | succ times ih =>
    rw [Function.iterate_succ_apply', ih]
    simp only [clippedLength]
    omega

/-- From elsewhere, the clipped length is taken for that of a document which ends so early. -/
example : clippedLength (some ⟨4, 8⟩) 8 = 4 ∧ (clippedLength (some ⟨4, 8⟩))^[2] 8 = 0 := by decide

end Clipped

/-- No length is clipped twice, unless that changes nothing. -/
def ClippedOnce {α : Type} (side : Plan α) (passage : Option Span) : Prop :=
  side.clips ≤ 1 ∨ ∀ p ∈ passage, p.start = 0

section Room

variable {passage : Option Span} {times : Nat}

theorem iterate_clipped_once {p : Span} (once : times ≤ 1 ∨ p.start = 0) (some : 0 < times)
    (length : Nat) :
    (clippedLength (.some p))^[times] length = clippedLength (.some p) length := by
  obtain ⟨times, rfl⟩ := Nat.exists_eq_succ_of_ne_zero (Nat.ne_of_gt some)
  rcases once with one | start
  · obtain rfl : times = 0 := by omega
    rfl
  · obtain ⟨start', stop⟩ := p
    obtain rfl : start' = 0 := start
    exact iterate_clipped_start stop times length

theorem length_restrict_le {filtered : Bool} (term : String) (tokens : List String)
    (within : filtered = true ∨ times = 0) (once : times ≤ 1 ∨ ∀ p ∈ passage, p.start = 0) :
    (restrict (if filtered then passage else none) (occurrences term 0 tokens)).length ≤
      (clippedLength passage)^[times] tokens.length := by
  have all := length_occurrences_le term 0 tokens
  have fewer := (restrict_sublist (if filtered then passage else none)
    (occurrences term 0 tokens)).length_le
  rcases Nat.eq_zero_or_pos times with rfl | some
  · exact fewer.trans all
  have filters : filtered = true := within.resolve_right (Nat.ne_of_gt some)
  rw [filters] at fewer ⊢
  cases passage with
  | none =>
    rw [iterate_clipped_none]
    exact fewer.trans all
  | some p =>
    have inside := length_occurrences_within_le term p 0 tokens
    rw [Nat.zero_add, Nat.zero_max] at inside
    rw [iterate_clipped_once (once.imp_right fun start => start p rfl) some]
    exact inside

end Room

section Lists

open Plan Axis

variable {α : Type} {steps : List DraftStep} {field : String} {d : DocId}

/-- What a plan of lengths reads of a field, and how often it clips that. -/
structure MeasuresField (steps : List DraftStep) (field : String)
    (source : Vocabulary.LengthSource) (side : Plan α) : Prop where
  clipped : source.clipped = decide (0 < side.clips)
  length : ∀ ctx : Context, side.lengthIn ctx =
    (clippedLength ctx.passage)^[side.clips] (tokensOf steps field ctx.document).length

theorem measuresField_lengths (steps : List DraftStep) (field : String) (plain : Bool) :
    MeasuresField (α := α) steps field { plain, clipped := false }
      (.lengths ((Collection.ofSteps steps).lengths field)) where
  clipped := rfl
  length ctx := Pattern.lengthIn_lengths steps field ctx

theorem MeasuresField.passageLength {source : Vocabulary.LengthSource} {side : Plan α}
    (h : MeasuresField steps field source side) :
    MeasuresField steps field { source with clipped := true } (.passageLength side) where
  clipped := (decide_eq_true (Nat.succ_pos _)).symm
  length ctx := by
    rw [lengthIn, h.length, clips, Function.iterate_succ_apply']

theorem listed_postings {term : String}
    (member : listed Posting.document ((Collection.ofSteps steps).postings field term) d = true) :
    (givenTokens steps field d).isSome = true := by
  obtain ⟨i, inside, same⟩ := listed_iff.1 member
  have found := Collection.mem_postings (Array.getElem_mem_toList inside)
  rw [same] at found
  have fits := length_occurrences_le term 0 (tokensOf steps field d)
  rw [givenTokens_of_pos (Nat.lt_of_lt_of_le found.2 fits)]
  rfl

theorem count_of_extent {plan : Plan α} (answers : plan.capabilities.has .extent = true) :
    plan.capabilities.has .count = true := by
  unfold capabilities at *
  cases kind : plan.kind with
  | extent => rfl
  | _ =>
    rw [kind] at answers
    cases answers

end Lists

namespace Vocabulary

variable {v : Vocabulary} {operator : String} {parameters : Parameters}

theorem lengthSource_lengths (form : v.form? operator = some .fieldLengths)
    (children : List Query) :
    v.lengthSource (.node operator parameters children) = { plain := true, clipped := false } := by
  rw [lengthSource.eq_def]
  simp only [form]

theorem lengthSource_passage (form : v.form? operator = some .passageLength) (child : Query) :
    v.lengthSource (.node operator parameters [child]) =
      { v.lengthSource child with clipped := true } := by
  rw [lengthSource.eq_def]
  simp only [form]

theorem allTermsIn_iff {field : String} {children : List Query} :
    v.allTermsIn field children = true ↔ ∀ q ∈ children, v.termsIn field q = true := by
  induction children with
  | nil => simp [allTermsIn]
  | cons q rest ih => rw [allTermsIn, Bool.and_eq_true, ih, List.forall_mem_cons]

theorem termsIn_iff {field : String} {children : List Query} :
    v.termsIn field (.node operator parameters children) = true ↔
      (v.isTermLeaf (.node operator parameters []) = true → Query.fieldOf parameters = field) ∧
        ∀ q ∈ children, v.termsIn field q = true := by
  rw [termsIn, Bool.and_eq_true, allTermsIn_iff, Bool.or_eq_true, Bool.not_eq_true', beq_iff_eq]
  cases v.isTermLeaf (.node operator parameters []) <;> simp

theorem fieldOf_of_termsIn {field : String} {q : Query} (terms : v.termsIn field q = true)
    (leaf : v.isTermLeaf q = true) : Query.fieldOf q.parameters = field := by
  cases q with
  | node operator parameters children => exact (termsIn_iff.1 terms).1 leaf

/-- The shortest length that is assumed is none, or that of a field all of whose terms are counted
beside its unclipped lengths. -/
theorem shortest_cases (v : Vocabulary) (source : LengthSource) (q : Query) (field : String)
    (stats : FieldStatistics) :
    (v.lengthBounds source q field stats).shortest = 0 ∨
      (v.termsIn field (v.unfiltered q) = true ∧ source.clipped = false ∧
        (v.lengthBounds source q field stats).shortest = stats.minLength) := by
  simp only [lengthBounds]
  split
  · rename_i same
    rw [Bool.and_eq_true, Bool.and_eq_true, Bool.not_eq_true'] at same
    exact .inr ⟨same.1.2, same.2, rfl⟩
  · exact .inl rfl

theorem termsIn_unfiltered (field : String) (q : Query) :
    v.termsIn field (v.unfiltered q) = v.termsIn field q := by
  induction q with
  | node operator parameters children ih =>
    unfold unfiltered
    split
    · rename_i child filters
      have noLeaf : ¬v.isTermLeaf (.node operator parameters []) = true := by
        rw [isTermLeaf_iff, Query.operator, filters]
        decide
      rw [ih child List.mem_cons_self, Bool.eq_iff_iff, termsIn_iff, List.forall_mem_singleton]
      exact ⟨fun below => ⟨fun leaf => absurd leaf noLeaf, below⟩, And.right⟩
    · rfl

end Vocabulary

def Plan.isScorer {α : Type} : Plan α → Bool
  | .dirichlet _ _ _ | .bm25 _ _ _ => true
  | _ => false

namespace Workshop

open Plan Axis

variable {α : Type} [Arithmetic α] {w : Workshop} {steps : List DraftStep}

theorem measuresField_of_build (collected : w.collection = .ofSteps steps) {q : Query}
    {plan : Plan α} (built : w.build q = .ok plan)
    (measures : plan.capabilities.has .length = true) :
    MeasuresField steps (Query.fieldOf q.source.parameters) (w.vocabulary.lengthSource q)
      plan := by
  induction q generalizing plan with
  | node operator parameters children ih =>
    obtain ⟨m, plans, resolved, builtAll, assembled⟩ := assembled_of_build built
    have form : w.vocabulary.form? operator = some m.form := Vocabulary.form_of_resolve resolved
    cases assembled with
    | lengths measured =>
      rw [measured] at form
      rw [Vocabulary.lengthSource_lengths form, collected]
      exact measuresField_lengths steps _ true
    | passageLength clips inner =>
      rw [clips] at form
      cases builtAll with
      | cons first _ =>
        rw [Vocabulary.lengthSource_passage form]
        exact (ih _ List.mem_cons_self first inner).passageLength
    | scorerOfCounts | scorer =>
      rw [scorerOf, capabilities, kind_scorer] at measures
      cases measures
    | _ => cases measures

theorem exists_of_plans {children : List Query} {plans : List (Plan α)}
    (built : Plans w children plans) {plan : Plan α} (member : plan ∈ plans) :
    ∃ q ∈ children, w.build q = .ok plan := by
  induction built with
  | nil => cases member
  | cons first _ ih =>
    rcases List.mem_cons.1 member with rfl | later
    · exact ⟨_, List.mem_cons_self, first⟩
    · obtain ⟨q, among, built⟩ := ih later
      exact ⟨q, List.mem_cons_of_mem _ among, built⟩

/-- Whatever is counted of the terms of a field is found in documents of the field. -/
theorem givenTokens_of_has (collected : w.collection = .ofSteps steps) {field : String} {q : Query}
    (terms : w.vocabulary.termsIn field q = true) {plan : Plan α} (built : w.build q = .ok plan)
    (answers : plan.capabilities.has .count = true) {d : DocId} (member : plan.has d = true) :
    (givenTokens steps field d).isSome = true := by
  induction q generalizing plan with
  | node operator parameters children ih =>
    obtain ⟨m, plans, resolved, builtAll, assembled⟩ := assembled_of_build built
    have form : w.vocabulary.form? operator = some m.form := Vocabulary.form_of_resolve resolved
    obtain ⟨own, below⟩ := Vocabulary.termsIn_iff.1 terms
    have each (answer : Answer plans .count) (child : Plan α) (among : child ∈ plans)
        (has : child.has d = true) : (givenTokens steps field d).isSome = true := by
      obtain ⟨q, inside, first⟩ := exists_of_plans builtAll among
      exact ih q inside (below q inside) first (answer child among) has
    cases assembled with
    | extents leaf _ | counts leaf _ =>
      rw [leaf] at form
      rw [← own (by rw [Vocabulary.isTermLeaf_iff, Query.operator, form]; decide)]
      rw [collected] at member
      exact listed_postings member
    | window _ _ some answer _ =>
      obtain ⟨child, among⟩ := List.exists_mem_of_ne_nil _ (nonempty_of_plans builtAll some)
      rw [has, inAll_eq, Bool.and_eq_true, Bool.and_eq_true, List.all_eq_true] at member
      exact each (fun child among => count_of_extent (answer child among)) child among
        (member.1.1 child among)
    | synonym _ _ _ answer =>
      rw [has, inAny_eq, hasAny, List.any_eq_true] at member
      obtain ⟨child, among, has⟩ := member
      exact each (fun child among => count_of_extent (answer child among)) child among has
    | synonymCounts _ _ _ answer =>
      rw [has, inAny_eq, hasAny, List.any_eq_true] at member
      obtain ⟨child, among, has⟩ := member
      exact each answer child among has
    | passageFilter _ inner =>
      exact each (List.forall_mem_singleton.2 (count_of_extent inner)) _ List.mem_cons_self member
    | scorerOfCounts | scorer =>
      rw [scorerOf, capabilities, kind_scorer] at answers
      cases answers
    | _ => cases answers

theorem of_scorer {form : Form} {parameters : Parameters} {lengths counts : Plan α}
    {term : TermStatistics} {field : FieldStatistics} {bounds : LengthBounds}
    {side counted : Plan α} {model : Dirichlet α}
    (h : w.scorer form parameters lengths counts term field bounds =
      .dirichlet side counted model) :
    side = lengths ∧ counted = counts ∧ model.term = term ∧ model.field = field ∧
      model.lengths = bounds := by
  unfold scorer at h
  split at h
  · cases h
  · cases h
    exact ⟨rfl, rfl, rfl, rfl, rfl⟩

theorem of_scorer_bm25 {form : Form} {parameters : Parameters} {lengths counts : Plan α}
    {term : TermStatistics} {field : FieldStatistics} {bounds : LengthBounds}
    {side counted : Plan α} {model : Bm25 α}
    (h : w.scorer form parameters lengths counts term field bounds = .bm25 side counted model) :
    side = lengths ∧ counted = counts ∧ model.term = term ∧ model.field = field ∧
      model.lengths = bounds := by
  unfold scorer at h
  split at h
  · cases h
    exact ⟨rfl, rfl, rfl, rfl, rfl⟩
  · cases h

/-- What the bounds of a scorer assume holds of what its parts hold. -/
structure Paired (term : TermStatistics) (field : FieldStatistics) (bounds : LengthBounds)
    (side counted : Plan α) : Prop where
  matched : bounds.Matched term field
  longest : ∀ ctx, side.lengthIn ctx ≤ field.maxLength
  fits : ∀ (ctx : Context) (count : Nat), ctx.document ≠ terminated →
    counted.totalIn (.whole ctx.document) < 2 ^ 32 → count ≤ counted.totalIn ctx →
      (bounds.countsWithinLength = true → ClippedOnce side ctx.passage) →
        bounds.Fits term count (side.lengthIn ctx)

section Assumed

variable {q : Query} {side counted : Plan α} {term : TermStatistics} {field : String}
  {source : Vocabulary.LengthSource}

theorem totalIn_le_length (collected : w.collection = .ofSteps steps)
    (measures : MeasuresField steps field source side) (built : w.build q = .ok counted)
    {stats : FieldStatistics}
    (within : (w.vocabulary.lengthBounds source q field stats).countsWithinLength = true)
    (ctx : Context) (once : ClippedOnce side ctx.passage) :
    counted.totalIn ctx ≤ side.lengthIn ctx := by
  simp only [Vocabulary.lengthBounds, Bool.and_eq_true, Bool.or_eq_true, Bool.not_eq_true',
    measures.clipped, decide_eq_false_iff_not, Nat.not_lt, Nat.le_zero] at within
  obtain ⟨⟨⟨_, terms⟩, leaf⟩, within⟩ := within
  obtain ⟨term, _, reads⟩ := readsTerm_of_build collected built leaf
  rw [Vocabulary.fieldOf_of_termsIn terms leaf] at reads
  rw [measures.length]
  exact (reads.total ctx).le.trans (length_restrict_le term _ within once)

/-- What is counted of the terms of the field is found in documents of the field. -/
theorem givenTokens_of_totalIn (collected : w.collection = .ofSteps steps)
    (built : w.build q = .ok counted) (answers : counted.capabilities.has .count = true)
    (terms : w.vocabulary.termsIn field (w.vocabulary.unfiltered q) = true) {ctx : Context}
    (some : 0 < counted.totalIn ctx) : (givenTokens steps field ctx.document).isSome = true :=
  givenTokens_of_has collected (Vocabulary.termsIn_unfiltered field q ▸ terms) built answers
    (has_of_totalIn_pos some)

/-- Where anything is counted, the length is no less than the shortest that is assumed. -/
theorem shortest_le_length (collected : w.collection = .ofSteps steps)
    (measures : MeasuresField steps field source side) (built : w.build q = .ok counted)
    (answers : counted.capabilities.has .count = true) {ctx : Context}
    (some : 0 < counted.totalIn ctx) :
    (w.vocabulary.lengthBounds source q field (w.collection.fieldStatistics field)).shortest ≤
      side.lengthIn ctx := by
  rcases w.vocabulary.shortest_cases source q field (w.collection.fieldStatistics field) with
    none | ⟨terms, unclipped, shortest⟩
  · rw [none]
    exact Nat.zero_le _
  · obtain ⟨tokens, listed⟩ := Option.isSome_iff_exists.1
      (givenTokens_of_totalIn collected built answers terms some)
    rw [measures.clipped, decide_eq_false_iff_not, Nat.not_lt, Nat.le_zero] at unclipped
    rw [shortest, measures.length, unclipped, collected, tokensOf, listed]
    exact Collection.minLength_le listed

theorem paired_of_parts (collected : w.collection = .ofSteps steps)
    (measures : MeasuresField steps field source side) (built : w.build q = .ok counted)
    (answers : counted.capabilities.has .count = true)
    (known : w.statistics q counted = .ok term) :
    Paired term (w.collection.fieldStatistics field)
      (w.vocabulary.lengthBounds source q field (w.collection.fieldStatistics field)) side
      counted := by
  obtain ⟨counts, tallies, below, whole⟩ := tallies_of_statistics collected built known
  constructor
  case matched =>
    refine ⟨tallies.maxCount_eq_zero, ?_⟩
    rcases w.vocabulary.shortest_cases source q field (w.collection.fieldStatistics field) with
      none | ⟨terms, _, shortest⟩
    · rw [none]
      exact Nat.zero_le _
    · rw [shortest, collected]
      exact tallies.share fun d some =>
        givenTokens_of_totalIn collected built answers terms (some.trans_le (below d))
  case longest =>
    intro ctx
    rw [measures.length, collected]
    exact (iterate_clipped_le _ _ _).trans (Collection.le_maxLength steps field _)
  case fits =>
    intro ctx count notDone fits fewer once
    constructor
    case most =>
      calc count
          ≤ counted.totalIn (.whole ctx.document) := fewer.trans (counted.totalIn_le_whole ctx)
        _ = counts ctx.document := (whole ctx.document fits).symm
        _ ≤ term.maxCount := tallies.le_maxCount notDone
    case listed =>
      intro some
      exact shortest_le_length collected measures built answers (Nat.lt_of_lt_of_le some fewer)
    case room =>
      intro within
      exact fewer.trans (totalIn_le_length collected measures built within ctx (once within))

end Assumed

/-- A scorer that is built is put together from lengths of a field and from counts. -/
theorem exists_parts (collected : w.collection = .ofSteps steps) {q : Query} {plan : Plan α}
    (built : w.build q = .ok plan) (scores : plan.isScorer = true) :
    ∃ (form : Form) (parameters : Parameters) (q' : Query) (side counted : Plan α)
      (term : TermStatistics) (field : String) (source : Vocabulary.LengthSource),
      plan = w.scorerOf form parameters q' side counted term field source ∧
        MeasuresField steps field source side ∧ w.build q' = .ok counted ∧
        counted.capabilities.has .count = true ∧ w.statistics q' counted = .ok term := by
  cases q with
  | node operator parameters children =>
    obtain ⟨m, plans, _, builtAll, assembled⟩ := assembled_of_build built
    cases assembled with
    | scorerOfCounts _ answers known =>
      cases builtAll with
      | cons first _ =>
        refine ⟨_, _, _, _, _, _, _, _, rfl, ?_, first, answers, known⟩
        rw [collected]
        exact measuresField_lengths steps _ true
    | scorer _ measures answers known =>
      cases builtAll with
      | cons side rest =>
        cases rest with
        | cons first _ =>
          have measured := measuresField_of_build collected side measures
          exact ⟨_, _, _, _, _, _, _, _, rfl, measured, first, answers, known⟩
    | _ => cases scores

/-- The parts of a scorer that is built are as its bounds assume. -/
theorem exists_paired (collected : w.collection = .ofSteps steps) {q : Query} {plan : Plan α}
    (built : w.build q = .ok plan) (scores : plan.isScorer = true) :
    ∃ (form : Form) (parameters : Parameters) (side counted : Plan α) (term : TermStatistics)
      (field : FieldStatistics) (bounds : LengthBounds),
      plan = w.scorer form parameters side counted term field bounds ∧
        Paired term field bounds side counted := by
  obtain ⟨_, _, _, _, _, _, _, _, same, measures, built', answers, known⟩ :=
    exists_parts collected built scores
  exact ⟨_, _, _, _, _, _, _, same, paired_of_parts collected measures built' answers known⟩

theorem paired_of_build (collected : w.collection = .ofSteps steps) {q : Query}
    {side counted : Plan α} {model : Dirichlet α}
    (built : w.build q = .ok (.dirichlet side counted model)) :
    Paired model.term model.field model.lengths side counted := by
  obtain ⟨_, _, _, _, _, _, _, same, paired⟩ := exists_paired collected built rfl
  obtain ⟨rfl, rfl, rfl, rfl, rfl⟩ := of_scorer same.symm
  exact paired

theorem paired_of_build_bm25 (collected : w.collection = .ofSteps steps) {q : Query}
    {side counted : Plan α} {model : Bm25 α}
    (built : w.build q = .ok (.bm25 side counted model)) :
    Paired model.term model.field model.lengths side counted := by
  obtain ⟨_, _, _, _, _, _, _, same, paired⟩ := exists_paired collected built rfl
  obtain ⟨rfl, rfl, rfl, rfl, rfl⟩ := of_scorer_bm25 same.symm
  exact paired

end Workshop

end RankedRetrieval
