import RankedRetrieval.Proofs.Collection.Contents

set_option autoImplicit false

/-!
# A collection reflects its text

The lists and the statistics of a field are determined by what each document was given in that
field, one call after the other (`reflects_ofSteps`). In which order calls for different documents
come, and what other fields are given, makes no difference.
-/

namespace RankedRetrieval

def callsOn (steps : List DraftStep) (field : String) (d : DocId) : List (List String) :=
  steps.filterMap (DraftStep.tokens? field d)

def places (term : String) (tokens : List String) : List Nat :=
  (List.range tokens.length).filter fun i => tokens[i]? = some term

theorem places_cons (term token : String) (tokens : List String) :
    places term (token :: tokens) =
      (if token = term then [0] else []) ++ (places term tokens).map (· + 1) := by
  rw [places, List.length_cons, List.range_succ_eq_map, List.filter_cons, List.filter_map]
  by_cases same : token = term
  · simp [places, same, Function.comp_def]
  · simp [places, same, Function.comp_def]

theorem occurrences_eq_places (term : String) (position : Nat) (tokens : List String) :
    occurrences term position tokens =
      (places term tokens).map fun i => .token (position + i) := by
  induction tokens generalizing position with
  | nil => rfl
  | cons token tokens ih =>
    have later : (fun i => Span.token (position + i)) ∘ (· + 1) =
        fun i => Span.token (position + 1 + i) := by
      funext i
      exact congrArg Span.token (Nat.add_right_comm position i 1)
    rw [occurrences, ih, places_cons, List.map_append, List.map_map, later]
    split <;> rfl

theorem length_occurrences (term : String) (position : Nat) (tokens : List String) :
    (occurrences term position tokens).length = tokens.count term := by
  induction tokens generalizing position with
  | nil => rfl
  | cons token tokens ih =>
    rw [occurrences, List.count_cons]
    by_cases same : token = term
    · rw [if_pos same, List.length_cons, ih, if_pos (beq_iff_eq.2 same)]
    · rw [if_neg same, ih, if_neg (fun is => same (beq_iff_eq.1 is)), Nat.add_zero]

namespace Collection

variable {steps : List DraftStep} {field term : String}

def holding (text : DocId → List String) (term : String) (documents : List DocId) : List DocId :=
  documents.filter fun d => term ∈ text d

/-- The lists and the statistics of a field are those of some documents with their tokens. -/
structure Reflects (c : Collection) (field : String) (documents : List DocId)
    (text : DocId → List String) : Prop where
  lengths : (c.lengths field).toList = documents.map fun d => (d, (text d).length)
  fieldStatistics : c.fieldStatistics field =
    { documentCount := documents.length
      collectionLength := (documents.map fun d => (text d).length).sum
      minLength := (documents.map fun d => (text d).length).min?.getD 0
      maxLength := (documents.map fun d => (text d).length).max?.getD 0 }
  postings : ∀ term, (c.postings field term).toList =
    (holding text term documents).map fun d =>
      { document := d, spans := (places term (text d)).map .token }
  termStatistics : ∀ term, c.termStatistics field term =
    { documentFrequency := (holding text term documents).length
      collectionFrequency := ((holding text term documents).map fun d => (text d).count term).sum
      maxCount := ((holding text term documents).map fun d => (text d).count term).max?.getD 0 }

theorem tokensOf_eq (steps : List DraftStep) (field : String) (d : DocId) :
    tokensOf steps field d = (callsOn steps field d).flatten :=
  getD_joined _

theorem isSome_givenTokens_iff {d : DocId} :
    (givenTokens steps field d).isSome = true ↔ callsOn steps field d ≠ [] := by
  rw [givenTokens, callsOn]
  cases steps.filterMap (DraftStep.tokens? field d) with
  | nil => exact iff_of_false Bool.false_ne_true fun other => other rfl
  | cons first rest => exact iff_of_true rfl (List.cons_ne_nil _ _)

def listed (steps : List DraftStep) (field : String) : List DocId :=
  ((ofSteps steps).lengths field).toList.map Prod.fst

theorem listed_pairwise (steps : List DraftStep) (field : String) :
    (listed steps field).Pairwise (· < ·) :=
  List.pairwise_map.2 ((ordered_ofSteps steps).lengths field)

theorem length_of_mem {entry : DocId × Nat}
    (member : entry ∈ ((ofSteps steps).lengths field).toList) :
    (givenTokens steps field entry.1).map List.length = some entry.2 := by
  have found := ((ordered_ofSteps steps).lengths field).find?_of_mem member
  rw [find?_lengths] at found
  obtain ⟨tokens, given, same⟩ := Option.map_eq_some_iff.1 found
  rw [given]
  exact congrArg (fun e : DocId × Nat => some e.2) same

theorem mem_listed_iff {d : DocId} : d ∈ listed steps field ↔ callsOn steps field d ≠ [] := by
  rw [← isSome_givenTokens_iff, listed, List.mem_map]
  constructor
  · rintro ⟨entry, member, rfl⟩
    rw [← Option.isSome_map, length_of_mem member]
    rfl
  · intro given
    obtain ⟨tokens, given⟩ := Option.isSome_iff_exists.1 given
    have found := find?_lengths steps field d
    rw [given] at found
    exact ⟨_, Array.mem_toList_iff.2 (Array.mem_of_find?_eq_some found), rfl⟩

theorem lengths_eq (steps : List DraftStep) (field : String) :
    ((ofSteps steps).lengths field).toList =
      (listed steps field).map fun d => (d, (callsOn steps field d).flatten.length) := by
  rw [listed, List.map_map]
  conv_lhs => rw [← List.map_id ((ofSteps steps).lengths field).toList]
  refine List.map_congr_left fun entry member => ?_
  obtain ⟨tokens, given, same⟩ := Option.map_eq_some_iff.1 (length_of_mem member)
  rw [Function.comp_apply, ← tokensOf_eq, tokensOf, given, Option.getD_some, same, id]

theorem posting_of_mem {posting : Posting}
    (member : posting ∈ ((ofSteps steps).postings field term).toList) :
    term ∈ (callsOn steps field posting.document).flatten ∧
      posting = { document := posting.document
                  spans := (places term (callsOn steps field posting.document).flatten).map
                    .token } := by
  have found := ((ordered_ofSteps steps).postings field term).find?_of_mem member
  rw [find?_postings, tokensOf_eq, someSpans] at found
  split at found
  · cases found
  · rename_i some
    refine ⟨?_, ?_⟩
    · rw [← List.count_pos_iff, ← length_occurrences term 0]
      exact List.length_pos_iff.2 some
    · rw [occurrences_eq_places] at found
      simpa using (Option.some.inj found).symm

theorem exists_posting {d : DocId} (holds : term ∈ (callsOn steps field d).flatten) :
    ∃ posting ∈ ((ofSteps steps).postings field term).toList, posting.document = d := by
  have some : occurrences term 0 (callsOn steps field d).flatten ≠ [] := by
    rw [← List.length_pos_iff, length_occurrences]
    exact List.count_pos_iff.2 holds
  have found := find?_postings steps field term d
  rw [tokensOf_eq, someSpans, if_neg some] at found
  exact ⟨_, Array.mem_toList_iff.2 (Array.mem_of_find?_eq_some found), rfl⟩

theorem postings_eq (steps : List DraftStep) (field term : String) :
    ((ofSteps steps).postings field term).toList =
      (holding (fun d => (callsOn steps field d).flatten) term (listed steps field)).map fun d =>
        { document := d, spans := (places term (callsOn steps field d).flatten).map .token } := by
  have documents : ((ofSteps steps).postings field term).toList.map Posting.document =
      holding (fun d => (callsOn steps field d).flatten) term (listed steps field) := by
    refine List.Pairwise.eq_of_mem_iff
      (List.pairwise_map.2 ((ordered_ofSteps steps).postings field term))
      ((listed_pairwise steps field).filter _) fun d => ?_
    rw [holding, List.mem_filter, List.mem_map, mem_listed_iff, decide_eq_true_iff]
    constructor
    · rintro ⟨posting, member, rfl⟩
      have holds := (posting_of_mem member).1
      refine ⟨fun none => ?_, holds⟩
      rw [none] at holds
      exact List.not_mem_nil holds
    · exact fun ⟨_, holds⟩ => exists_posting holds
  rw [← documents, List.map_map]
  conv_lhs => rw [← List.map_id ((ofSteps steps).postings field term).toList]
  exact List.map_congr_left fun posting member => (posting_of_mem member).2

theorem fieldStatistics_eq (steps : List DraftStep) (field : String) :
    (ofSteps steps).fieldStatistics field =
      .ofLengths ((listed steps field).map fun d => (callsOn steps field d).flatten.length) := by
  rw [fieldStatistics, lengths_eq, List.map_map]
  rfl

theorem counts_postings (steps : List DraftStep) (field term : String) :
    ((ofSteps steps).postings field term).toList.map (fun p => p.spans.length) =
      (holding (fun d => (callsOn steps field d).flatten) term (listed steps field)).map
        fun d => (callsOn steps field d).flatten.count term := by
  rw [postings_eq, List.map_map]
  refine List.map_congr_left fun d _ => ?_
  rw [← length_occurrences term 0, occurrences_eq_places, List.length_map]
  exact List.length_map _

def AgreeOn (c c' : Collection) (field : String) (d : DocId) : Prop :=
  ((c.lengths field).find? fun entry => entry.1 = d) =
      ((c'.lengths field).find? fun entry => entry.1 = d) ∧
    ∀ term, ((c.postings field term).find? fun posting => posting.document = d) =
      ((c'.postings field term).find? fun posting => posting.document = d)

def Agree (c c' : Collection) (field : String) : Prop :=
  c.lengths field = c'.lengths field ∧ c.fieldStatistics field = c'.fieldStatistics field ∧
    ∀ term, c.postings field term = c'.postings field term ∧
      c.termStatistics field term = c'.termStatistics field term

theorem agreeOn_of_calls {steps' : List DraftStep} {d : DocId}
    (same : callsOn steps' field d = callsOn steps field d) :
    AgreeOn (ofSteps steps') (ofSteps steps) field d := by
  have given : givenTokens steps' field d = givenTokens steps field d := congrArg joined same
  refine ⟨?_, fun term => ?_⟩
  · rw [find?_lengths, find?_lengths, given]
  · rw [find?_postings, find?_postings, tokensOf_eq, tokensOf_eq, same]

theorem agree_of_calls {steps' : List DraftStep}
    (same : ∀ d, callsOn steps' field d = callsOn steps field d) :
    Agree (ofSteps steps') (ofSteps steps) field := by
  have documents : listed steps' field = listed steps field := by
    refine List.Pairwise.eq_of_mem_iff (listed_pairwise steps' field)
      (listed_pairwise steps field) fun d => ?_
    rw [mem_listed_iff, mem_listed_iff, same]
  have lengths : (ofSteps steps').lengths field = (ofSteps steps).lengths field := by
    refine Array.toList_inj.1 ?_
    simp only [lengths_eq, documents, same]
  have postings (term : String) :
      (ofSteps steps').postings field term = (ofSteps steps).postings field term := by
    refine Array.toList_inj.1 ?_
    simp only [postings_eq, documents, same]
  refine ⟨lengths, ?_, fun term => ⟨postings term, ?_⟩⟩
  · rw [fieldStatistics, lengths, fieldStatistics]
  · rw [termStatistics, postings, termStatistics]

/-- A field lists the documents that were given to it in ascending order, each once, with the
number of the tokens that all calls gave it; a term, the documents among whose tokens it is, with
its places there; and the statistics are those of these lists. What is given to other documents in
between makes no difference to a document, nor does the order of calls for different documents. -/
theorem reflects_ofSteps (steps : List DraftStep) (field : String) :
    ∃ documents : List DocId, documents.Pairwise (· < ·) ∧
      (∀ d, d ∈ documents ↔ callsOn steps field d ≠ []) ∧
      (ofSteps steps).Reflects field documents (fun d => (callsOn steps field d).flatten) ∧
      (∀ steps' d, callsOn steps' field d = callsOn steps field d →
        AgreeOn (ofSteps steps') (ofSteps steps) field d) ∧
      ∀ steps', (∀ d, callsOn steps' field d = callsOn steps field d) →
        Agree (ofSteps steps') (ofSteps steps) field := by
  refine ⟨listed steps field, listed_pairwise steps field, fun d => mem_listed_iff, ?_,
    fun steps' d same => agreeOn_of_calls same, fun steps' same => agree_of_calls same⟩
  constructor
  case lengths => exact lengths_eq steps field
  case postings => exact postings_eq steps field
  case fieldStatistics =>
    rw [fieldStatistics_eq, FieldStatistics.ofLengths, List.length_map, ← List.sum_eq_foldl]
  case termStatistics =>
    intro term
    unfold termStatistics
    dsimp only
    rw [counts_postings, List.length_map, ← List.sum_eq_foldl]

section Example

/-- Two documents whose texts come in turns, with another field in between. -/
def inTurns : List DraftStep :=
  [.document "a", .text 1 "document" "Fish", .tokens 0 "document" ["red", "fish"],
    .tokens 0 "title" ["fish"], .document "b", .text 0 "document" "blue FISH",
    .tokens 1 "document" []]

def oneByOne : List DraftStep :=
  [.tokens 0 "document" ["red", "fish"], .text 0 "document" "blue FISH",
    .text 1 "document" "Fish", .tokens 1 "document" []]

theorem reflects_inTurns : (∀ d, callsOn oneByOne "document" d = callsOn inTurns "document" d) ∧
    Agree (ofSteps oneByOne) (ofSteps inTurns) "document" ∧
    callsOn inTurns "document" 0 = [["red", "fish"], ["blue", "fish"]] ∧
    places "fish" (callsOn inTurns "document" 0).flatten = [1, 3] ∧
    ∃ documents : List DocId, documents = [0, 1] ∧
      (ofSteps inTurns).Reflects "document" documents
        fun d => (callsOn inTurns "document" d).flatten := by
  have same : ∀ d, callsOn oneByOne "document" d = callsOn inTurns "document" d := by
    intro d
    simp only [callsOn, oneByOne, inTurns, List.filterMap_cons, List.filterMap_nil,
      DraftStep.tokens?]
    by_cases first : (0 : DocId) = d
    · subst first
      rfl
    · by_cases second : (1 : DocId) = d <;> simp [first, second]
  have calls : callsOn inTurns "document" 0 = [["red", "fish"], ["blue", "fish"]] := by
    decide +kernel
  obtain ⟨documents, ascending, given, reflects, _, agree⟩ := reflects_ofSteps inTurns "document"
  refine ⟨same, agree oneByOne same, calls, ?_, documents, ?_, reflects⟩
  · rw [calls]
    decide
  · refine List.Pairwise.eq_of_mem_iff ascending (by decide) fun d => ?_
    rw [given]
    simp only [callsOn, inTurns, List.filterMap_cons, List.filterMap_nil, DraftStep.tokens?]
    by_cases first : d = 0
    · subst first
      simp
    · by_cases second : d = 1 <;> simp [first, second, Ne.symm]

end Example

end Collection

end RankedRetrieval
