import RankedRetrieval.Proofs.Collection.Contents
import RankedRetrieval.Proofs.Plan.Trimmed
import RankedRetrieval.Proofs.Span.Unordered

set_option autoImplicit false

/-!
# Passages are local

What a term, or a window of terms, reports within a passage of a document is what it reports of a
document that has nothing but the tokens of the passage (`filter_excerpt`).
-/

namespace RankedRetrieval

section Occurrences

variable {term : String}

theorem occurrences_bounds {position : Nat} {tokens : List String} {s : Span}
    (member : s ∈ occurrences term position tokens) :
    position ≤ s.start ∧ s.stop = s.start + 1 ∧ s.stop ≤ position + tokens.length := by
  induction tokens generalizing position with
  | nil => cases member
  | cons token tokens ih =>
    have later (h : s ∈ occurrences term (position + 1) tokens) :
        position ≤ s.start ∧ s.stop = s.start + 1 ∧ s.stop ≤ position + (tokens.length + 1) := by
      have := ih h
      omega
    rw [occurrences] at member
    split at member
    · rcases List.mem_cons.1 member with rfl | member
      · refine ⟨Nat.le_refl _, rfl, ?_⟩
        simp only [Span.token, List.length_cons]
        omega
      · exact later member
    · exact later member

theorem rising_occurrences (term : String) (position : Nat) (tokens : List String) :
    Rising (occurrences term position tokens) := by
  induction tokens generalizing position with
  | nil => exact ⟨.nil, .nil, List.forall_mem_nil _⟩
  | cons token tokens ih =>
    have later := ih (position + 1)
    rw [occurrences]
    split
    · have after (s : Span) (member : s ∈ occurrences term (position + 1) tokens) :
          position ≤ s.start ∧ position + 1 ≤ s.stop := by
        have := occurrences_bounds member
        omega
      exact ⟨.cons (fun s member => (after s member).1) later.starts,
        .cons (fun s member => (after s member).2) later.stops,
        List.forall_mem_cons.2 ⟨Nat.le_succ _, later.forward⟩⟩
    · exact later

theorem occurrences_shift (term : String) (position offset : Nat) (tokens : List String) :
    occurrences term (position + offset) tokens =
      (occurrences term position tokens).map (Span.shift offset) := by
  induction tokens generalizing position with
  | nil => rfl
  | cons token tokens ih =>
    have next := ih (position + 1)
    rw [Nat.add_right_comm] at next
    rw [occurrences, occurrences, next]
    split
    · rw [List.map_cons, Span.shift, Span.token, Span.token, Nat.add_right_comm]
    · rfl

structure Excerpt (passage : Span) (document tokens : List String) : Prop where
  forward : passage.start ≤ passage.stop
  within : passage.stop ≤ document.length
  same : tokens = (document.drop passage.start).take (passage.stop - passage.start)

theorem occurrences_excerpt {passage : Span} {document tokens : List String}
    (h : Excerpt passage document tokens) :
    (occurrences term 0 document).filter passage.contains =
      (occurrences term 0 tokens).map (Span.shift passage.start) := by
  obtain ⟨forward, within, same⟩ := h
  have length : tokens.length = passage.stop - passage.start := by
    rw [same, List.length_take, List.length_drop]
    omega
  have split : document = document.take passage.start ++
      (tokens ++ document.drop passage.stop) := by
    have rest := List.take_append_drop (passage.stop - passage.start)
      (document.drop passage.start)
    rw [List.drop_drop, Nat.add_sub_cancel' forward, ← same] at rest
    rw [rest, List.take_append_drop]
  have before : (document.take passage.start).length = passage.start := by
    rw [List.length_take]
    omega
  have kept : (occurrences term passage.start tokens).filter passage.contains =
      occurrences term passage.start tokens := by
    refine List.filter_eq_self.2 fun s member => ?_
    have := occurrences_bounds member
    exact Span.contains_iff.2 ⟨this.1, by omega⟩
  have early : (occurrences term 0 (document.take passage.start)).filter passage.contains = [] := by
    refine List.filter_eq_nil_iff.2 fun s member inside => ?_
    have := occurrences_bounds member
    have := (Span.contains_iff.1 inside).1
    omega
  have late : (occurrences term (passage.start + tokens.length) (document.drop passage.stop)).filter
      passage.contains = [] := by
    refine List.filter_eq_nil_iff.2 fun s member inside => ?_
    have := occurrences_bounds member
    have := (Span.contains_iff.1 inside).2
    omega
  have shifted := occurrences_shift term 0 passage.start tokens
  rw [Nat.zero_add] at shifted
  conv_lhs => rw [split]
  rw [occurrences_append, occurrences_append, Nat.zero_add, before, List.filter_append,
    List.filter_append, early, late, kept, List.nil_append, List.append_nil, shifted]

end Occurrences

namespace Plan

variable {lists : List (List Span)}

theorem windows_within (order : WindowOrder) (width : Nat) (p : Span)
    (rising : ∀ list ∈ lists, Rising list) :
    (windows order width lists).filter p.contains =
      windows order width (lists.map (List.filter p.contains)) := by
  cases order with
  | ordered => exact Window.ordered_within rising
  | unordered => exact Window.unordered_within rising

theorem windows_shift (order : WindowOrder) (width offset : Nat)
    (rising : ∀ list ∈ lists, Rising list) :
    windows order width (lists.map (List.map (Span.shift offset))) =
      (windows order width lists).map (Span.shift offset) := by
  cases order with
  | ordered => exact Window.ordered_shift rising
  | unordered => exact Window.unordered_shift

end Plan

/-- What is looked for in one field: a term, or a window of terms. -/
inductive Pattern where
  | one (term : String)
  | window (order : WindowOrder) (width : Nat) (terms : List String)

namespace Pattern

variable {α : Type}

def plan (field : String) (c : Collection) : Pattern → Plan α
  | .one term => .extents (c.postings field term)
  | .window order width terms =>
    .window order width (terms.map fun term => .extents (c.postings field term))

def found (tokens : List String) : Pattern → List Span
  | .one term => occurrences term 0 tokens
  | .window order width terms =>
    Plan.windows order width (terms.map fun term => occurrences term 0 tokens)

theorem spansIn_extents (steps : List DraftStep) (field term : String) (ctx : Context) :
    (Plan.extents (α := α) ((Collection.ofSteps steps).postings field term)).spansIn ctx =
      occurrences term 0 (tokensOf steps field ctx.document) := by
  rw [Plan.spansIn, Collection.find?_postings, Option.map_map]
  have all := getD_someSpans (occurrences term 0 (tokensOf steps field ctx.document))
  cases listed : someSpans (occurrences term 0 (tokensOf steps field ctx.document)) with
  | none => rwa [listed] at all
  | some spans => rwa [listed] at all

theorem lengthIn_lengths (steps : List DraftStep) (field : String) (ctx : Context) :
    (Plan.lengths (α := α) ((Collection.ofSteps steps).lengths field)).lengthIn ctx =
      (tokensOf steps field ctx.document).length := by
  rw [Plan.lengthIn, Collection.find?_lengths, tokensOf]
  cases givenTokens steps field ctx.document <;> rfl

theorem spansIn_plan (p : Pattern) (steps : List DraftStep) (field : String) (ctx : Context) :
    (p.plan (α := α) field (.ofSteps steps)).spansIn ctx =
      p.found (tokensOf steps field ctx.document) := by
  cases p with
  | one term => exact spansIn_extents steps field term ctx
  | window order width terms =>
    rw [plan, Plan.spansIn, Plan.spansOfEach_eq, List.map_map, found]
    congr 1
    exact List.map_congr_left fun term _ => spansIn_extents (α := α) steps field term _

theorem found_excerpt (p : Pattern) {passage : Span} {document tokens : List String}
    (h : Excerpt passage document tokens) :
    (p.found document).filter passage.contains =
      (p.found tokens).map (Span.shift passage.start) := by
  cases p with
  | one term => exact occurrences_excerpt h
  | window order width terms =>
    have rising (tokens : List String) :
        ∀ list ∈ terms.map fun term => occurrences term 0 tokens, Rising list := by
      rw [List.forall_mem_map]
      exact fun term _ => rising_occurrences term 0 tokens
    have each : (terms.map fun term => occurrences term 0 document).map
        (List.filter passage.contains) =
          (terms.map fun term => occurrences term 0 tokens).map
            (List.map (Span.shift passage.start)) := by
      rw [List.map_map, List.map_map]
      exact List.map_congr_left fun term _ => occurrences_excerpt h
    rw [found, found, Plan.windows_within order width passage (rising document), each,
      Plan.windows_shift order width passage.start (rising tokens)]

end Pattern

def IsTerm (field : String) (q : Query) : Prop :=
  ∃ operator parameters, q = .node operator parameters [] ∧
    Vocabulary.builtIn.form? operator = some .termExtents ∧ Query.fieldOf parameters = field

/-- A term of a field, or a window of such terms. -/
inductive Positional (field : String) : Query → Prop
  | term {q : Query} (h : IsTerm field q) : Positional field q
  | window {operator : String} {parameters : Parameters} {children : List Query} {form : Form}
      {order : WindowOrder} (means : Vocabulary.builtIn.form? operator = some form)
      (ordered : Workshop.windowOrder? form = some order) (terms : ∀ q ∈ children, IsTerm field q) :
      Positional field (.node operator parameters children)

namespace Workshop

open Plan

variable {α : Type} [Arithmetic α] {w : Workshop} {field : String}

theorem exists_term {q : Query} (means : w.vocabulary = .builtIn) (h : IsTerm field q)
    {plan : Plan α} (built : w.build q = .ok plan) :
    ∃ term, ∀ w' : Workshop, w'.vocabulary = .builtIn →
      w'.build (α := α) q = .ok (.extents (w'.collection.postings field term)) := by
  obtain ⟨operator, parameters, rfl, form, rfl⟩ := h
  obtain ⟨m, plans, resolved, _, assembled⟩ := assembled_of_build built
  have here := Vocabulary.form_of_resolve resolved
  rw [means, Query.operator, form, Option.some.injEq] at here
  obtain ⟨term, given, _, _⟩ := of_termExtents assembled here.symm
  rw [means] at resolved
  exact ⟨term, fun w' means' =>
    build_of_assembled (means' ▸ resolved) .nil (.extents here.symm given)⟩

theorem exists_terms {children : List Query} (means : w.vocabulary = .builtIn)
    (terms : ∀ q ∈ children, IsTerm field q) {plans : List (Plan α)}
    (built : Plans w children plans) :
    ∃ terms : List String, ∀ w' : Workshop, w'.vocabulary = .builtIn →
      Plans (α := α) w' children
        (terms.map fun term => .extents (w'.collection.postings field term)) := by
  induction built with
  | nil => exact ⟨[], fun _ _ => .nil⟩
  | cons first _ ih =>
    obtain ⟨here, others⟩ := List.forall_mem_cons.1 terms
    obtain ⟨term, builds⟩ := exists_term means here first
    obtain ⟨terms, buildsAll⟩ := ih others
    exact ⟨term :: terms, fun w' means' => .cons (builds w' means') (buildsAll w' means')⟩

/-- What is built for a pattern differs from one collection to another in its postings only. -/
theorem exists_pattern {q : Query} (means : w.vocabulary = .builtIn) (h : Positional field q)
    {plan : Plan α} (built : w.build q = .ok plan) :
    ∃ p : Pattern, ∀ w' : Workshop, w'.vocabulary = .builtIn →
      w'.build (α := α) q = .ok (p.plan field w'.collection) := by
  cases h with
  | term h =>
    obtain ⟨term, builds⟩ := exists_term means h built
    exact ⟨.one term, builds⟩
  | @window operator parameters children form order formed ordered terms =>
    obtain ⟨m, plans, resolved, builtAll, assembled⟩ := assembled_of_build built
    have here := Vocabulary.form_of_resolve resolved
    rw [means, Query.operator, formed, Option.some.injEq] at here
    rw [here] at ordered
    obtain ⟨width, some, _, wide, _⟩ := of_windowOrder? assembled ordered
    obtain ⟨terms, buildsAll⟩ := exists_terms means terms builtAll
    rw [means] at resolved
    refine ⟨.window order width terms, fun w' means' => ?_⟩
    refine build_of_assembled (means' ▸ resolved) (buildsAll w' means')
      (.window order ordered some ?_ wide)
    rw [Answer, List.forall_mem_map]
    exact fun _ _ => rfl

theorem build_passageFilter {q : Query} (means : w.vocabulary = .builtIn) {plan : Plan α}
    (built : w.build q = .ok plan) (answers : plan.capabilities.has .extent = true)
    (parameters : Parameters) :
    w.build (.node "passage-filter" parameters [q]) = .ok (.passageFilter plan) := by
  have resolved : w.vocabulary.resolve (.node "passage-filter" parameters [q]) =
      .ok { capabilities := Capability.extent.offers, form := .passageFilter } := by
    rw [means]
    rfl
  exact build_of_assembled resolved (.cons built .nil) (.passageFilter rfl answers)

theorem build_passageLength (means : w.vocabulary = .builtIn) (parameters below : Parameters) :
    w.build (α := α) (.node "passage-length" parameters [.node "lengths" below []]) =
      .ok (.passageLength (.lengths (w.collection.lengths (Query.fieldOf below)))) := by
  have leaf : w.vocabulary.resolve (.node "lengths" below []) =
      .ok { capabilities := Capability.length.offers, form := .fieldLengths } := by
    rw [means]
    rfl
  have resolved : w.vocabulary.resolve
      (.node "passage-length" parameters [.node "lengths" below []]) =
        .ok { capabilities := Capability.length.offers, form := .passageLength } := by
    rw [means]
    rfl
  exact build_of_assembled resolved (.cons (build_of_assembled leaf .nil (.lengths rfl)) .nil)
    (.passageLength rfl rfl)

end Workshop

namespace Cursor

open Plan Workshop

variable {α : Type} [Arithmetic α]

/-- A filter to a passage reports the occurrences that a document has which is nothing but the
passage, each at its place in the passage, and the length of the passage is that of the document. -/
theorem filter_excerpt (steps steps' : List DraftStep) (w w' : Workshop)
    (collected : w.collection = .ofSteps steps) (collected' : w'.collection = .ofSteps steps')
    (means : w.vocabulary = .builtIn) (means' : w'.vocabulary = .builtIn) (field : String)
    (q : Query) (positional : Positional field q) (plan : Plan α) (built : w.build q = .ok plan) :
    ∃ plan' measured : Plan α, w'.build q = .ok plan' ∧
      (∀ parameters, w.build (.node "passage-filter" parameters [q]) = .ok (.passageFilter plan)) ∧
      (∀ parameters below, Query.fieldOf below = field →
        w.build (.node "passage-length" parameters [.node "lengths" below []]) = .ok measured) ∧
      ∀ (d d' : DocId) (passage : Span), d ≠ terminated → d' ≠ terminated →
        Excerpt passage (tokensOf steps field d) (tokensOf steps' field d') →
        ∀ targets targets' : List DocId, (∀ t ∈ targets, t ≤ d) → (∀ t ∈ targets', t ≤ d') →
          ((ofPlan (.passageFilter plan)).along targets d).extentsAt ⟨d, some passage⟩ =
              (((ofPlan plan').along targets' d').extentsAt (.whole d')).map
                (Span.shift passage.start) ∧
            ((ofPlan measured).along targets d).lengthAt ⟨d, some passage⟩ =
              passage.stop - passage.start := by
  have ordered : w.collection.Ordered := collected ▸ Collection.ordered_ofSteps steps
  have ordered' : w'.collection.Ordered := collected' ▸ Collection.ordered_ofSteps steps'
  -- a pattern is the same in both collections, and its plans differ in the lists they read
  obtain ⟨p, builds⟩ := exists_pattern means positional built
  obtain rfl : plan = p.plan field w.collection := by
    have same := builds w means
    rw [built] at same
    exact Except.ok.inj same
  have answers : (p.plan (α := α) field w.collection).capabilities.has .extent = true := by
    cases p <;> rfl
  have filters := build_passageFilter means built answers
  refine ⟨_, .passageLength (.lengths (w.collection.lengths field)), builds w' means', filters, ?_,
    ?_⟩
  · rintro parameters below rfl
    exact build_passageLength means parameters below
  intro d d' passage notDone notDone' excerpt targets targets' within within'
  have alone := built_of_build w' _ (builds w' means')
  have filtered := built_of_build w _ (filters .empty)
  have measured : Built w (α := α) (.passageLength (.lengths (w.collection.lengths field))) :=
    .passageLength _ (.lengths field) rfl
  rw [Context.whole, (reads_along ordered filtered notDone within _).1,
    (reads_along ordered' alone notDone' within' _).1,
    (reads_along ordered measured notDone within _).2, collected, collected', Plan.spansIn,
    Plan.lengthIn, Pattern.spansIn_plan, Pattern.spansIn_plan, Pattern.lengthIn_lengths, restrict,
    clippedLength, Nat.min_eq_right excerpt.within]
  exact ⟨p.found_excerpt excerpt, rfl⟩

section Example

/-- The terms `a` and `b` in this order, with at most one token between them. -/
def nearby : Query :=
  .node "od" (.single "width" (.number (.int 2)))
    [.node "extents" (.single "term" (.string "a")) [],
      .node "text" (.single "term" (.string "b")) []]

def workshopOf (d : DocId) (tokens : List String) : Workshop :=
  { collection := .ofSteps [.tokens d "document" tokens], vocabulary := .builtIn, levels := [] }

/-- In the passage without the first token there is only the second window. -/
theorem filter_excerpt_nearby : ∃ plan plan' : Plan Float,
    (workshopOf 0 ["a", "b", "a", "c", "b"]).build nearby = .ok plan ∧
      (workshopOf 7 ["b", "a", "c", "b"]).build nearby = .ok plan' ∧
      ((ofPlan plan').along [3] 7).extentsAt (.whole 7) = [⟨1, 4⟩] ∧
      ((ofPlan (.passageFilter plan)).along [] 0).extentsAt ⟨0, some ⟨1, 5⟩⟩ = [⟨2, 5⟩] := by
  have builds : ((workshopOf 0 ["a", "b", "a", "c", "b"]).build (α := Float)
      nearby).toOption.isSome = true := by decide +kernel
  have shows : ((workshopOf 7 ["b", "a", "c", "b"]).build (α := Float) nearby).toOption.all
      (fun plan => decide (plan.spansIn (.whole 7) = [⟨1, 4⟩])) = true := by decide +kernel
  have positional : Positional "document" nearby :=
    .window rfl rfl (List.forall_mem_cons.2 ⟨⟨_, _, rfl, rfl, rfl⟩,
      List.forall_mem_singleton.2 ⟨_, _, rfl, rfl, rfl⟩⟩)
  cases built : (workshopOf 0 ["a", "b", "a", "c", "b"]).build (α := Float) nearby with
  | error e =>
    rw [built] at builds
    cases builds
  | ok plan =>
    obtain ⟨plan', measured, built', _, _, excerpt⟩ := filter_excerpt _ _
      (workshopOf 0 ["a", "b", "a", "c", "b"]) (workshopOf 7 ["b", "a", "c", "b"]) rfl rfl rfl rfl
      "document" nearby positional plan built
    have within : ∀ t ∈ [3], t ≤ (7 : DocId) := List.forall_mem_singleton.2 (by decide)
    have reported := (excerpt 0 7 ⟨1, 5⟩ (by decide) (by decide)
      ⟨by decide, by decide, by decide +kernel⟩ [] [3] (List.forall_mem_nil _) within).1
    have ordered := Collection.ordered_ofSteps [.tokens 7 "document" ["b", "a", "c", "b"]]
    have alone := (reads_along (w := workshopOf 7 ["b", "a", "c", "b"]) ordered
      (built_of_build _ _ built') (by decide) within none).1
    rw [built'] at shows
    rw [Context.whole, alone] at reported
    have found : plan'.spansIn ⟨7, none⟩ = [⟨1, 4⟩] := of_decide_eq_true shows
    rw [found] at alone reported
    exact ⟨plan, plan', rfl, built', alone, reported⟩

end Example

end Cursor

end RankedRetrieval
