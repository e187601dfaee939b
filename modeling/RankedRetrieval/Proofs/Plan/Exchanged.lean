import RankedRetrieval.Proofs.Collection.Reflected
import RankedRetrieval.Proofs.Graph.Offered
import RankedRetrieval.Proofs.Plan.Surveyed

set_option autoImplicit false

/-!
# Synonyms that are counted

Synonyms that all have occurrences bring these together and drop repetitions. Where one of them can
only be counted, counts are added. Different terms of a field share no position, so a cursor that
counts goes the same way over both and counts the same (`counts_exchanged`).
-/

namespace RankedRetrieval

namespace Query

mutual

def terms : Query → List String
  | node _ parameters children =>
    if children.isEmpty then (parameters.string? "term").toList else termsOfAll children

def termsOfAll : List Query → List String
  | [] => []
  | q :: rest => terms q ++ termsOfAll rest

end

mutual

/-- The query with counts in place of the leaves of some terms. -/
def exchange (counted : String → Bool) : Query → Query
  | node operator parameters children =>
    if children.isEmpty && (parameters.string? "term").any counted then
      node "counts" parameters children
    else node operator parameters (exchangeAll counted children)

def exchangeAll (counted : String → Bool) : List Query → List Query
  | [] => []
  | q :: rest => exchange counted q :: exchangeAll counted rest

end

theorem exchangeAll_eq (counted : String → Bool) (qs : List Query) :
    exchangeAll counted qs = qs.map (exchange counted) := by
  induction qs with
  | nil => rfl
  | cons q rest ih => rw [exchangeAll, ih, List.map_cons]

theorem terms_leaf {operator term : String} {parameters : Parameters}
    (given : parameters.string? "term" = some term) :
    (node operator parameters []).terms = [term] := by
  rw [terms, given]
  rfl

theorem terms_node {operator : String} {parameters : Parameters} {children : List Query}
    (some : children ≠ []) : (node operator parameters children).terms = termsOfAll children := by
  rw [terms, List.isEmpty_eq_false_iff.2 some, if_neg Bool.false_ne_true]

theorem termsOfAll_map {f : Query → Query} {children : List Query}
    (same : ∀ child ∈ children, (f child).terms = child.terms) :
    termsOfAll (children.map f) = termsOfAll children := by
  induction children with
  | nil => rfl
  | cons q rest ih =>
    rw [List.forall_mem_cons] at same
    rw [List.map_cons, termsOfAll, termsOfAll, same.1, ih same.2]

theorem exchange_node {operator : String} {parameters : Parameters} {children : List Query}
    (some : children ≠ []) (counted : String → Bool) :
    (node operator parameters children).exchange counted =
      node operator parameters (children.map (exchange counted)) := by
  rw [exchange, List.isEmpty_eq_false_iff.2 some, Bool.false_and, if_neg Bool.false_ne_true,
    exchangeAll_eq]

end Query

/-- A term of a field, by its occurrences or by its counts, or synonyms that are such queries. -/
inductive Synonymous (field : String) : Query → Prop
  | term {operator term : String} {parameters : Parameters}
      (means : Vocabulary.builtIn.form? operator = some .termExtents ∨
        Vocabulary.builtIn.form? operator = some .termCounts)
      (inField : Query.fieldOf parameters = field)
      (given : parameters.string? "term" = some term) :
      Synonymous field (.node operator parameters [])
  | synonym {operator : String} {parameters : Parameters} {children : List Query}
      (means : Vocabulary.builtIn.form? operator = some .synonym) (some : children ≠ [])
      (below : ∀ child ∈ children, Synonymous field child) :
      Synonymous field (.node operator parameters children)

theorem Synonymous.exchange {field : String} {q : Query} (h : Synonymous field q)
    (counted : String → Bool) :
    Synonymous field (q.exchange counted) ∧ (q.exchange counted).terms = q.terms := by
  induction h with
  | @term operator term parameters means inField given =>
    rw [Query.exchange, Query.exchangeAll, Query.terms_leaf given]
    split
    · exact ⟨.term (.inr rfl) inField given, Query.terms_leaf given⟩
    · exact ⟨.term means inField given, Query.terms_leaf given⟩
  | @synonym operator parameters children means some below ih =>
    have some' : children.map (Query.exchange counted) ≠ [] := by
      rwa [Ne, List.map_eq_nil_iff]
    have same : Query.termsOfAll (children.map (Query.exchange counted)) =
        Query.termsOfAll children := Query.termsOfAll_map fun child member => (ih child member).2
    rw [Query.exchange_node some, Query.terms_node some', Query.terms_node some]
    refine ⟨.synonym means some' ?_, same⟩
    rw [List.forall_mem_map]
    intro child member
    exact (ih child member).1

section Places

variable {tokens : List String}

theorem mem_occurrences_iff {term : String} {s : Span} :
    s ∈ occurrences term 0 tokens ↔ ∃ i, tokens[i]? = some term ∧ s = .token i := by
  rw [occurrences_eq_places, List.mem_map]
  constructor
  · rintro ⟨i, member, rfl⟩
    rw [places, List.mem_filter, decide_eq_true_eq] at member
    exact ⟨i, member.2, congrArg Span.token (Nat.zero_add i)⟩
  · rintro ⟨i, there, rfl⟩
    refine ⟨i, ?_, congrArg Span.token (Nat.zero_add i)⟩
    rw [places, List.mem_filter, List.mem_range, decide_eq_true_eq]
    exact ⟨(List.getElem?_eq_some_iff.1 there).1, there⟩

theorem eq_of_mem_occurrences {term term' : String} {s : Span}
    (member : s ∈ occurrences term 0 tokens) (member' : s ∈ occurrences term' 0 tokens) :
    term = term' := by
  obtain ⟨i, there, rfl⟩ := mem_occurrences_iff.1 member
  obtain ⟨j, there', same⟩ := mem_occurrences_iff.1 member'
  have same : i = j := congrArg Span.start same
  rw [← same, there, Option.some.injEq] at there'
  exact there'

theorem nodup_occurrences (term : String) (tokens : List String) :
    (occurrences term 0 tokens).Nodup := by
  rw [occurrences_eq_places]
  refine (List.nodup_range.filter _).map fun i j same => ?_
  have same : 0 + i = 0 + j := congrArg Span.start same
  omega

/-- The places of some terms among tokens, each of them once. -/
structure PlacesOf (terms tokens : List String) (spans : List Span) : Prop where
  nodup : spans.Nodup
  mem_iff : ∀ s, s ∈ spans ↔ ∃ term ∈ terms, s ∈ occurrences term 0 tokens

namespace PlacesOf

theorem nil : PlacesOf [] tokens [] := ⟨List.nodup_nil, by simp⟩

theorem single (term : String) : PlacesOf [term] tokens (occurrences term 0 tokens) :=
  ⟨nodup_occurrences term tokens, by simp⟩

theorem append {terms terms' : List String} {spans spans' : List Span}
    (h : PlacesOf terms tokens spans) (h' : PlacesOf terms' tokens spans')
    (apart : terms.Disjoint terms') : PlacesOf (terms ++ terms') tokens (spans ++ spans') where
  nodup := by
    refine h.nodup.append h'.nodup fun s member member' => ?_
    obtain ⟨term, listed, here⟩ := (h.mem_iff s).1 member
    obtain ⟨term', listed', here'⟩ := (h'.mem_iff s).1 member'
    exact apart listed (eq_of_mem_occurrences here here' ▸ listed')
  mem_iff s := by
    simp only [List.mem_append, h.mem_iff, h'.mem_iff, or_and_right, exists_or]

theorem arrange {terms : List String} {spans : List Span} (h : PlacesOf terms tokens spans) :
    PlacesOf terms tokens (Span.arrange spans) ∧ (Span.arrange spans).length = spans.length := by
  have same : (Span.arrange spans).Perm spans :=
    (List.perm_ext_iff_of_nodup (Span.nodup_arrange spans) h.nodup).2 fun _ => Span.mem_arrange
  exact ⟨⟨Span.nodup_arrange spans, fun s => Span.mem_arrange.trans (h.mem_iff s)⟩,
    same.length_eq⟩

end PlacesOf

theorem countP_mem_append {terms terms' : List String} (apart : terms.Disjoint terms')
    (tokens : List String) : tokens.countP (· ∈ terms ++ terms') =
      tokens.countP (· ∈ terms) + tokens.countP (· ∈ terms') := by
  induction tokens with
  | nil => rfl
  | cons token tokens ih =>
    rw [List.countP_cons, List.countP_cons, List.countP_cons, ih]
    by_cases here : token ∈ terms
    · have other : token ∉ terms' := fun also => apart here also
      simp only [List.mem_append, here, other, true_or, decide_true, decide_false, if_true,
        Bool.false_eq_true, if_false]
      omega
    · simp only [List.mem_append, here, false_or, decide_false, Bool.false_eq_true, if_false]
      omega

end Places

namespace Plan

open Axis

variable {α : Type} {steps : List DraftStep} {field : String}

def listsAny (steps : List DraftStep) (field : String) (terms : List String) (d : DocId) : Bool :=
  terms.any fun term => listed Posting.document
    (trimmed Posting.document ((Collection.ofSteps steps).postings field term)) d

structure ReadsTerms (steps : List DraftStep) (field : String) (terms : List String)
    (plan : Plan α) : Prop where
  counts : plan.capabilities.has .count = true
  has : plan.trim.has = listsAny steps field terms
  spans : plan.capabilities.has .extent = true → ∀ ctx : Context,
    PlacesOf terms (tokensOf steps field ctx.document) (plan.spansIn ctx)
  total : ∀ ctx : Context,
    plan.totalIn ctx = (tokensOf steps field ctx.document).countP (· ∈ terms)

theorem ReadsTerm.readsTerms {term : String} {plan : Plan α}
    (h : ReadsTerm steps field term false plan) (counts : plan.capabilities.has .count = true)
    (has : plan.trim.has = listsAny steps field [term]) : ReadsTerms steps field [term] plan where
  counts := counts
  has := has
  spans answers ctx := by
    rw [h.spans answers]
    exact .single term
  total ctx := by
    have number := length_occurrences term 0 (tokensOf steps field ctx.document)
    rw [h.total]
    simpa [restrict, List.count, Bool.beq_eq_decide_eq] using number

section Groups

variable {children : List Query} {plans : List (Plan α)}
  (each : List.Forall₂ (fun q => ReadsTerms steps field (Query.terms q)) children plans)

include each

theorem answer_count : Workshop.Answer plans .count := by
  induction each with
  | nil => exact List.forall_mem_nil _
  | cons first _ ih => exact List.forall_mem_cons.2 ⟨first.counts, ih⟩

theorem hasAny_trimAll :
    hasAny Plan.has (trimAll plans) = listsAny steps field (Query.termsOfAll children) := by
  induction each with
  | nil => rfl
  | @cons q plan children plans first _ ih =>
    funext d
    have here := congrFun first.has d
    have others := congrFun ih d
    simp only [hasAny, listsAny] at here others ⊢
    rw [trimAll, List.any_cons, here, others, Query.termsOfAll, List.any_append]

theorem totalOfAll_eq (different : (Query.termsOfAll children).Nodup) (ctx : Context) :
    totalOfAll plans ctx =
      (tokensOf steps field ctx.document).countP (· ∈ Query.termsOfAll children) := by
  induction each with
  | nil => simp [totalOfAll, Query.termsOfAll]
  | @cons q plan children plans first _ ih =>
    rw [Query.termsOfAll, List.nodup_append'] at different
    rw [totalOfAll, first.total, ih different.2.1, Query.termsOfAll,
      countP_mem_append different.2.2]

theorem placesOf_flatten (answer : Workshop.Answer plans .extent)
    (different : (Query.termsOfAll children).Nodup) (ctx : Context) :
    PlacesOf (Query.termsOfAll children) (tokensOf steps field ctx.document)
        (spansOfEach plans ctx).flatten ∧
      (spansOfEach plans ctx).flatten.length = totalOfAll plans ctx := by
  induction each with
  | nil => exact ⟨.nil, rfl⟩
  | @cons q plan children plans first _ ih =>
    obtain ⟨here, others⟩ := List.forall_mem_cons.1 answer
    rw [Query.termsOfAll, List.nodup_append'] at different
    obtain ⟨places, number⟩ := ih others different.2.1
    rw [spansOfEach, List.flatten_cons, List.length_append, number, totalOfAll,
      totalIn_of_extent here]
    exact ⟨(first.spans here ctx).append places different.2.2, rfl⟩

/-- Without repetitions there are as many occurrences as the synonyms have together. -/
theorem readsTerms_synonym (answer : Workshop.Answer plans .extent)
    (different : (Query.termsOfAll children).Nodup) :
    ReadsTerms steps field (Query.termsOfAll children) (.synonym plans) where
  counts := rfl
  has := by
    rw [← hasAny_trimAll each]
    funext d
    rw [trim, Plan.has, inAny_eq]
  spans _ ctx := (placesOf_flatten each answer different ctx).1.arrange.1
  total ctx := by
    obtain ⟨places, number⟩ := placesOf_flatten each answer different ctx
    rw [← totalOfAll_eq each different ctx, ← number, ← places.arrange.2]
    rfl

theorem readsTerms_synonymCounts (different : (Query.termsOfAll children).Nodup) :
    ReadsTerms steps field (Query.termsOfAll children) (.synonymCounts plans) where
  counts := rfl
  has := by
    rw [← hasAny_trimAll each]
    funext d
    rw [trim, Plan.has, inAny_eq]
  spans answers := nomatch answers
  total ctx := by rw [totalIn, totalOfAll_eq each different]

end Groups

end Plan

namespace Workshop

open Plan Vocabulary

variable {α : Type} [Arithmetic α] {w : Workshop} {steps : List DraftStep} {field : String}

theorem meaning_of_form {q : Query} (known : builtIn.Knows q) {form : Form}
    (means : builtIn.form? q.operator = some form) :
    builtIn.resolve q = .ok (builtIn.meaning q) ∧ (builtIn.meaning q).form = form := by
  have resolved := resolve_eq_meaning known
  have here := form_of_resolve resolved
  rw [means, Option.some.injEq] at here
  exact ⟨resolved, here.symm⟩

theorem knows_of_form {operator : String} {form : Form}
    (means : builtIn.form? operator = some form) : builtIn.knows operator = true := by
  rw [form?] at means
  obtain ⟨rule, found, _⟩ := Option.map_eq_some_iff.1 means
  rw [knows, found]
  rfl

theorem meaning_of_leaf {operator : String} (parameters : Parameters) {form : Form}
    (means : builtIn.form? operator = some form) :
    builtIn.resolve (.node operator parameters []) =
        .ok (builtIn.meaning (.node operator parameters [])) ∧
      (builtIn.meaning (.node operator parameters [])).form = form :=
  meaning_of_form (.leaf (knows_of_form means)) means

theorem extent_of_synonym {operator : String} (parameters : Parameters) {children : List Query}
    (means : builtIn.form? operator = some .synonym)
    (known : ∀ child ∈ children, builtIn.Knows child) :
    (builtIn.meaning (.node operator parameters children)).has .extent =
      children.all fun child => (builtIn.asked child).has .extent := by
  rw [form?] at means
  obtain ⟨rule, found, same⟩ := Option.map_eq_some_iff.1 means
  cases rule with
  | fixed capabilities form => exact absurd same (capabilities_of_fixed found).2
  | shared mask form =>
    obtain ⟨rfl, _⟩ := synonym_of_shared found
    rw [meaning_shared found known, Meaning.has, has_share]
    rfl

theorem build_term (collected : w.collection = .ofSteps steps) (means : w.vocabulary = builtIn)
    {operator term : String} {parameters : Parameters}
    (leaf : builtIn.form? operator = some .termExtents ∨
      builtIn.form? operator = some .termCounts)
    (given : parameters.string? "term" = some term) :
    ∃ plan : Plan α, w.build (.node operator parameters []) = .ok plan ∧
      ReadsTerms steps (Query.fieldOf parameters) [term] plan := by
  have required : requiredText operator parameters "term" = .ok term := by
    rw [requiredText, given]
  have has (d : DocId) : Axis.listed Posting.document (Axis.trimmed Posting.document
      ((Collection.ofSteps steps).postings (Query.fieldOf parameters) term)) d =
        listsAny steps (Query.fieldOf parameters) [term] d := by
    rw [listsAny, List.any_cons, List.any_nil, Bool.or_false]
  rcases leaf with form | form
  · obtain ⟨resolved, same⟩ := meaning_of_leaf parameters form
    refine ⟨_, build_of_assembled (means ▸ resolved) .nil (.extents same required), ?_⟩
    rw [collected]
    exact (readsTerm_extents steps _ _).readsTerms rfl (funext has)
  · obtain ⟨resolved, same⟩ := meaning_of_leaf parameters form
    refine ⟨_, build_of_assembled (means ▸ resolved) .nil (.counts same required), ?_⟩
    rw [collected]
    exact (readsTerm_counts steps _ _).readsTerms rfl (funext has)

theorem answer_iff (means : w.vocabulary = builtIn) {children : List Query}
    {plans : List (Plan α)} (built : Plans w children plans) {question : Capability} :
    Answer plans question ↔
      (children.all fun child => (builtIn.asked child).has question) = true := by
  induction built with
  | nil => simp [Answer]
  | cons first _ ih =>
    rw [List.all_cons, asked_of_build means first, Bool.and_eq_true, ← ih, Answer, Answer,
      List.forall_mem_cons]

theorem exists_plans_readsTerms {children : List Query}
    (each : ∀ child ∈ children, child.terms.Nodup →
      ∃ plan : Plan α, w.build child = .ok plan ∧ ReadsTerms steps field child.terms plan)
    (different : (Query.termsOfAll children).Nodup) :
    ∃ plans : List (Plan α), Plans w children plans ∧
      List.Forall₂ (fun q => ReadsTerms steps field (Query.terms q)) children plans := by
  induction children with
  | nil => exact ⟨[], .nil, .nil⟩
  | cons q rest ih =>
    rw [Query.termsOfAll, List.nodup_append'] at different
    rw [List.forall_mem_cons] at each
    obtain ⟨plan, here, reads⟩ := each.1 different.1
    obtain ⟨plans, built, others⟩ := ih each.2 different.2.1
    exact ⟨plan :: plans, .cons here built, .cons reads others⟩

/-- Synonyms of different terms have a plan, which reads the terms. -/
theorem build_synonymous (collected : w.collection = .ofSteps steps)
    (means : w.vocabulary = builtIn) {q : Query} (synonymous : Synonymous field q)
    (different : q.terms.Nodup) :
    ∃ plan : Plan α, w.build q = .ok plan ∧ ReadsTerms steps field q.terms plan := by
  induction synonymous with
  | @term operator term parameters leaf inField given =>
    rw [Query.terms_leaf given, ← inField]
    exact build_term collected means leaf given
  | @synonym operator parameters children form some below ih =>
    rw [Query.terms_node some] at different ⊢
    obtain ⟨plans, built, each⟩ := exists_plans_readsTerms ih different
    have known child (member : child ∈ children) : builtIn.Knows child := by
      obtain ⟨plan, _, here⟩ := exists_plan built child member
      exact knows_of_build means here
    have whole : builtIn.Knows (.node operator parameters children) :=
      .node (knows_of_form form) known
    obtain ⟨resolved, same⟩ := meaning_of_form whole form
    have occurs := extent_of_synonym parameters form known
    have nonempty : children.length ≠ 0 := fun none => some (List.length_eq_zero_iff.1 none)
    by_cases answer : Answer plans .extent
    · rw [(answer_iff means built).1 answer] at occurs
      exact ⟨_, build_of_assembled (means ▸ resolved) built (.synonym same nonempty occurs answer),
        readsTerms_synonym each answer different⟩
    · rw [answer_iff means built, Bool.not_eq_true] at answer
      rw [answer] at occurs
      exact ⟨_, build_of_assembled (means ▸ resolved) built
        (.synonymCounts same nonempty occurs (answer_count each)),
        readsTerms_synonymCounts each different⟩

end Workshop

namespace Plan

variable {α : Type} {plan : Plan α} {t : DocId} {p : Position} {ctx : Context}

/-- Up to its own document a plan counts there and nowhere else. -/
theorem countAt_of_stands (walkable : plan.trim.Walkable) (here : plan.trim.Stands t p)
    (notDone : ctx.document ≠ terminated) (le : ctx.document ≤ p.document) :
    plan.countAt p ctx = if ctx.document = p.document then plan.countIn ctx else 0 := by
  have first := (follows plan.trim walkable).first here
  rw [← countAt_trim plan notDone]
  split
  · rename_i on
    rw [← countIn_trim plan notDone]
    exact plan.trim.countAt_eq walkable here (on ▸ first.le) le notDone
  · rename_i behind
    refine plan.trim.countAt_of_away here notDone ?_
    by_cases passed : ctx.document < t
    · exact .inr passed
    · refine .inl (Bool.eq_false_iff.2 fun has => behind ?_)
      exact UInt32.le_antisymm le (first.least has (UInt32.not_lt.1 passed))

end Plan

namespace Cursor

open Plan Workshop

variable {α : Type}

theorem ask_of_has {c : Cursor α} {question : Capability} {operator : String}
    (answers : c.plan.capabilities.has question = true) :
    c.ask question operator = .ok { c with question } := by
  rw [ask, answering_of_has answers]
  rfl

theorem eq_of_ask {c asked : Cursor α} {question : Capability} {operator : String}
    (h : c.ask question operator = .ok asked) : asked = { c with question } := by
  unfold ask at h
  cases answered : c.plan.answering question operator with
  | error e =>
    rw [answered] at h
    cases h
  | ok plan =>
    rw [answered] at h
    cases h
    rfl

/-- Two cursors stand on one document and count the same there and in all documents before. -/
structure CountAlike (c c' : Cursor α) : Prop where
  document : c.document = c'.document
  count : ∀ ctx : Context, ctx.document ≠ terminated → ctx.document ≤ c.document →
    c.countAt ctx = c'.countAt ctx

structure Abreast (plan plan' : Plan α) (c c' : Cursor α) : Prop where
  left : c.plan = plan
  right : c'.plan = plan'
  stands : ∃ t, plan.trim.Stands t c.position ∧ plan'.trim.Stands t c'.position

section Moves

variable {plan plan' : Plan α} {c c' : Cursor α} (walkable : plan.trim.Walkable)
  (walkable' : plan'.trim.Walkable)

include walkable walkable'

theorem Abreast.document (h : Abreast plan plan' c c') (same : plan.trim.has = plan'.trim.has) :
    c.document = c'.document := by
  obtain ⟨t, here, here'⟩ := h.stands
  have first := (follows plan.trim walkable).first here
  have first' := (follows plan'.trim walkable').first here'
  exact first.unique (same ▸ first')

theorem Abreast.tryMove (h : Abreast plan plan' c c') (same : plan.trim.has = plan'.trim.has)
    (target : DocId) : Abreast plan plan' (c.tryMove target) (c'.tryMove target) := by
  have together := h.document walkable walkable' same
  by_cases back : target < c.document
  · rw [Cursor.tryMove, Cursor.tryMove, moveTo_of_lt back, moveTo_of_lt (together ▸ back)]
    exact h
  · have ahead := UInt32.not_lt.1 back
    obtain ⟨t, here, here'⟩ := h.stands
    have f := follows plan.trim walkable
    have f' := follows plan'.trim walkable'
    have le := UInt32.le_trans (f.first here).le ahead
    have ahead' : c'.document ≤ target := together ▸ ahead
    rw [Cursor.tryMove, Cursor.tryMove, moveTo_of_le ahead, moveTo_of_le ahead', h.left, h.right,
      ← advance_trim plan, ← advance_trim plan']
    exact ⟨rfl, rfl, target, f.move here le ahead, f'.move here' le ahead'⟩

theorem Abreast.moves (h : Abreast plan plan' c c') (same : plan.trim.has = plan'.trim.has)
    (targets : List DocId) :
    Abreast plan plan' (targets.foldl Cursor.tryMove c) (targets.foldl Cursor.tryMove c') := by
  induction targets generalizing c c' with
  | nil => exact h
  | cons target targets ih => exact ih (h.tryMove walkable walkable' same target)

theorem Abreast.countAlike (h : Abreast plan plan' c c') (same : plan.trim.has = plan'.trim.has)
    (counts : ∀ ctx : Context, plan.countIn ctx = plan'.countIn ctx) : CountAlike c c' where
  document := h.document walkable walkable' same
  count ctx notDone le := by
    have together := h.document walkable walkable' same
    obtain ⟨t, here, here'⟩ := h.stands
    have le' : ctx.document ≤ c'.document := together ▸ le
    rw [countAt, countAt, h.left, h.right, countAt_of_stands walkable here notDone le,
      countAt_of_stands walkable' here' notDone le', counts]
    rw [Cursor.document, Cursor.document] at together
    rw [together]

omit walkable' in
theorem Abreast.countAt_eq (h : Abreast plan plan' c c') {ctx : Context}
    (notDone : ctx.document ≠ terminated) (on : ctx.document = c.document) :
    c.countAt ctx = plan.countIn ctx := by
  obtain ⟨t, here, _⟩ := h.stands
  rw [countAt, h.left, countAt_of_stands walkable here notDone (UInt32.le_of_eq on)]
  exact if_pos on

end Moves

/-- Synonyms of different terms of a field, one within the other to any depth, are the same to a
cursor that counts, whichever of the terms are given by their occurrences and whichever by their
counts. However the two cursors are moved they stand on the same document, and both count there
the tokens that are one of the terms, as far as a count has room. -/
theorem counts_exchanged [Arithmetic α] (steps : List DraftStep) (w : Workshop)
    (collected : w.collection = .ofSteps steps) (means : w.vocabulary = .builtIn) (field : String)
    (q : Query) (synonymous : Synonymous field q) (different : q.terms.Nodup)
    (counted : String → Bool) (operator : String) :
    ∃ plan plan' : Plan α, w.build q = .ok plan ∧ w.build (q.exchange counted) = .ok plan' ∧
      ∃ c c' : Cursor α, (ofPlan plan).ask .count operator = .ok c ∧
        (ofPlan plan').ask .count operator = .ok c' ∧
        ∀ targets : List DocId,
          CountAlike (targets.foldl tryMove c) (targets.foldl tryMove c') ∧
            ∀ ctx : Context, ctx.document ≠ terminated →
              ctx.document = (targets.foldl tryMove c).document →
              (targets.foldl tryMove c).countAt ctx =
                wrapped ((tokensOf steps field ctx.document).countP (· ∈ q.terms)) := by
  have ordered : w.collection.Ordered := collected ▸ Collection.ordered_ofSteps steps
  obtain ⟨synonymous', terms⟩ := synonymous.exchange counted
  obtain ⟨plan, built, reads⟩ := build_synonymous (α := α) collected means synonymous different
  obtain ⟨plan', built', reads'⟩ :=
    build_synonymous (α := α) collected means synonymous' (terms ▸ different)
  rw [terms] at reads'
  have walkable := (built_of_build w _ built).walkable_trim ordered
  have walkable' := (built_of_build w _ built').walkable_trim ordered
  have same : plan.trim.has = plan'.trim.has := reads.has.trans reads'.has.symm
  refine ⟨plan, plan', built, built', _, _, ask_of_has reads.counts, ask_of_has reads'.counts,
    fun targets => ?_⟩
  have start : Abreast plan plan' { ofPlan plan with question := .count }
      { ofPlan plan' with question := .count } :=
    ⟨rfl, rfl, 0, stands_start_trim plan walkable, stands_start_trim plan' walkable'⟩
  have abreast := start.moves walkable walkable' same targets
  have counts (ctx : Context) : plan.countIn ctx = plan'.countIn ctx :=
    congrArg wrapped ((reads.total ctx).trans (reads'.total ctx).symm)
  refine ⟨abreast.countAlike walkable walkable' same counts, fun ctx notDone on => ?_⟩
  exact (abreast.countAt_eq walkable notDone on).trans (congrArg wrapped (reads.total ctx))

section Example

def spellings : Query :=
  let leaf (term : String) : Query := .node "extents" (.single "term" (.string term)) []
  .node "syn" .empty [leaf "a", .node "synonym" .empty [leaf "b", .node "syn" .empty [leaf "c"]]]

theorem synonymous_spellings : Synonymous "document" spellings := by
  have leaf (term : String) :
      Synonymous "document" (.node "extents" (.single "term" (.string term)) []) :=
    .term (.inl rfl) rfl rfl
  have inner : Synonymous "document"
      (.node "syn" .empty [.node "extents" (.single "term" (.string "c")) []]) :=
    .synonym rfl (List.cons_ne_nil _ _) (List.forall_mem_singleton.2 (leaf "c"))
  have middle : Synonymous "document" (.node "synonym" .empty
      [.node "extents" (.single "term" (.string "b")) [],
        .node "syn" .empty [.node "extents" (.single "term" (.string "c")) []]]) :=
    .synonym rfl (List.cons_ne_nil _ _)
      (List.forall_mem_cons.2 ⟨leaf "b", List.forall_mem_singleton.2 inner⟩)
  exact .synonym rfl (List.cons_ne_nil _ _)
    (List.forall_mem_cons.2 ⟨leaf "a", List.forall_mem_singleton.2 middle⟩)

/-- With counts of `b`, the two outer synonyms are added up and the inner one is not. Of the five
tokens four are counted, as they are when all synonyms are put together. -/
theorem counts_exchanged_spellings : Synonymous "document" spellings ∧ spellings.terms.Nodup ∧
    ∃ c c' : Cursor Float, c.capabilities.has .extent = true ∧
      c'.capabilities.has .extent = false ∧ CountAlike c c' ∧ c.countAt (.whole 0) = 4 ∧
      c'.countAt (.whole 0) = 4 := by
  have different : spellings.terms.Nodup := by decide +kernel
  have computed : ((workshopOf 0 ["a", "b", "a", "c", "d"]).build (α := Float)
      spellings).toOption.any (fun plan =>
        plan.capabilities.has .extent && decide ((ofPlan plan).document = 0)) = true := by
    decide +kernel
  have computed' : ((workshopOf 0 ["a", "b", "a", "c", "d"]).build (α := Float)
      (spellings.exchange (· == "b"))).toOption.any (fun plan =>
        !plan.capabilities.has .extent) = true := by
    decide +kernel
  obtain ⟨plan, plan', built, built', c, c', asked, asked', alike⟩ :=
    counts_exchanged (α := Float) [.tokens 0 "document" ["a", "b", "a", "c", "d"]]
      (workshopOf 0 ["a", "b", "a", "c", "d"]) rfl rfl "document" spellings synonymous_spellings
      different (· == "b") "dirichlet"
  obtain ⟨same, count⟩ := alike []
  rw [built] at computed
  rw [built'] at computed'
  obtain ⟨occurs, first⟩ : plan.capabilities.has .extent = true ∧ (ofPlan plan).document = 0 := by
    simpa [Except.toOption] using computed
  have counted : plan'.capabilities.has .extent = false := by
    simpa [Except.toOption] using computed'
  have four : (tokensOf [.tokens 0 "document" ["a", "b", "a", "c", "d"]] "document" 0).countP
      (· ∈ spellings.terms) = 4 := by decide +kernel
  obtain rfl := eq_of_ask asked
  obtain rfl := eq_of_ask asked'
  have here := (count (.whole 0) (by decide) first.symm).trans (congrArg wrapped four)
  have there := (same.count (.whole 0) (by decide) UInt32.zero_le).symm.trans here
  exact ⟨synonymous_spellings, different, { ofPlan plan with question := .count },
    { ofPlan plan' with question := .count }, occurs, counted, same, here, there⟩

end Example

end Cursor

end RankedRetrieval
