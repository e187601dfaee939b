import RankedRetrieval.Proofs.Collection.Ascending
import RankedRetrieval.Proofs.Plan.Assembled
import RankedRetrieval.Proofs.Plan.Contents

set_option autoImplicit false

namespace RankedRetrieval

open Plan

namespace Workshop

def listOf (w : Workshop) (parameters : Parameters) : Array Posting :=
  w.collection.postings (Query.fieldOf parameters) ((parameters.string? "term").getD "")

def widthOf (parameters : Parameters) (default : Nat) : Nat :=
  (parameters.read Json.asCount "width").getD default

mutual

/-- The occurrences of a query in a document. -/
def spansOf (w : Workshop) : Query → DocId → List Span
  | .node operator parameters children, d =>
    match w.vocabulary.form? operator with
    | some .termExtents =>
      (((w.listOf parameters).find? fun e => e.document = d).map Posting.spans).getD []
    | some .orderedWindow => Window.ordered (widthOf parameters 1) (w.spansOfAll children d)
    | some .unorderedWindow =>
      Window.unordered (widthOf parameters (4 * children.length)) (w.spansOfAll children d)
    | some .synonym => Span.arrange (w.spansOfAll children d).flatten
    | some .passageFilter => (w.spansOfAll children d).flatten
    | _ => []

def spansOfAll (w : Workshop) : List Query → DocId → List (List Span)
  | [], _ => []
  | q :: rest, d => w.spansOf q d :: w.spansOfAll rest d

end

mutual

/-- Whether a document belongs to a query. A leaf has the documents of its list, a window those of
all its children where there is a window, a requirement those that it filters by, a scorer those of
its counts, and a query with one child those of the child. -/
def matched (w : Workshop) : Query → DocId → Bool
  | .node operator parameters children, d =>
    match w.vocabulary.form? operator with
    | some .termExtents | some .termCounts => (w.listOf parameters).any fun e => e.document == d
    | some .fieldLengths => (w.collection.lengths (Query.fieldOf parameters)).any fun e => e.1 == d
    | some .prior =>
      (w.collection.prior ((parameters.string? "name").getD "")).entries.any fun e => e.1 == d
    | some .orderedWindow | some .unorderedWindow =>
      w.matchedByAll children d && !(w.spansOf (.node operator parameters children) d).isEmpty
    | some .synonym | some .booleanOr => w.matchedByAny children d
    | some .booleanAnd => w.matchedByAll children d
    | some .combine =>
      match mode parameters with
      | .any => w.matchedByAny children d
      | .all => w.matchedByAll children d
    | some .require =>
      match children with
      | [filter, _] => w.matched filter d
      | _ => false
    | some .dirichlet | some .bm25 =>
      match children with
      | [counted] => w.matched counted d
      | [_, counted] => w.matched counted d
      | _ => false
    | some .passageFilter | some .passageLength | some .logarithm | some .scale =>
      match children with
      | [child] => w.matched child d
      | _ => false
    | some (.custom _) | none => false

def matchedByAny (w : Workshop) : List Query → DocId → Bool
  | [], _ => false
  | q :: rest, d => w.matched q d || w.matchedByAny rest d

def matchedByAll (w : Workshop) : List Query → DocId → Bool
  | [], _ => true
  | q :: rest, d => w.matched q d && w.matchedByAll rest d

end

section Built

variable {α : Type} [Arithmetic α] {w : Workshop} {operator : String} {parameters : Parameters}
  {children : List Query} {plans : List (Plan α)}

theorem of_requiredText {key text : String} (h : requiredText operator parameters key = .ok text) :
    (parameters.string? key).getD "" = text := by
  unfold requiredText at h
  split at h
  · rename_i given
    cases h
    rw [given, Option.getD_some]
  · cases h

theorem of_width {default width : Nat}
    (h : Workshop.width operator parameters default = .ok width) :
    widthOf parameters default = width := by
  simp only [Workshop.width] at h
  split at h
  · cases h
  · split at h
    · cases h
    · exact Except.ok.inj h

theorem spansOfEach_of_build (built : Plans w children plans) (answer : Answer plans .extent)
    {d : DocId} (each : ∀ q ∈ children, ∀ plan : Plan α, w.build q = .ok plan →
      plan.capabilities.has .extent = true → plan.spansIn (.whole d) = w.spansOf q d) :
    spansOfEach plans (.whole d) = w.spansOfAll children d := by
  induction built with
  | nil => rfl
  | @cons q plan _ _ first _ ih =>
    obtain ⟨here, others⟩ := List.forall_mem_cons.1 each
    obtain ⟨answers, answer⟩ := List.forall_mem_cons.1 answer
    rw [spansOfEach, spansOfAll, here plan first answers, ih answer others]

/-- A plan with occurrences holds those of its query. -/
theorem spansIn_of_build {q : Query} {plan : Plan α} (built : w.build q = .ok plan)
    (answers : plan.capabilities.has .extent = true) (d : DocId) :
    plan.spansIn (.whole d) = w.spansOf q d := by
  induction q generalizing plan with
  | node operator parameters children ih =>
    obtain ⟨m, plans, resolved, builtAll, assembled⟩ := assembled_of_build built
    have form : w.vocabulary.form? operator = some m.form := Vocabulary.form_of_resolve resolved
    have each (answer : Answer plans .extent) :
        spansOfEach plans (.whole d) = w.spansOfAll children d :=
      spansOfEach_of_build builtAll answer fun q member _ built answers => ih q member built answers
    cases assembled with
    | extents same given =>
      simp only [spansIn, spansOf, form, same, listOf, of_requiredText given]
      rfl
    | window order ordered _ answer wide =>
      have width := of_width wide
      rcases eq_of_windowOrder? ordered with ⟨same, rfl⟩ | ⟨same, rfl⟩
      · simp only [spansIn, spansOf, form, same, ← width]
        exact congrArg (windows .ordered _) (each answer)
      · simp only [spansIn, spansOf, form, same, ← width]
        exact congrArg (windows .unordered _) (each answer)
    | synonym same _ _ answer => simp only [spansIn, spansOf, form, same, each answer]
    | passageFilter same occurs =>
      have child := each (List.forall_mem_singleton.2 occurs)
      simp only [spansIn, spansOf, form, same, ← child, spansOfEach, List.flatten_singleton]
      rfl
    | scorerOfCounts | scorer =>
      rw [capabilities, scorerOf, kind_scorer] at answers
      cases answers
    | _ => cases answers

theorem has_scorerOf (form : Form) (counted : Query) (lengths counts : Plan α)
    (term : TermStatistics) (field : String) (source : Vocabulary.LengthSource) :
    (w.scorerOf form parameters counted lengths counts term field source).has = counts.has := by
  unfold scorerOf scorer
  funext d
  split <;> rfl

theorem inAny_of_build (built : Plans w children plans) {d : DocId}
    (each : ∀ q ∈ children, ∀ plan : Plan α, w.build q = .ok plan → plan.has d = w.matched q d) :
    inAny plans d = w.matchedByAny children d := by
  induction built with
  | nil => rfl
  | @cons q plan _ _ first _ ih =>
    obtain ⟨here, others⟩ := List.forall_mem_cons.1 each
    rw [inAny, matchedByAny, here plan first, ih others]

theorem inAll_of_build (built : Plans w children plans) {d : DocId}
    (each : ∀ q ∈ children, ∀ plan : Plan α, w.build q = .ok plan → plan.has d = w.matched q d) :
    inAll plans d = w.matchedByAll children d := by
  induction built with
  | nil => rfl
  | @cons q plan _ _ first _ ih =>
    obtain ⟨here, others⟩ := List.forall_mem_cons.1 each
    rw [inAll, matchedByAll, here plan first, ih others]

/-- The plan of a query has the documents of the query. -/
theorem has_of_build {q : Query} {plan : Plan α} (built : w.build q = .ok plan) (d : DocId) :
    plan.has d = w.matched q d := by
  induction q generalizing plan with
  | node operator parameters children ih =>
    obtain ⟨m, plans, resolved, builtAll, assembled⟩ := assembled_of_build built
    have form : w.vocabulary.form? operator = some m.form := Vocabulary.form_of_resolve resolved
    have any : inAny plans d = w.matchedByAny children d :=
      inAny_of_build builtAll fun q member _ built => ih q member built
    have all (some : children.length ≠ 0) :
        (inAll plans d && !plans.isEmpty) = w.matchedByAll children d := by
      rw [inAll_of_build builtAll fun q member _ built => ih q member built]
      cases builtAll with
      | nil => exact absurd rfl some
      | cons => exact Bool.and_true _
    unfold matched
    rw [form]
    cases assembled with
    | extents same given | counts same given =>
      rw [same, listOf, of_requiredText given]
      rfl
    | lengths same =>
      rw [same]
      rfl
    | prior same given =>
      rw [same, of_requiredText given, priorPlan, has, Axis.listed, Array.any_map]
      rfl
    | window order ordered some answer wide =>
      have windows := spansIn_of_build built rfl d
      rcases eq_of_windowOrder? ordered with ⟨same, rfl⟩ | ⟨same, rfl⟩ <;>
      · rw [same, ← windows, ← all some]
        rfl
    | synonym same | synonymCounts same =>
      rw [same]
      exact any
    | passageFilter same | passageLength same | log same | scale same | require same =>
      cases builtAll with
      | cons first _ =>
        have child := ih _ List.mem_cons_self first
        rw [same]
        exact child
    | scorerOfCounts scores =>
      cases builtAll with
      | cons first _ =>
        rw [has_scorerOf, ih _ List.mem_cons_self first]
        rcases eq_of_isScorer scores with same | same <;> rw [same]
    | scorer scores =>
      cases builtAll with
      | cons _ rest =>
        cases rest with
        | cons first _ =>
          rw [has_scorerOf, ih _ (List.mem_cons_of_mem _ List.mem_cons_self) first]
          rcases eq_of_isScorer scores with same | same <;> rw [same]
    | combine same some =>
      rw [same]
      cases mode parameters with
      | any => exact any
      | all => exact all some
    | boolean mode grouped some =>
      rcases eq_of_booleanMode? grouped with ⟨same, rfl⟩ | ⟨same, rfl⟩
      · rw [same]
        exact all some
      · rw [same]
        exact any

end Built

end Workshop

end RankedRetrieval
