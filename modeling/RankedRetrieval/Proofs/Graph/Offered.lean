import RankedRetrieval.Proofs.Preparation.Executable
import RankedRetrieval.Graph.Basic

set_option autoImplicit false

/-!
# What the cursor of a node offers

The vocabulary says what can be asked of a node without building anything. If something can be built
for the node, its cursor takes those questions and no others (`resolve_of_build`).
-/

namespace RankedRetrieval

/-- The questions that a cursor takes are those that its plan offers. -/
theorem Cursor.exists_ask_iff {α : Type} (c : Cursor α) (question : Capability)
    (operator : String) :
    (∃ asked, c.ask question operator = .ok asked) ↔ c.capabilities.has question = true := by
  unfold ask Plan.answering
  cases offered : c.plan.capabilities.has question with
  | true => exact iff_of_true ⟨_, rfl⟩ offered
  | false =>
    refine iff_of_false ?_ (Bool.eq_false_iff.1 offered)
    rintro ⟨asked, h⟩
    cases h

namespace Workshop

open Vocabulary

variable {α : Type} [Arithmetic α] {w : Workshop}

theorem exists_meaning_of_build {q : Query} {plan : Plan α} (built : w.build q = .ok plan) :
    ∃ m, w.vocabulary.resolve q = .ok m := by
  obtain ⟨operator, parameters, children⟩ := q
  obtain ⟨m, _, resolved, _, _⟩ := assembled_of_build built
  exact ⟨m, resolved⟩

/-- A node for which a cursor is built means what its cursor offers. -/
theorem resolve_of_build (means : w.vocabulary = builtIn) (g : QueryGraph) (id : NodeId)
    {plan : Plan α} (built : w.build (g.queryAt id) = .ok plan) :
    ∃ m, g.resolve w.vocabulary id = .ok m ∧
      (Cursor.ofPlan plan).capabilities = m.capabilities ∧
      ∀ question operator,
        (∃ asked, (Cursor.ofPlan plan).ask question operator = .ok asked) ↔
          m.has question = true := by
  obtain ⟨m, resolved⟩ := exists_meaning_of_build built
  have offered : plan.capabilities = m.capabilities := by
    rw [← asked_of_build means built, asked, ← means, meaning_of_resolve resolved]
  refine ⟨m, (g.resolve_eq w.vocabulary id).trans resolved, offered, fun question operator => ?_⟩
  rw [Cursor.exists_ask_iff, Meaning.has, ← offered]
  rfl

section Example

def mixedSynonyms : Query :=
  let a := Parameters.single "term" (.string "a")
  let b := Parameters.single "term" (.string "b")
  .node "syn" .empty
    [.node "text" a [],
      .node "synonym" .empty
        [.node "counts" b [], .node "ordered" .empty [.node "extents" a [], .node "extents" b []]]]

def emptyWorkshop : Workshop :=
  { collection := .ofSteps [], vocabulary := .builtIn, levels := [] }

theorem resolve_mixedSynonyms : ∃ (plan : Plan Float) (m : Meaning),
    emptyWorkshop.build ((QueryGraph.ofQuery mixedSynonyms).queryAt 2) = .ok plan ∧
      (QueryGraph.ofQuery mixedSynonyms).resolve builtIn 2 = .ok m ∧
      (Cursor.ofPlan plan).capabilities = m.capabilities ∧
      m.capabilities = .ofList [.indicator, .count] := by
  have computed : (emptyWorkshop.build (α := Float)
      ((QueryGraph.ofQuery mixedSynonyms).queryAt 2)).toOption.any
        (fun plan => decide (plan.capabilities = .ofList [.indicator, .count])) = true := by
    decide +kernel
  cases built : emptyWorkshop.build (α := Float)
      ((QueryGraph.ofQuery mixedSynonyms).queryAt 2) with
  | error e =>
    rw [built] at computed
    cases computed
  | ok plan =>
    rw [built] at computed
    obtain ⟨m, resolved, same, _⟩ := resolve_of_build rfl _ _ built
    exact ⟨plan, m, rfl, resolved, same, same.symm.trans (of_decide_eq_true computed)⟩

end Example

end Workshop

end RankedRetrieval
