import RankedRetrieval.Proofs.Plan.Assembled
import RankedRetrieval.Proofs.Plan.Standing

set_option autoImplicit false

namespace RankedRetrieval

namespace Plan

variable {α : Type}

variable [Arithmetic α]

inductive Built (w : Workshop) : Plan α → Prop
  | extents (field term : String) : Built w (.extents (w.collection.postings field term))
  | counts (field term : String) : Built w (.counts (w.collection.postings field term))
  | lengths (field : String) : Built w (.lengths (w.collection.lengths field))
  | prior (name : String) : Built w (w.priorPlan name)
  | window (order : WindowOrder) (width : Nat) (children : List (Plan α)) (nonempty : children ≠ [])
      (built : ∀ child ∈ children, Built w child)
      (answers : ∀ child ∈ children, child.capabilities.has .extent = true) :
      Built w (.window order width children)
  | synonym (children : List (Plan α)) (nonempty : children ≠ [])
      (built : ∀ child ∈ children, Built w child)
      (answers : ∀ child ∈ children, child.capabilities.has .extent = true) :
      Built w (.synonym children)
  | synonymCounts (children : List (Plan α)) (nonempty : children ≠ [])
      (built : ∀ child ∈ children, Built w child)
      (answers : ∀ child ∈ children, child.capabilities.has .count = true) :
      Built w (.synonymCounts children)
  | passageFilter (child : Plan α) (built : Built w child)
      (answers : child.capabilities.has .extent = true) : Built w (.passageFilter child)
  | passageLength (child : Plan α) (built : Built w child)
      (answers : child.capabilities.has .length = true) : Built w (.passageLength child)
  | scorer (form : Form) (parameters : Parameters) (side counted : Plan α)
      (term : TermStatistics) (field : FieldStatistics) (bounds : LengthBounds)
      (builtSide : Built w side) (built : Built w counted)
      (measures : side.capabilities.has .length = true)
      (answers : counted.capabilities.has .count = true) :
      Built w (w.scorer form parameters side counted term field bounds)
  | combine (method : Method) (mode : Mode) (children : List (Plan α)) (weights : List α)
      (nonempty : children ≠ []) (weighted : weights.length = children.length)
      (built : ∀ child ∈ children, Built w child)
      (answers : ∀ child ∈ children, child.capabilities.has .scored = true) :
      Built w (.combine method mode children weights)
  | log (child : Plan α) (built : Built w child) (answers : child.capabilities.has .scored = true) :
      Built w (.log child)
  | scale (weight : α) (child : Plan α) (built : Built w child)
      (answers : child.capabilities.has .scored = true) : Built w (.scale weight child)
  | require (filter scorer : Plan α) (builtFilter : Built w filter) (built : Built w scorer)
      (answers : scorer.capabilities.has .scored = true) : Built w (.require filter scorer)
  | boolean (mode : Mode) (children : List (Plan α)) (nonempty : children ≠ [])
      (built : ∀ child ∈ children, Built w child)
      (answers : ∀ child ∈ children, child.capabilities.has .indicator = true) :
      Built w (.boolean mode children)

end Plan

namespace Workshop

open Plan

variable {α : Type} [Arithmetic α]

theorem length_weights (parameters : Parameters) (count : Nat) :
    (weights (α := α) parameters count).length = count := by
  unfold weights normalize
  dsimp only
  split
  · split <;> simp
  · simp

theorem nonempty_of_plans {w : Workshop} {children : List Query} {plans : List (Plan α)}
    (built : Plans w children plans) (some : children.length ≠ 0) : plans ≠ [] := by
  intro none
  rw [none] at built
  exact some built.length_eq

theorem built_of_plans {w : Workshop} {children : List Query} {plans : List (Plan α)}
    (each : ∀ q ∈ children, ∀ {plan : Plan α}, w.build q = .ok plan → Built w plan)
    (built : Plans w children plans) : ∀ plan ∈ plans, Built w plan := by
  induction built with
  | nil => exact List.forall_mem_nil _
  | cons first _ ih =>
    obtain ⟨here, others⟩ := List.forall_mem_cons.1 each
    exact List.forall_mem_cons.2 ⟨here first, ih others⟩

theorem built_of_assembled {w : Workshop} {m : Meaning} {operator : String}
    {parameters : Parameters} {children : List Query} {plans : List (Plan α)} {plan : Plan α}
    (built : Plans w children plans) (each : ∀ plan ∈ plans, Built w plan)
    (h : Assembled w m operator parameters children plans plan) : Built w plan := by
  cases h with
  | extents => exact .extents _ _
  | counts => exact .counts _ _
  | lengths => exact .lengths _
  | prior => exact .prior _
  | window order _ some answer => exact .window _ _ plans (nonempty_of_plans built some) each answer
  | synonym _ some _ answer => exact .synonym plans (nonempty_of_plans built some) each answer
  | synonymCounts _ some _ answer =>
    exact .synonymCounts plans (nonempty_of_plans built some) each answer
  | passageFilter _ answers => exact .passageFilter _ (List.forall_mem_singleton.1 each) answers
  | passageLength _ answers => exact .passageLength _ (List.forall_mem_singleton.1 each) answers
  | scorerOfCounts _ answers =>
    exact .scorer _ _ _ _ _ _ _ (.lengths _) (List.forall_mem_singleton.1 each) rfl answers
  | scorer _ measures answers =>
    obtain ⟨side, each⟩ := List.forall_mem_cons.1 each
    exact .scorer _ _ _ _ _ _ _ side (List.forall_mem_singleton.1 each) measures answers
  | combine _ some answer =>
    have weighted := (length_weights (α := α) parameters children.length).trans built.length_eq
    exact .combine _ _ plans _ (nonempty_of_plans built some) weighted each answer
  | log _ answers => exact .log _ (List.forall_mem_singleton.1 each) answers
  | scale _ answers => exact .scale _ _ (List.forall_mem_singleton.1 each) answers
  | require _ answers =>
    obtain ⟨filter, each⟩ := List.forall_mem_cons.1 each
    exact .require _ _ filter (List.forall_mem_singleton.1 each) answers
  | boolean mode _ some answer =>
    exact .boolean _ plans (nonempty_of_plans built some) each answer

theorem built_of_build (w : Workshop) (q : Query) {plan : Plan α} (h : w.build q = .ok plan) :
    Built w plan := by
  induction q generalizing plan with
  | node operator parameters children ih =>
    obtain ⟨m, plans, _, built, assembled⟩ := assembled_of_build h
    exact built_of_assembled built (built_of_plans ih built) assembled

end Workshop

namespace Plan

open Axis

variable {α : Type} [Arithmetic α]

theorem listed_eq_false {β : Type} {key : β → DocId} {entries : Array β}
    (h : ∀ entry ∈ entries, key entry ≠ terminated) : listed key entries terminated = false := by
  refine Array.any_eq_false'.2 fun entry member => ?_
  simpa using h entry member

/-- What is built over an ordered collection can be walked through. -/
theorem Built.walkable {w : Workshop} (ordered : w.collection.Ordered)
    (below : w.collection.BelowEnd) {plan : Plan α} (h : Built w plan) : plan.Walkable := by
  induction h with
  | extents field term | counts field term =>
    exact ⟨ordered.postings field term, listed_eq_false (below.postings field term)⟩
  | lengths field => exact ⟨ordered.lengths field, listed_eq_false (below.lengths field)⟩
  | prior name =>
    refine ⟨?_, ?_⟩
    · rw [Ascending, Array.toList_map]
      exact List.pairwise_map.2 (ordered.prior name)
    · refine listed_eq_false fun entry member => ?_
      obtain ⟨given, inside, rfl⟩ := Array.mem_map.1 member
      exact below.prior name given inside
  | window _ _ _ _ _ _ ih | synonym _ _ _ _ ih | synonymCounts _ _ _ _ ih | boolean _ _ _ _ _ ih =>
    exact walkableAll_iff.2 ih
  | combine _ _ _ _ _ _ _ _ ih => exact walkableAll_iff.2 ih
  | passageFilter _ _ _ ih | passageLength _ _ _ ih | log _ _ _ ih => exact ih
  | scale _ _ _ _ ih => exact ih
  | scorer form parameters side counted term field bounds _ _ _ _ ih ih' =>
    unfold Workshop.scorer
    split
    · exact ⟨ih, ih'⟩
    · exact ⟨ih, ih'⟩
  | require _ _ _ _ _ ih ih' => exact ⟨ih, ih'⟩

end Plan

end RankedRetrieval
