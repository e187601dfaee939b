import RankedRetrieval.Plan.Cursor
import RankedRetrieval.Proofs.Plan.Standing

set_option autoImplicit false

namespace RankedRetrieval.Plan

open Axis

variable {α : Type} [Arithmetic α] {children : List (Plan α)}

theorem forall₂_scoreSum {R : Plan α → Position → Prop} {ctx : Context}
    (keeps : ∀ child ∈ children, ∀ p, R child p → R child (child.score p ctx none).position)
    {parts : List Position} (h : List.Forall₂ R children parts) (weights : List α)
    (ranges : List (Bounds α)) (threshold : Option α) (reached : α) :
    List.Forall₂ R children
      (scoreSum children weights ranges parts ctx threshold reached).parts := by
  induction h generalizing weights ranges reached with
  | nil => exact .nil
  | @cons child p children parts first rest ih =>
    obtain ⟨here, others⟩ := List.forall_mem_cons.1 keeps
    cases weights with
    | nil => exact .cons first rest
    | cons weight weights =>
      cases ranges with
      | nil => exact .cons first rest
      | cons range ranges =>
        rw [scoreSum]
        split
        · exact .cons (here p first) rest
        · exact .cons (here p first) (ih others weights ranges _)

theorem forall₂_scoreEach {R : Plan α → Position → Prop} {ctx : Context}
    (keeps : ∀ child ∈ children, ∀ p delta, R child p →
      R child (child.score p ctx delta).position)
    {parts : List Position} (h : List.Forall₂ R children parts) (weights : List α)
    (delta : Option (Delta α)) :
    List.Forall₂ R children (scoreEach children weights parts ctx delta).2.1 := by
  induction h generalizing weights delta with
  | nil => exact .nil
  | @cons child p children parts first rest ih =>
    obtain ⟨here, others⟩ := List.forall_mem_cons.1 keeps
    cases weights with
    | nil => exact .cons first rest
    | cons weight weights =>
      rw [scoreEach]
      exact .cons (here p delta first) (ih others weights _)

theorem documents_scoreSum (children : List (Plan α)) (weights : List α)
    (ranges : List (Bounds α)) (parts : List Position) (ctx : Context) (threshold : Option α)
    (reached : α) :
    (scoreSum children weights ranges parts ctx threshold reached).parts.map Position.document =
      parts.map Position.document := by
  induction children generalizing weights ranges parts reached with
  | nil => rfl
  | cons child children ih =>
    cases weights with
    | nil => rfl
    | cons weight weights =>
      cases ranges with
      | nil => rfl
      | cons range ranges =>
        cases parts with
        | nil => rfl
        | cons p parts =>
          rw [scoreSum]
          split
          · rw [List.map_cons, List.map_cons, document_score]
          · rw [List.map_cons, List.map_cons, document_score, ih]

theorem documents_scoreEach (children : List (Plan α)) (weights : List α)
    (parts : List Position) (ctx : Context) (delta : Option (Delta α)) :
    (scoreEach children weights parts ctx delta).2.1.map Position.document =
      parts.map Position.document := by
  induction children generalizing weights parts delta with
  | nil => rfl
  | cons child children ih =>
    cases weights with
    | nil => rfl
    | cons weight weights =>
      cases parts with
      | nil => rfl
      | cons p parts =>
        rw [scoreEach, List.map_cons, List.map_cons, document_score, ih]

omit [Arithmetic α] in
theorem standsOn_parts {mode : Mode} {t : DocId} {p : Position} {parts : List Position}
    (h : StandsOn mode children (AllStand Stands children) (Somewhere Stands children) t p)
    (documents : parts.map Position.document = p.parts.map Position.document)
    (keeps : ∀ e, AllStand Stands children e p.parts → AllStand Stands children e parts)
    (keepsSome : Somewhere Stands children p.parts → Somewhere Stands children parts) :
    StandsOn mode children (AllStand Stands children) (Somewhere Stands children) t
      { p with parts } := by
  cases mode with
  | any =>
    refine ⟨?_, keeps t h.2⟩
    rw [h.1]
    exact (earliest_congr documents).symm
  | all =>
    refine ⟨⟨h.1.1, h.1.2.1, fun notDone => ?_⟩, keepsSome h.2⟩
    obtain ⟨all, same⟩ := h.1.2.2 notDone
    refine ⟨keeps p.document all, ?_⟩
    intro q member
    have inside : q.document ∈ parts.map Position.document := List.mem_map_of_mem member
    rw [documents] at inside
    obtain ⟨q', member', there⟩ := List.mem_map.1 inside
    rw [← there]
    exact same q' member'

theorem delta_score_none (plan : Plan α) (p : Position) (ctx : Context) :
    (plan.score p ctx none).delta = none := by
  induction plan generalizing p with
  | bm25 side counted model _ _ =>
    simp only [score]
    split <;> rfl
  | combine method mode children weights ih =>
    cases method with
    | sum => rfl
    | greatest =>
      have each (parts : List Position) :
          (scoreEach children weights parts ctx none).2.2 = none := by
        induction children generalizing weights parts with
        | nil => rfl
        | cons child children ihc =>
          obtain ⟨here, others⟩ := List.forall_mem_cons.1 ih
          cases weights with
          | nil => rfl
          | cons weight weights =>
            cases parts with
            | nil => rfl
            | cons p parts =>
              rw [scoreEach, here]
              exact ihc weights others parts
      exact each p.parts
  | log child ih => exact ih p
  | scale weight child ih => exact ih p
  | require filter scorer _ ih =>
    simp only [score]
    split
    · exact ih (p.part 1)
    · rfl
  | _ => rfl

theorem stands_score (plan : Plan α) {t : DocId} {p : Position} (here : plan.Stands t p)
    (ctx : Context) (delta : Option (Delta α)) :
    plan.Stands t (plan.score p ctx delta).position := by
  induction plan generalizing t p delta with
  | dirichlet side counted model _ _ => exact here
  | bm25 side counted model _ _ =>
    simp only [score]
    split
    · exact here
    · exact here
  | combine method mode children weights ih =>
    rw [Stands, standAll_eq, standSome_eq] at here ⊢
    cases method with
    | sum =>
      refine standsOn_parts here (documents_scoreSum _ _ _ _ ctx _ _) ?_ ?_
      · intro e all
        refine forall₂_scoreSum ?_ all _ _ _ _
        exact fun child member q standing => ih child member standing none
      · intro all
        refine forall₂_scoreSum ?_ all _ _ _ _
        exact fun child member q => Exists.imp fun s standing => ih child member standing none
    | greatest =>
      refine standsOn_parts here (documents_scoreEach _ _ _ ctx _) ?_ ?_
      · intro e all
        refine forall₂_scoreEach ?_ all _ _
        exact fun child member q delta standing => ih child member standing delta
      · intro all
        refine forall₂_scoreEach ?_ all _ _
        exact fun child member q delta =>
          Exists.imp fun s standing => ih child member standing delta
  | log child ih => exact ih here delta
  | scale weight child ih => exact ih here delta
  | require filter scorer _ ih =>
    obtain ⟨standing, same, joined⟩ := here
    simp only [score]
    split
    · exact ⟨standing, same, fun notDone => ih (joined notDone) delta⟩
    · exact ⟨standing, same, joined⟩
  | _ => exact here

end RankedRetrieval.Plan
