import RankedRetrieval.Proofs.Plan.Built
import RankedRetrieval.Proofs.Plan.Scored

set_option autoImplicit false

namespace RankedRetrieval

namespace Axis

/-- Catching up by way of an earlier document comes to the same. -/
def Composes (move : Mover) : Prop :=
  ∀ (p : Position) {d d' : DocId}, d ≤ d' →
    catchUp move (catchUp move p d) d' = catchUp move p d'

theorem Composes.self {move : Mover} (h : Composes move) (p : Position) (d : DocId) :
    catchUp move (catchUp move p d) d = catchUp move p d := h p (UInt32.le_refl d)

variable {β : Type} {key : β → DocId} {entries : Array β}

theorem skipTo_skipTo {d d' : DocId} (le : d ≤ d') (i : Nat) :
    skipTo key entries d' (skipTo key entries d i) = skipTo key entries d' i := by
  fun_induction skipTo key entries d i with
  | case1 i h before ih =>
    have before' := UInt32.lt_of_lt_of_le before le
    rw [ih, eq_comm, skipTo, dif_pos h, if_pos before']
  | case2 => rfl
  | case3 => rfl

theorem skipTo_of_le {d : DocId} {i : Nat} (le : d ≤ (leaf key entries i).document) :
    skipTo key entries d i = i := by
  rw [skipTo]
  split
  · rename_i h
    rw [document_leaf_of_lt key entries h] at le
    exact if_neg (UInt32.not_lt.2 le)
  · rfl

theorem composes_leaf : Composes (advanceLeaf key entries) := by
  intro p d d' le
  by_cases behind : p.document < d
  · have behind' := UInt32.lt_of_lt_of_le behind le
    have twice : advanceLeaf key entries (advanceLeaf key entries p d) d' =
        advanceLeaf key entries p d' := congrArg (leaf key entries) (skipTo_skipTo le p.offset)
    rw [catchUp, catchUp, catchUp, if_pos behind, if_pos behind', twice]
    split
    · rfl
    · rename_i there
      rw [← twice, eq_comm]
      exact congrArg (leaf key entries) (skipTo_of_le (UInt32.not_lt.1 there))
  · have stay : catchUp (advanceLeaf key entries) p d = p := if_neg behind
    rw [stay]

end Axis

namespace Plan

open Axis

variable {α : Type}

mutual

def SidesCompose : Plan α → Prop
  | .dirichlet side _ _ => Composes side.advance
  | .bm25 side _ _ => Composes side.advance
  | .combine _ _ children _ => SidesComposeAll children
  | .log child => child.SidesCompose
  | .scale _ child => child.SidesCompose
  | .require _ scorer => scorer.SidesCompose
  | _ => True

def SidesComposeAll : List (Plan α) → Prop
  | [] => True
  | child :: children => child.SidesCompose ∧ SidesComposeAll children

end

mutual

/-- The position with the lists of lengths brought up to a document. -/
def brought (d : DocId) : Plan α → Position → Position
  | .dirichlet side _ _, p => .ofParts p.document [catchUp side.advance (p.part 0) d, p.part 1]
  | .bm25 side _ _, p => .ofParts p.document [catchUp side.advance (p.part 0) d, p.part 1]
  | .combine _ _ children _, p => { p with parts := broughtEach d children p.parts }
  | .log child, p => child.brought d p
  | .scale _ child, p => child.brought d p
  | .require _ scorer, p => .ofParts p.document [p.part 0, scorer.brought d (p.part 1)]
  | _, p => p

def broughtEach (d : DocId) : List (Plan α) → List Position → List Position
  | child :: children, p :: parts => child.brought d p :: broughtEach d children parts
  | _, parts => parts

end

theorem sidesComposeAll_iff {children : List (Plan α)} :
    SidesComposeAll children ↔ ∀ child ∈ children, child.SidesCompose := by
  induction children with
  | nil => simp [SidesComposeAll]
  | cons child children ih => rw [SidesComposeAll, ih, List.forall_mem_cons]

theorem broughtEach_eq (d : DocId) (children : List (Plan α)) (parts : List Position) :
    broughtEach d children parts = onEach (brought d) children parts := by
  induction children generalizing parts with
  | nil => cases parts <;> rfl
  | cons child children ih =>
    cases parts with
    | nil => rfl
    | cons p parts => rw [broughtEach, onEach, ih]

theorem document_brought (d : DocId) (plan : Plan α) (p : Position) :
    (plan.brought d p).document = p.document := by
  induction plan with
  | log child ih => exact ih
  | scale weight child ih => exact ih
  | _ => rfl

theorem brought_joinFilter {d : DocId} {filter scorer : Plan α}
    (commutes : Commutes scorer.advance (scorer.brought d)) (p side : Position) :
    (filter.require scorer).brought d (joinFilter scorer.advance p side) =
      joinFilter scorer.advance p (scorer.brought d side) := by
  unfold joinFilter
  dsimp only
  split
  · rfl
  · rw [commutes.catchUp]
    rfl

theorem commutes_brought (d : DocId) (plan : Plan α) :
    Commutes plan.advance (plan.brought d) := by
  induction plan with
  | combine method mode children weights ih =>
    refine ⟨document_brought d _, fun p t => ?_⟩
    simp only [advance, brought, broughtEach_eq]
    split
    · rfl
    · simp only [moveGroup, movers_eq, settle_onEach ih]
  | log child ih => exact ⟨document_brought d child, ih.move⟩
  | scale weight child ih => exact ⟨document_brought d child, ih.move⟩
  | require filter scorer _ ih =>
    exact ⟨document_brought d _, fun p t => brought_joinFilter ih _ (p.part 1)⟩
  | dirichlet => exact ⟨document_brought d _, fun _ _ => rfl⟩
  | bm25 => exact ⟨document_brought d _, fun _ _ => rfl⟩
  | _ => exact ⟨fun _ => rfl, fun _ _ => rfl⟩

theorem brought_brought {d d' : DocId} (le : d ≤ d') (plan : Plan α) (compose : plan.SidesCompose)
    (p : Position) : plan.brought d' (plan.brought d p) = plan.brought d' p := by
  induction plan generalizing p with
  | dirichlet side counted model _ _ =>
    have same := compose (p.part 0) le
    exact congrArg (fun q => Position.ofParts p.document [q, p.part 1]) same
  | bm25 side counted model _ _ =>
    have same := compose (p.part 0) le
    exact congrArg (fun q => Position.ofParts p.document [q, p.part 1]) same
  | combine method mode children weights ih =>
    have each (parts : List Position) :
        broughtEach d' children (broughtEach d children parts) = broughtEach d' children parts := by
      rw [SidesCompose, sidesComposeAll_iff] at compose
      induction children generalizing parts with
      | nil => rfl
      | cons child children ihc =>
        obtain ⟨here, others⟩ := List.forall_mem_cons.1 ih
        obtain ⟨first, rest⟩ := List.forall_mem_cons.1 compose
        cases parts with
        | nil => rfl
        | cons p parts => rw [broughtEach, broughtEach, broughtEach, here first, ihc others rest]
    exact congrArg (fun parts => { p with parts }) (each p.parts)
  | log child ih => exact ih compose p
  | scale weight child ih => exact ih compose p
  | require filter scorer _ ih =>
    have same := ih compose (p.part 1)
    exact congrArg (fun q => Position.ofParts p.document [p.part 0, q]) same
  | _ => rfl

section Scores

variable [Arithmetic α] {children : List (Plan α)} {ctx : Context}

theorem broughtEach_scoreSum (ctx : Context) {d : DocId}
    (brings : ∀ child ∈ children, ∀ p,
      child.brought d (child.score p ctx none).position = child.brought d p)
    (weights : List α) (ranges : List (Bounds α)) (parts : List Position) (threshold : Option α)
    (reached : α) :
    broughtEach d children (scoreSum children weights ranges parts ctx threshold reached).parts =
      broughtEach d children parts := by
  induction children generalizing weights ranges parts reached with
  | nil => rfl
  | cons child children ih =>
    obtain ⟨here, others⟩ := List.forall_mem_cons.1 brings
    cases weights with
    | nil => rfl
    | cons weight weights =>
      cases ranges with
      | nil => rfl
      | cons range ranges =>
        cases parts with
        | nil => rfl
        | cons p parts =>
          rw [scoreSum]
          split
          · rw [broughtEach, broughtEach, here]
          · rw [broughtEach, broughtEach, here, ih others]

theorem broughtEach_scoreEach (ctx : Context) {d : DocId}
    (brings : ∀ child ∈ children, ∀ p delta,
      child.brought d (child.score p ctx delta).position = child.brought d p)
    (weights : List α) (parts : List Position) (delta : Option (Delta α)) :
    broughtEach d children (scoreEach children weights parts ctx delta).2.1 =
      broughtEach d children parts := by
  induction children generalizing weights parts delta with
  | nil => rfl
  | cons child children ih =>
    obtain ⟨here, others⟩ := List.forall_mem_cons.1 brings
    cases weights with
    | nil => rfl
    | cons weight weights =>
      cases parts with
      | nil => rfl
      | cons p parts =>
        rw [scoreEach, broughtEach, broughtEach, here]
        exact congrArg _ (ih others weights parts _)

/-- A score does nothing to the position but bring lists of lengths along. -/
theorem brought_score {d : DocId} (le : ctx.document ≤ d) (plan : Plan α)
    (compose : plan.SidesCompose) (p : Position) (delta : Option (Delta α)) :
    plan.brought d (plan.score p ctx delta).position = plan.brought d p := by
  induction plan generalizing p delta with
  | dirichlet side counted model _ _ =>
    have same := compose (p.part 0) le
    exact congrArg (fun q => Position.ofParts p.document [q, p.part 1]) same
  | bm25 side counted model _ _ =>
    simp only [score]
    split
    · rfl
    · have same := compose (p.part 0) le
      exact congrArg (fun q => Position.ofParts p.document [q, p.part 1]) same
  | combine method mode children weights ih =>
    rw [SidesCompose, sidesComposeAll_iff] at compose
    cases method with
    | sum =>
      have each := broughtEach_scoreSum ctx
        (fun child member p => ih child member (compose child member) p none)
        weights (contributions children weights) p.parts (delta.map Delta.threshold) 0.0
      exact congrArg (fun parts => { p with parts }) each
    | greatest =>
      have each := broughtEach_scoreEach ctx
        (fun child member p delta => ih child member (compose child member) p delta)
        weights p.parts delta
      exact congrArg (fun parts => { p with parts }) each
  | log child ih => exact ih compose p delta
  | scale weight child ih => exact ih compose p delta
  | require filter scorer _ ih =>
    simp only [score]
    split
    · exact congrArg (fun q => Position.ofParts p.document [p.part 0, q])
        (ih compose (p.part 1) delta)
    · rfl
  | _ => rfl

theorem scoreSum_broughtEach (ctx : Context)
    (same : ∀ child ∈ children, ∀ p,
      (child.score (child.brought ctx.document p) ctx none).value = (child.score p ctx none).value)
    (weights : List α) (ranges : List (Bounds α)) (parts : List Position) (threshold : Option α)
    (reached : α) :
    let sum := scoreSum children weights ranges (broughtEach ctx.document children parts) ctx
      threshold reached
    let sum' := scoreSum children weights ranges parts ctx threshold reached
    sum.value = sum'.value ∧ sum.pruned = sum'.pruned := by
  induction children generalizing weights ranges parts reached with
  | nil => exact ⟨rfl, rfl⟩
  | cons child children ih =>
    obtain ⟨here, others⟩ := List.forall_mem_cons.1 same
    cases weights with
    | nil => cases parts <;> exact ⟨rfl, rfl⟩
    | cons weight weights =>
      cases ranges with
      | nil => cases parts <;> exact ⟨rfl, rfl⟩
      | cons range ranges =>
        cases parts with
        | nil => exact ⟨rfl, rfl⟩
        | cons p parts =>
          simp only [broughtEach, scoreSum, here]
          split
          · exact ⟨rfl, rfl⟩
          · exact ih others weights ranges parts _

theorem scoreEach_broughtEach (ctx : Context)
    (same : ∀ child ∈ children, ∀ p delta,
      (child.score (child.brought ctx.document p) ctx delta).value =
          (child.score p ctx delta).value ∧
        (child.score (child.brought ctx.document p) ctx delta).delta =
          (child.score p ctx delta).delta)
    (weights : List α) (parts : List Position) (delta : Option (Delta α)) :
    let each := scoreEach children weights (broughtEach ctx.document children parts) ctx delta
    let each' := scoreEach children weights parts ctx delta
    each.1 = each'.1 ∧ each.2.2 = each'.2.2 := by
  induction children generalizing weights parts delta with
  | nil => exact ⟨rfl, rfl⟩
  | cons child children ih =>
    obtain ⟨here, others⟩ := List.forall_mem_cons.1 same
    cases weights with
    | nil => cases parts <;> exact ⟨rfl, rfl⟩
    | cons weight weights =>
      cases parts with
      | nil => exact ⟨rfl, rfl⟩
      | cons p parts =>
        obtain ⟨value, passed⟩ := here p delta
        obtain ⟨values, left⟩ := ih others weights parts (child.score p ctx delta).delta
        simp only [broughtEach, scoreEach, value, passed]
        exact ⟨congrArg _ values, left⟩

theorem score_require_of_on {filter scorer : Plan α} {p : Position} {delta : Option (Delta α)}
    (on : (p.part 0).matchesAt ctx.document = true) :
    (filter.require scorer).score p ctx delta =
      { scorer.score (p.part 1) ctx delta with
        position := .ofParts p.document
          [p.part 0, (scorer.score (p.part 1) ctx delta).position] } := by
  simp only [score]
  exact if_pos on

theorem score_require_of_off {filter scorer : Plan α} {p : Position} {delta : Option (Delta α)}
    (off : ¬(p.part 0).matchesAt ctx.document = true) :
    (filter.require scorer).score p ctx delta =
      { value := scorer.bounds.lower, position := p, delta } := by
  simp only [score]
  exact if_neg off

/-- To bring lists of lengths to a document beforehand does not change its score. -/
theorem score_brought (plan : Plan α) (compose : plan.SidesCompose) (p : Position) (ctx : Context)
    (delta : Option (Delta α)) :
    (plan.score (plan.brought ctx.document p) ctx delta).value = (plan.score p ctx delta).value ∧
      (plan.score (plan.brought ctx.document p) ctx delta).delta =
        (plan.score p ctx delta).delta := by
  induction plan generalizing p delta with
  | dirichlet side counted model _ _ =>
    have same : catchUp side.advance (catchUp side.advance (p.part 0) ctx.document) ctx.document =
        catchUp side.advance (p.part 0) ctx.document := compose.self _ _
    refine ⟨?_, rfl⟩
    simp only [score, brought, part_ofParts_zero, part_ofParts_one, same]
  | bm25 side counted model _ _ =>
    have same : catchUp side.advance (catchUp side.advance (p.part 0) ctx.document) ctx.document =
        catchUp side.advance (p.part 0) ctx.document := compose.self _ _
    simp only [score, brought, part_ofParts_zero, part_ofParts_one, same]
    split <;> exact ⟨rfl, rfl⟩
  | combine method mode children weights ih =>
    rw [SidesCompose, sidesComposeAll_iff] at compose
    cases method with
    | sum =>
      obtain ⟨value, pruned⟩ := scoreSum_broughtEach ctx
        (fun child member p => (ih child member (compose child member) p none).1)
        weights (contributions children weights) p.parts (delta.map Delta.threshold) 0.0
      simp only [score, brought, value, pruned]
      exact ⟨trivial, trivial⟩
    | greatest =>
      obtain ⟨values, left⟩ := scoreEach_broughtEach ctx
        (fun child member p delta => ih child member (compose child member) p delta)
        weights p.parts delta
      exact ⟨congrArg Arithmetic.greatest values, left⟩
  | log child ih =>
    obtain ⟨value, left⟩ := ih compose p delta
    exact ⟨congrArg Arithmetic.ln value, left⟩
  | scale weight child ih =>
    obtain ⟨value, left⟩ := ih compose p delta
    exact ⟨congrArg (weight * ·) value, left⟩
  | require filter scorer _ ih =>
    have same : ((filter.require scorer).brought ctx.document p).part 0 = p.part 0 := rfl
    by_cases on : (p.part 0).matchesAt ctx.document = true
    · rw [score_require_of_on on, score_require_of_on (same ▸ on)]
      exact ih compose (p.part 1) delta
    · rw [score_require_of_off on, score_require_of_off (same ▸ on)]
      exact ⟨rfl, rfl⟩
  | _ => exact ⟨rfl, rfl⟩

theorem Built.composes {w : Workshop} {plan : Plan α} (h : Built w plan)
    (measures : plan.capabilities.has .length = true) : Composes plan.advance := by
  induction h with
  | lengths field => exact composes_leaf
  | passageLength child _ answers ih => exact ih answers
  | scorer form parameters side counted term field bounds _ _ _ _ _ _ =>
    unfold Workshop.scorer at measures
    split at measures <;> cases measures
  | _ => cases measures

theorem Built.sidesCompose {w : Workshop} {plan : Plan α} (h : Built w plan) :
    plan.SidesCompose := by
  induction h with
  | scorer form parameters side counted term field bounds builtSide _ measures _ _ _ =>
    unfold Workshop.scorer
    split
    · exact builtSide.composes measures
    · exact builtSide.composes measures
  | combine method mode children weights _ _ _ _ ih => exact sidesComposeAll_iff.2 ih
  | log child _ _ ih => exact ih
  | scale weight child _ _ ih => exact ih
  | require filter scorer _ _ _ _ ih => exact ih
  | _ => trivial

end Scores

end Plan

end RankedRetrieval
