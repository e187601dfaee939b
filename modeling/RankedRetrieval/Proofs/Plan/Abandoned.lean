import RankedRetrieval.Proofs.Plan.Scored
import RankedRetrieval.Proofs.Score.Order

set_option autoImplicit false

namespace RankedRetrieval.Plan

open Arithmetic Axis

variable {α : Type} [Arithmetic α] {children : List (Plan α)} {ctx : Context}

theorem upper_scale {w : α} (positive : isPositiveOrZero w = true) (b : Bounds α) :
    (b.scale w).upper = w * b.upper := by
  rw [Bounds.scale, if_pos positive]

theorem scoreSum_cons (child : Plan α) (weight : α) (weights : List α) (range : Bounds α)
    (ranges : List (Bounds α)) (p : Position) (parts : List Position) (reached : α) :
    (scoreSum (child :: children) (weight :: weights) (range :: ranges) (p :: parts) ctx none
        reached).value =
      (scoreSum children weights ranges parts ctx none
        (reached + weight * (child.score p ctx none).value)).value := rfl

variable [Comparison α]

theorem isNumber_of_scoreSum {weights : List α} {ranges : List (Bounds α)}
    {parts : List Position} {reached : α}
    (h : isNumber (scoreSum children weights ranges parts ctx none reached).value = true) :
    isNumber reached = true := by
  induction children generalizing weights ranges parts reached with
  | nil => exact h
  | cons child children ih =>
    cases weights with
    | nil => exact h
    | cons weight weights =>
      cases ranges with
      | nil => exact h
      | cons range ranges =>
        cases parts with
        | nil => exact h
        | cons p parts => exact (Comparison.addends (ih h)).1

theorem isNumber_of_ceiling {ranges : List (Bounds α)} {reached : α}
    (h : isNumber (ceiling reached ranges) = true) : isNumber reached = true := by
  induction ranges generalizing reached with
  | nil => exact h
  | cons range ranges ih => exact (Comparison.addends (ih h)).1

/-- Each child of a combination scores at most what its bounds say. -/
def capped (plan : Plan α) (p : Position) (ctx : Context) : Bool :=
  match plan with
  | .combine _ _ children _ =>
    (children.zip p.parts).all fun (child, part) =>
      atMost (child.score part ctx none).value child.bounds.upper
  | _ => true

/-- The weighted scores of children, as far as they are numbers, do not exceed what the children
contribute at most. -/
def Weighed : List (Plan α) → List α → List Position → Context → Prop
  | child :: children, w :: weights, p :: parts, ctx =>
    (isNumber (w * (child.score p ctx none).value) = true →
      isNumber (w * child.bounds.upper) = true →
        atMost (w * (child.score p ctx none).value) (w * child.bounds.upper) = true) ∧
      Weighed children weights parts ctx
  | _, _, _, _ => True

omit [Comparison α] in
/-- Where scores that do not exceed the bounds also do not when weighed, the weighted scores do not
exceed the contributions. -/
theorem weighed_of_forall (within : α → α → Prop) {weights : List α} {parts : List Position}
    (mul : ∀ w ∈ weights, ∀ x y, within x y → isNumber (w * x) = true → isNumber (w * y) = true →
      atMost (w * x) (w * y) = true)
    (capped : ∀ pair ∈ children.zip parts,
      within (pair.1.score pair.2 ctx none).value pair.1.bounds.upper) :
    Weighed children weights parts ctx := by
  induction children generalizing weights parts with
  | nil => trivial
  | cons child children ih =>
    cases weights with
    | nil => trivial
    | cons w weights =>
      cases parts with
      | nil => trivial
      | cons p parts =>
        obtain ⟨here, others⟩ := List.forall_mem_cons.1 capped
        obtain ⟨first, mul⟩ := List.forall_mem_cons.1 mul
        exact ⟨first _ _ here, ih mul others⟩

section Sums

variable {weights : List α} {parts : List Position}

theorem scoreSum_atMost_ceiling (monotone : MonotoneArithmetic α)
    (positive : ∀ w ∈ weights, isPositiveOrZero w = true)
    (length : parts.length = children.length) (weighed : Weighed children weights parts ctx)
    {a b : α} (le : atMost a b = true)
    (number : isNumber (scoreSum children weights (contributions children weights) parts ctx none
      a).value = true)
    (number' : isNumber (ceiling b (contributions children weights)) = true) :
    atMost (scoreSum children weights (contributions children weights) parts ctx none a).value
      (ceiling b (contributions children weights)) = true := by
  induction children generalizing weights parts a b with
  | nil => exact le
  | cons child children ih =>
    cases weights with
    | nil => exact le
    | cons w weights =>
      cases parts with
      | nil => cases length
      | cons p parts =>
        obtain ⟨here, others⟩ := weighed
        obtain ⟨sign, positive⟩ := List.forall_mem_cons.1 positive
        rw [contributions] at number number' ⊢
        rw [scoreSum_cons] at number ⊢
        have upper := upper_scale sign child.bounds
        change isNumber (ceiling (b + (child.bounds.scale w).upper) _) = true at number'
        change atMost _ (ceiling (b + (child.bounds.scale w).upper) _) = true
        rw [upper] at number' ⊢
        have added := isNumber_of_scoreSum number
        have added' := isNumber_of_ceiling number'
        have product := here (Comparison.addends added).2 (Comparison.addends added').2
        have sum := monotone.add le product added added'
        exact ih positive (Nat.succ.inj length) others sum number number'

/-- A sum is abandoned only if the whole of it would not exceed the threshold, and what is given for
it does not either. A sum that is not abandoned is the whole sum. -/
theorem scoreSum_threshold (monotone : MonotoneArithmetic α)
    (positive : ∀ w ∈ weights, isPositiveOrZero w = true)
    (length : parts.length = children.length) (weighed : Weighed children weights parts ctx)
    (threshold reached : α)
    (number : isNumber (scoreSum children weights (contributions children weights) parts ctx none
      reached).value = true) :
    let full := scoreSum children weights (contributions children weights) parts ctx none reached
    let sum := scoreSum children weights (contributions children weights) parts ctx
      (some threshold) reached
    (sum.pruned = false ∧ sum = full) ∨
      (sum.pruned = true ∧ atMost full.value threshold = true ∧
        atMost sum.value threshold = true) := by
  induction children generalizing weights parts reached with
  | nil => exact .inl ⟨rfl, rfl⟩
  | cons child children ih =>
    cases weights with
    | nil => exact .inl ⟨rfl, rfl⟩
    | cons w weights =>
      cases parts with
      | nil => cases length
      | cons p parts =>
        obtain ⟨here, others⟩ := weighed
        obtain ⟨sign, positive⟩ := List.forall_mem_cons.1 positive
        rw [contributions] at number ⊢
        dsimp only
        rw [scoreSum_cons] at number ⊢
        rw [scoreSum]
        dsimp only
        split
        · -- the ceiling of what is left is within the threshold, and it bounds the whole sum
          rename_i stopped
          have within := (Bool.and_eq_true_iff.1 stopped).2
          have most := scoreSum_atMost_ceiling monotone positive (Nat.succ.inj length) others
            (isNumber_of_scoreSum number) number (Comparison.left within)
          exact .inr ⟨rfl, Comparison.trans most within, within⟩
        · rcases ih positive (Nat.succ.inj length) others _ number with ⟨kept, same⟩ | stopped
          · refine .inl ⟨kept, ?_⟩
            rw [same]
            rfl
          · exact .inr stopped

end Sums

def Fits (plan : Plan α) (p : Position) : Prop :=
  match plan with
  | .combine _ _ children _ => p.parts.length = children.length
  | _ => True

omit [Arithmetic α] [Comparison α] in
theorem length_settle {mode : Mode} {order : List Nat} {target : DocId} {parts : List Position}
    (h : parts.length = children.length) :
    (settle mode (movers children) order target parts).2.length = children.length := by
  have all : List.Forall₂ (fun _ _ => True) children parts :=
    List.forall₂_iff_get.2 ⟨h.symm, fun _ _ _ => trivial⟩
  rw [movers_eq]
  exact (forall₂_settle (fun _ _ _ _ _ _ => trivial) mode order target all).length_eq.symm

omit [Arithmetic α] [Comparison α] in
theorem fits_start (plan : Plan α) : plan.Fits plan.start := by
  cases plan with
  | combine method mode children weights => exact length_settle (length_starts children)
  | _ => trivial

omit [Arithmetic α] [Comparison α] in
theorem fits_advance (plan : Plan α) {p : Position} (h : plan.Fits p) (t : DocId) :
    plan.Fits (plan.advance p t) := by
  cases plan with
  | combine method mode children weights =>
    rw [advance]
    split
    · exact h
    · exact length_settle h
  | _ => trivial

omit [Comparison α] in
theorem fits_score (plan : Plan α) {p : Position} (h : plan.Fits p) (ctx : Context)
    (delta : Option (Delta α)) : plan.Fits (plan.score p ctx delta).position := by
  cases plan with
  | combine method mode children weights =>
    cases method with
    | sum =>
      have same := congrArg List.length (documents_scoreSum children weights
        (contributions children weights) p.parts ctx (delta.map Delta.threshold) 0.0)
      rw [List.length_map, List.length_map] at same
      exact same.trans h
    | greatest =>
      have same := congrArg List.length (documents_scoreEach children weights p.parts ctx delta)
      rw [List.length_map, List.length_map] at same
      exact same.trans h
  | _ => trivial

/-- A score is abandoned only if it would not exceed the threshold. -/
theorem score_threshold (monotone : MonotoneArithmetic α) {plan : Plan α}
    (supports : plan.supportsDelta = true) {p : Position} (fits : plan.Fits p)
    (capped : plan.capped p ctx = true) (number : isNumber (plan.score p ctx none).value = true)
    (threshold : α) :
    let full := plan.score p ctx none
    let scored := plan.score p ctx (some { threshold, reached := 0.0, pruned := false })
    (scored.delta.any Delta.pruned = false ∧ scored.value = full.value) ∨
      (scored.delta.any Delta.pruned = true ∧ atMost full.value threshold = true) := by
  unfold supportsDelta at supports
  split at supports
  · rename_i mode children weights
    have positive := List.all_eq_true.1 supports
    have each : ∀ pair ∈ children.zip p.parts,
        atMost (pair.1.score pair.2 ctx none).value pair.1.bounds.upper = true :=
      List.all_eq_true.1 capped
    have weighed : Weighed children weights p.parts ctx :=
      weighed_of_forall (fun x y => atMost x y = true)
        (fun w member _ _ => monotone.mul (positive w member)) each
    rcases scoreSum_threshold monotone positive fits weighed threshold 0.0 number with
      ⟨kept, same⟩ | ⟨stopped, below, _⟩
    · exact .inl ⟨kept, congrArg Sum.value same⟩
    · exact .inr ⟨stopped, below⟩
  · cases supports

end RankedRetrieval.Plan
