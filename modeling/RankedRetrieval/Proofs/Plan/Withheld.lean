import RankedRetrieval.Proofs.Plan.Abandoned
import RankedRetrieval.Proofs.Score.Monotone

set_option autoImplicit false

/-!
# Thresholds are withheld from the parts of a sum

What each part of a plan is asked with, written down while the plan is scored
(`fst_scoreAsking`). A sum keeps its threshold to itself, and so do all parts in it
(`asked_none`). It is abandoned only below the threshold and is otherwise the sum that is computed
without one (`sum_under_threshold`).
-/

namespace RankedRetrieval.Plan

open Arithmetic Axis

variable {α : Type} [Arithmetic α] {ctx : Context}

mutual

/-- The score of a plan, and each scored part of it with the threshold that it is asked with. -/
def scoreAsking : Plan α → Position → Context → Option (Delta α) →
    Scored α × List (Plan α × Option (Delta α))
  | .combine .sum mode children weights, p, ctx, delta =>
    let ranges := contributions children weights
    let (sum, asked) :=
      sumAsking children weights ranges p.parts ctx (delta.map Delta.threshold) 0.0
    ({ value := sum.value
       position := { p with parts := sum.parts }
       delta := delta.map fun d => { d with reached := sum.value, pruned := sum.pruned } },
      (.combine .sum mode children weights, delta) :: asked)
  | .combine .greatest mode children weights, p, ctx, delta =>
    let ((values, parts, left), asked) := eachAsking children weights p.parts ctx delta
    ({ value := greatest values, position := { p with parts }, delta := left },
      (.combine .greatest mode children weights, delta) :: asked)
  | .log child, p, ctx, delta =>
    let (inner, asked) := child.scoreAsking p ctx delta
    ({ inner with value := ln inner.value }, (.log child, delta) :: asked)
  | .scale weight child, p, ctx, delta =>
    let (inner, asked) := child.scoreAsking p ctx delta
    ({ inner with value := weight * inner.value }, (.scale weight child, delta) :: asked)
  | .require filter scorer, p, ctx, delta =>
    let standing := p.part 0
    if standing.matchesAt ctx.document then
      let (inner, asked) := scorer.scoreAsking (p.part 1) ctx delta
      ({ inner with position := .ofParts p.document [standing, inner.position] },
        (.require filter scorer, delta) :: asked)
    else
      ({ value := scorer.bounds.lower, position := p, delta }, [(.require filter scorer, delta)])
  | plan, p, ctx, delta => (plan.score p ctx delta, [(plan, delta)])

def sumAsking : List (Plan α) → List α → List (Bounds α) → List Position → Context → Option α → α →
    Sum α × List (Plan α × Option (Delta α))
  | child :: children, weight :: weights, _ :: rest, p :: parts, ctx, threshold, reached =>
    let (scored, asked) := child.scoreAsking p ctx none
    let reached := reached + weight * scored.value
    if cannotExceed threshold reached rest then
      ({ value := ceiling reached rest, parts := scored.position :: parts, pruned := true }, asked)
    else
      let (sum, others) := sumAsking children weights rest parts ctx threshold reached
      ({ sum with parts := scored.position :: sum.parts }, asked ++ others)
  | _, _, _, parts, _, _, reached => ({ value := reached, parts, pruned := false }, [])

def eachAsking : List (Plan α) → List α → List Position → Context → Option (Delta α) →
    (List α × List Position × Option (Delta α)) × List (Plan α × Option (Delta α))
  | child :: children, weight :: weights, p :: parts, ctx, delta =>
    let (scored, asked) := child.scoreAsking p ctx delta
    let ((values, parts, left), others) := eachAsking children weights parts ctx scored.delta
    ((weight * scored.value :: values, scored.position :: parts, left), asked ++ others)
  | _, _, parts, _, delta => (([], parts, delta), [])

end

section Lists

variable {children : List (Plan α)}

theorem fst_sumAsking
    (each : ∀ child ∈ children, ∀ p delta,
      (child.scoreAsking p ctx delta).1 = child.score p ctx delta)
    (weights : List α) (ranges : List (Bounds α)) (parts : List Position) (threshold : Option α)
    (reached : α) :
    (sumAsking children weights ranges parts ctx threshold reached).1 =
      scoreSum children weights ranges parts ctx threshold reached := by
  induction children generalizing weights ranges parts reached with
  | nil => rfl
  | cons child children ih =>
    obtain ⟨here, others⟩ := List.forall_mem_cons.1 each
    cases weights with
    | nil => rfl
    | cons weight weights =>
      cases ranges with
      | nil => rfl
      | cons range ranges =>
        cases parts with
        | nil => rfl
        | cons p parts =>
          rw [sumAsking, scoreSum]
          dsimp only
          rw [here p none]
          split
          · rfl
          · rw [← ih others]

theorem fst_eachAsking
    (each : ∀ child ∈ children, ∀ p delta,
      (child.scoreAsking p ctx delta).1 = child.score p ctx delta)
    (weights : List α) (parts : List Position) (delta : Option (Delta α)) :
    (eachAsking children weights parts ctx delta).1 =
      scoreEach children weights parts ctx delta := by
  induction children generalizing weights parts delta with
  | nil => rfl
  | cons child children ih =>
    obtain ⟨here, others⟩ := List.forall_mem_cons.1 each
    cases weights with
    | nil => rfl
    | cons weight weights =>
      cases parts with
      | nil => rfl
      | cons p parts =>
        rw [eachAsking, scoreEach]
        dsimp only
        rw [here p delta, ← ih others]

end Lists

/-- Writing down what the parts are asked with changes no score. -/
theorem fst_scoreAsking (plan : Plan α) (p : Position) (delta : Option (Delta α)) :
    (plan.scoreAsking p ctx delta).1 = plan.score p ctx delta := by
  induction plan generalizing p delta with
  | combine method mode children weights ih =>
    cases method with
    | sum =>
      rw [scoreAsking, score]
      dsimp only
      rw [fst_sumAsking ih]
    | greatest =>
      rw [scoreAsking, score]
      dsimp only
      rw [← fst_eachAsking ih]
  | log child ih =>
    rw [scoreAsking, score, ← ih]
  | scale weight child ih =>
    rw [scoreAsking, score, ← ih]
  | require filter scorer _ ih =>
    rw [scoreAsking, score]
    dsimp only
    split
    · rw [← ih]
    · rfl
  | _ => rfl

section Lists

variable {children : List (Plan α)}

theorem asked_none_of_sumAsking
    (each : ∀ child ∈ children, ∀ p, ∀ asked ∈ (child.scoreAsking p ctx none).2, asked.2 = none)
    (weights : List α) (ranges : List (Bounds α)) (parts : List Position) (threshold : Option α)
    (reached : α) :
    ∀ asked ∈ (sumAsking children weights ranges parts ctx threshold reached).2,
      asked.2 = none := by
  induction children generalizing weights ranges parts reached with
  | nil => exact List.forall_mem_nil _
  | cons child children ih =>
    obtain ⟨here, others⟩ := List.forall_mem_cons.1 each
    cases weights with
    | nil => exact List.forall_mem_nil _
    | cons weight weights =>
      cases ranges with
      | nil => exact List.forall_mem_nil _
      | cons range ranges =>
        cases parts with
        | nil => exact List.forall_mem_nil _
        | cons p parts =>
          rw [sumAsking]
          dsimp only
          split
          · exact here p
          · exact List.forall_mem_append.2 ⟨here p, ih others _ _ _ _⟩

theorem asked_none_of_eachAsking
    (each : ∀ child ∈ children, ∀ p, ∀ asked ∈ (child.scoreAsking p ctx none).2, asked.2 = none)
    (weights : List α) (parts : List Position) :
    ∀ asked ∈ (eachAsking children weights parts ctx none).2, asked.2 = none := by
  induction children generalizing weights parts with
  | nil => exact List.forall_mem_nil _
  | cons child children ih =>
    obtain ⟨here, others⟩ := List.forall_mem_cons.1 each
    cases weights with
    | nil => exact List.forall_mem_nil _
    | cons weight weights =>
      cases parts with
      | nil => exact List.forall_mem_nil _
      | cons p parts =>
        rw [eachAsking]
        dsimp only
        rw [fst_scoreAsking, delta_score_none]
        exact List.forall_mem_append.2 ⟨here p, ih others _ _⟩

end Lists

/-- What is asked without a threshold asks its parts without one. -/
theorem asked_none (plan : Plan α) (p : Position) :
    ∀ asked ∈ (plan.scoreAsking p ctx none).2, asked.2 = none := by
  induction plan generalizing p with
  | combine method mode children weights ih =>
    cases method with
    | sum => exact List.forall_mem_cons.2 ⟨rfl, asked_none_of_sumAsking ih _ _ _ _ _⟩
    | greatest => exact List.forall_mem_cons.2 ⟨rfl, asked_none_of_eachAsking ih _ _⟩
  | log child ih => exact List.forall_mem_cons.2 ⟨rfl, ih p⟩
  | scale weight child ih => exact List.forall_mem_cons.2 ⟨rfl, ih p⟩
  | require filter scorer _ ih =>
    rw [scoreAsking]
    dsimp only
    split
    · exact List.forall_mem_cons.2 ⟨rfl, ih _⟩
    · exact List.forall_mem_singleton.2 rfl
  | _ => exact List.forall_mem_singleton.2 rfl

section Doubles

/-- A sum of weights that are not negative, over children that do not score above their bounds, is
never misjudged: it is abandoned only where the whole sum does not exceed the threshold, and what
takes its place does not either. Otherwise it is the sum as it is without a threshold. The threshold
is kept, and no part is asked with it. -/
theorem sum_under_threshold (mode : Mode) (children : List (Plan Float)) (weights : List Float)
    (positive : ∀ w ∈ weights, 0.0 ≤ w) (p : Position) (fits : p.parts.length = children.length)
    (ctx : Context)
    (capped : ∀ child ∈ children.zip p.parts,
      ¬ child.1.bounds.upper < (child.1.score child.2 ctx none).value)
    (number : ((combine .sum mode children weights).score p ctx none).value.isNaN = false)
    (delta : Delta Float) :
    let plan := combine .sum mode children weights
    let full := plan.score p ctx none
    let scored := plan.score p ctx (some delta)
    (∃ left, scored.delta = some left ∧ left.threshold = delta.threshold ∧
        left.reached = scored.value ∧
        (left.pruned = true → full.value ≤ delta.threshold ∧ scored.value ≤ delta.threshold) ∧
        (left.pruned = false → scored.value = full.value ∧ scored.position = full.position)) ∧
      ∃ asked, plan.scoreAsking p ctx (some delta) = (scored, (plan, some delta) :: asked) ∧
        ∀ part ∈ asked, part.2 = none := by
  intro plan full scored
  have signs : ∀ w ∈ weights, isPositiveOrZero w = true := fun w member =>
    decide_eq_true (positive w member)
  have whole : isNumber full.value = true := by rwa [isNaN_eq, Bool.not_eq_false'] at number
  have weighed : Weighed children weights p.parts ctx := by
    refine weighed_of_forall (fun x y => ¬ y < x) ?_ capped
    -- a score that is not above its bound is at most the bound unless one of them is no number, and
    -- then its product with the weight is none
    intro w member x y above here there
    have least := atMost_of_not_lt above (isNumber_of_mul here).2 (isNumber_of_mul there).2
    exact monotone_float.mul (signs w member) least here there
  have judged := scoreSum_threshold monotone_float signs fits weighed delta.threshold 0.0 whole
  refine ⟨⟨_, rfl, rfl, rfl, fun stopped => ?_, fun kept => ?_⟩, _, Prod.ext ?_ rfl, ?_⟩
  · rcases judged with ⟨kept, _⟩ | ⟨_, below, below'⟩
    · exact Bool.noConfusion (stopped.symm.trans kept)
    · exact ⟨of_decide_eq_true below, of_decide_eq_true below'⟩
  · rcases judged with ⟨_, same⟩ | ⟨stopped, _⟩
    · exact ⟨congrArg Sum.value same, congrArg (fun sum => { p with parts := Sum.parts sum }) same⟩
    · exact Bool.noConfusion (stopped.symm.trans kept)
  · exact fst_scoreAsking plan p (some delta)
  · exact asked_none_of_sumAsking (fun child _ => asked_none child) _ _ _ _ _

def tiered : List (Plan Float) :=
  [.combine .sum .any
    [.prior #[(1, 0.3), (2, 0.9)] 0.1, .prior #[(1, 0.7), (2, 0.2)] 0.1] [1.0, 2.0],
    .prior #[(1, 0.6), (2, 0.8)] 0.1]

/-- Document 1 scores 2.0: a threshold of 3.0 ends the sum after the first child, one of 1.0 does
not. -/
theorem sum_under_threshold_tiered :
    let plan := combine .sum .any tiered [1.0, 0.5]
    let full := plan.score plan.start (.whole 1) none
    let under (threshold : Float) :=
      plan.score plan.start (.whole 1) (some { threshold, reached := 0.0, pruned := false })
    full.value.isNaN = false ∧
      (under 3.0).delta.any Delta.pruned = true ∧ full.value ≤ 3.0 ∧ (under 3.0).value ≤ 3.0 ∧
      (under 1.0).delta.any Delta.pruned = false ∧ (under 1.0).value = full.value ∧
      ∀ part ∈ (plan.scoreAsking plan.start (.whole 1)
        (some { threshold := 1.0, reached := 0.0, pruned := false })).2.tail, part.2 = none := by
  intro plan full under
  have positive : ∀ w ∈ [1.0, 0.5], (0.0 : Float) ≤ w := by decide +kernel
  have capped : ∀ child ∈ tiered.zip plan.start.parts,
      ¬ child.1.bounds.upper < (child.1.score child.2 (.whole 1) none).value := by decide +kernel
  have number : full.value.isNaN = false := by decide +kernel
  have fits := fits_start plan
  have stopped : (under 3.0).delta.any Delta.pruned = true := by decide +kernel
  have kept : (under 1.0).delta.any Delta.pruned = false := by decide +kernel
  obtain ⟨⟨left, given, _, _, below, _⟩, _⟩ := sum_under_threshold .any tiered [1.0, 0.5] positive
    plan.start fits (.whole 1) capped number { threshold := 3.0, reached := 0.0, pruned := false }
  obtain ⟨⟨left', given', _, _, _, whole⟩, asked, all, unheard⟩ := sum_under_threshold .any tiered
    [1.0, 0.5] positive plan.start fits (.whole 1) capped number
    { threshold := 1.0, reached := 0.0, pruned := false }
  have left_pruned : left.pruned = true := by
    rwa [show (under 3.0).delta = some left from given] at stopped
  have left_whole : left'.pruned = false := by
    rwa [show (under 1.0).delta = some left' from given'] at kept
  refine ⟨number, stopped, (below left_pruned).1, (below left_pruned).2, kept,
    (whole left_whole).1, ?_⟩
  rw [all]
  exact unheard

end Doubles

end RankedRetrieval.Plan
