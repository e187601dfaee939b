import RankedRetrieval.Proofs.Plan.Scored
import RankedRetrieval.Proofs.Score.Regrouped

set_option autoImplicit false

namespace RankedRetrieval

open Arithmetic Plan

variable {α : Type} [Arithmetic α]

namespace Expression

omit [Arithmetic α] in
def combined : Method → List (Expression α) → Expression α
  | .sum => .sum
  | .greatest => .greatest

theorem eval_combined (method : Method) (terms : List (Expression α)) :
    (combined method terms).eval = bounds.foldOf method (terms.map eval) := by
  rw [← evalAll_eq_map]
  cases method <;> rfl

end Expression

def Bounds.times (weight : α) (b : Bounds (Expression α)) : Bounds (Expression α) :=
  if isPositiveOrZero weight then
    { lower := .times weight b.lower, upper := .times weight b.upper }
  else { lower := .times weight b.upper, upper := .times weight b.lower }

def Bounds.eval (b : Bounds (Expression α)) : Bounds α :=
  { lower := b.lower.eval, upper := b.upper.eval }

theorem Bounds.eval_times (weight : α) (b : Bounds (Expression α)) :
    (b.times weight).eval = b.eval.scale weight := by
  unfold times scale
  split <;> rfl

namespace Plan

mutual

def range : Plan α → Bounds (Expression α)
  | .combine method _ children weights =>
    let terms := ranges children weights
    { lower := .combined method (terms.map Bounds.lower)
      upper := .combined method (terms.map Bounds.upper) }
  | .log child => { lower := .log child.range.lower, upper := .log child.range.upper }
  | .scale weight child => child.range.times weight
  | .require _ scorer => scorer.range
  | plan => { lower := .value plan.bounds.lower, upper := .value plan.bounds.upper }

def ranges : List (Plan α) → List α → List (Bounds (Expression α))
  | child :: children, weight :: weights => child.range.times weight :: ranges children weights
  | _, _ => []

end

mutual

def expression : Plan α → Position → Context → Expression α
  | .combine method _ children weights, p, ctx =>
    .combined method (expressions children weights p.parts ctx)
  | .log child, p, ctx => .log (child.expression p ctx)
  | .scale weight child, p, ctx => .times weight (child.expression p ctx)
  | .require _ scorer, p, ctx =>
    if (p.part 0).matchesAt ctx.document then scorer.expression (p.part 1) ctx
    else scorer.range.lower
  | plan, p, ctx => .value (plan.score p ctx none).value

def expressions : List (Plan α) → List α → List Position → Context → List (Expression α)
  | child :: children, weight :: weights, p :: parts, ctx =>
    .times weight (child.expression p ctx) :: expressions children weights parts ctx
  | _, _, _, _ => []

end

theorem eval_ranges {children : List (Plan α)}
    (each : ∀ child ∈ children, child.range.eval = child.bounds) (weights : List α) :
    (ranges children weights).map Bounds.eval = contributions children weights := by
  induction children generalizing weights with
  | nil => rfl
  | cons child children ih =>
    obtain ⟨here, others⟩ := List.forall_mem_cons.1 each
    cases weights with
    | nil => rfl
    | cons weight weights =>
      rw [ranges, contributions, List.map_cons, Bounds.eval_times, here, ih others]

theorem eval_range (plan : Plan α) : plan.range.eval = plan.bounds := by
  induction plan with
  | combine method mode children weights ih =>
    have each := eval_ranges ih weights
    unfold bounds range
    dsimp only
    rw [← each, List.map_map, List.map_map, Bounds.eval, Expression.eval_combined,
      Expression.eval_combined, List.map_map, List.map_map]
    rfl
  | log child ih => rw [bounds, ← ih]; rfl
  | scale weight child ih => rw [bounds, range, Bounds.eval_times, ih]
  | require filter scorer _ ih => exact ih
  | _ => rfl

theorem value_scoreSum {children : List (Plan α)} {ctx : Context}
    (each : ∀ child ∈ children, ∀ p,
      (child.expression p ctx).eval = (child.score p ctx none).value)
    (weights : List α) (parts : List Position) (reached : α) :
    (scoreSum children weights (contributions children weights) parts ctx none reached).value =
      ((expressions children weights parts ctx).map Expression.eval).foldl
        (fun sum x => sum + x) reached := by
  induction children generalizing weights parts reached with
  | nil => rfl
  | cons child children ih =>
    obtain ⟨here, others⟩ := List.forall_mem_cons.1 each
    cases weights with
    | nil => rfl
    | cons weight weights =>
      cases parts with
      | nil => rfl
      | cons p parts =>
        rw [expressions, List.map_cons, List.foldl_cons, Expression.eval, here, ← ih others]
        rfl

theorem values_scoreEach {children : List (Plan α)} {ctx : Context}
    (each : ∀ child ∈ children, ∀ p,
      (child.expression p ctx).eval = (child.score p ctx none).value)
    (weights : List α) (parts : List Position) :
    (scoreEach children weights parts ctx none).1 =
      (expressions children weights parts ctx).map Expression.eval := by
  induction children generalizing weights parts with
  | nil => rfl
  | cons child children ih =>
    obtain ⟨here, others⟩ := List.forall_mem_cons.1 each
    cases weights with
    | nil => rfl
    | cons weight weights =>
      cases parts with
      | nil => rfl
      | cons p parts =>
        rw [scoreEach, expressions, List.map_cons, Expression.eval, here, ← ih others,
          delta_score_none]

/-- The score of a document is the value of its expression. -/
theorem eval_expression (plan : Plan α) (p : Position) (ctx : Context) :
    (plan.expression p ctx).eval = (plan.score p ctx none).value := by
  induction plan generalizing p with
  | combine method mode children weights ih =>
    rw [expression, Expression.eval_combined]
    cases method with
    | sum => exact (value_scoreSum ih weights p.parts 0.0).symm
    | greatest => exact congrArg Arithmetic.greatest (values_scoreEach ih weights p.parts).symm
  | log child ih => exact congrArg ln (ih p)
  | scale weight child ih => exact congrArg (weight * ·) (ih p)
  | require filter scorer _ ih =>
    rw [expression, score]
    dsimp only
    split
    · exact ih (p.part 1)
    · exact congrArg Bounds.lower scorer.eval_range
  | _ => rfl

end Plan

end RankedRetrieval
