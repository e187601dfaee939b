import RankedRetrieval.Plan.Movement

set_option autoImplicit false

namespace RankedRetrieval

/-- A threshold that a sum has to exceed, what the sum came to, and whether it was abandoned. -/
structure Delta (α : Type) where
  threshold : α
  reached : α
  pruned : Bool

structure Scored (α : Type) where
  value : α
  position : Position
  delta : Option (Delta α)

namespace Plan

open Arithmetic Axis

variable {α : Type} [Arithmetic α]

mutual

def bounds : Plan α → Bounds α
  | .prior entries default =>
    let scores := entries.toList.map Prod.snd
    { lower := scores.foldl smaller default, upper := scores.foldl larger default }
  | .dirichlet _ _ model => model.bounds
  | .bm25 _ _ model => model.bounds
  | .combine method _ children weights =>
    let ranges := contributions children weights
    let fold := foldOf method
    { lower := fold (ranges.map Bounds.lower), upper := fold (ranges.map Bounds.upper) }
  | .log child =>
    let range := child.bounds
    { lower := ln range.lower, upper := ln range.upper }
  | .scale weight child => child.bounds.scale weight
  | .require _ scorer => scorer.bounds
  | _ => { lower := 0.0, upper := 0.0 }
where
  foldOf : Method → List α → α
    | .sum => total
    | .greatest => greatest

def contributions : List (Plan α) → List α → List (Bounds α)
  | child :: children, weight :: weights =>
    child.bounds.scale weight :: contributions children weights
  | _, _ => []

end

/-- Whether the sum that the plan computes may be abandoned. -/
def supportsDelta : Plan α → Bool
  | .combine .sum _ _ weights => weights.all isPositiveOrZero
  | _ => false

structure Sum (α : Type) where
  value : α
  parts : List Position
  pruned : Bool

/-- The sum that is left when the children not yet scored contribute their most. -/
def ceiling (reached : α) (rest : List (Bounds α)) : α :=
  rest.foldl (fun sum range => sum + range.upper) reached

def cannotExceed (threshold : Option α) (reached : α) (rest : List (Bounds α)) : Bool :=
  match threshold with
  | none => false
  | some t => !rest.isEmpty && atMost (ceiling reached rest) t

mutual

/-- The score of a document. Only a sum takes notice of a threshold, and the children of a sum see
none. -/
def score : Plan α → Position → Context → Option (Delta α) → Scored α
  | .prior entries default, p, ctx, delta =>
    { value := ((entryAt Prod.fst entries p ctx.document).map Prod.snd).getD default
      position := p
      delta }
  | .dirichlet side counted model, p, ctx, delta =>
    let lengths := catchUp side.advance (p.part 0) ctx.document
    let value := model.score (counted.countAt (p.part 1) ctx) (side.lengthAt lengths ctx)
    { value, position := .ofParts p.document [lengths, p.part 1], delta }
  | .bm25 side counted model, p, ctx, delta =>
    let count := counted.countAt (p.part 1) ctx
    if count = 0 then { value := 0.0, position := p, delta }
    else
      let lengths := catchUp side.advance (p.part 0) ctx.document
      { value := model.score count (side.lengthAt lengths ctx)
        position := .ofParts p.document [lengths, p.part 1]
        delta }
  | .combine .sum _ children weights, p, ctx, delta =>
    let ranges := contributions children weights
    let sum := scoreSum children weights ranges p.parts ctx (delta.map Delta.threshold) 0.0
    { value := sum.value
      position := { p with parts := sum.parts }
      delta := delta.map fun d => { d with reached := sum.value, pruned := sum.pruned } }
  | .combine .greatest _ children weights, p, ctx, delta =>
    let (values, parts, delta) := scoreEach children weights p.parts ctx delta
    { value := greatest values, position := { p with parts }, delta }
  | .log child, p, ctx, delta =>
    let inner := child.score p ctx delta
    { inner with value := ln inner.value }
  | .scale weight child, p, ctx, delta =>
    let inner := child.score p ctx delta
    { inner with value := weight * inner.value }
  | .require _ scorer, p, ctx, delta =>
    let filter := p.part 0
    if filter.matchesAt ctx.document then
      let inner := scorer.score (p.part 1) ctx delta
      { inner with position := .ofParts p.document [filter, inner.position] }
    else { value := scorer.bounds.lower, position := p, delta }
  | _, p, _, delta => { value := 0.0, position := p, delta }

def scoreSum : List (Plan α) → List α → List (Bounds α) → List Position → Context → Option α → α →
    Sum α
  | child :: children, weight :: weights, _ :: rest, p :: parts, ctx, threshold, reached =>
    let scored := child.score p ctx none
    let reached := reached + weight * scored.value
    if cannotExceed threshold reached rest then
      { value := ceiling reached rest, parts := scored.position :: parts, pruned := true }
    else
      let sum := scoreSum children weights rest parts ctx threshold reached
      { sum with parts := scored.position :: sum.parts }
  | _, _, _, parts, _, _, reached => { value := reached, parts, pruned := false }

def scoreEach : List (Plan α) → List α → List Position → Context → Option (Delta α) →
    List α × List Position × Option (Delta α)
  | child :: children, weight :: weights, p :: parts, ctx, delta =>
    let scored := child.score p ctx delta
    let (values, parts, delta) := scoreEach children weights parts ctx scored.delta
    (weight * scored.value :: values, scored.position :: parts, delta)
  | _, _, parts, _, delta => ([], parts, delta)

end

end Plan

end RankedRetrieval
