import RankedRetrieval.Proofs.Plan.Mirrored

set_option autoImplicit false

namespace RankedRetrieval

open Arithmetic Axis

variable {α : Type} [Arithmetic α]

omit [Arithmetic α] in
/-- A list with some of its members opened, each into the list that it puts together. -/
inductive Opens {β : Type} (together : List β → β) : List β → List β → Prop
  | nil : Opens together [] []
  | keep (x : β) {xs xs' : List β} (rest : Opens together xs xs') :
      Opens together (x :: xs) (x :: xs')
  | enter (inner : List β) {xs xs' : List β} (rest : Opens together xs xs') :
      Opens together (together inner :: xs) (inner ++ xs')

theorem Regrouped.of_opens {terms terms' : List (Expression α)}
    (opens : Opens (fun inner => .times (unitWeight α) (.sum inner)) terms terms') :
    Regrouped (.sum terms) (.sum terms') := by
  suffices ∀ before, Regrouped (.sum (before ++ terms)) (.sum (before ++ terms')) from this []
  induction opens with
  | nil => exact fun before => .refl _
  | keep e _ ih =>
    intro before
    have rest := ih (before ++ [e])
    rw [List.append_assoc, List.append_assoc] at rest
    exact rest
  | @enter inner terms terms' _ ih =>
    intro before
    have rest := ih (before ++ inner)
    rw [List.append_assoc before inner terms'] at rest
    exact .trans (.opened before inner terms) rest

namespace Axis

theorem earliest_le {parts : List Position} {p : Position} (member : p ∈ parts) :
    earliest parts ≤ p.document := by
  induction parts with
  | nil => cases member
  | cons first rest ih =>
    rw [earliest]
    rcases List.mem_cons.1 member with rfl | inside
    · split
      · exact UInt32.le_refl _
      · exact UInt32.not_lt.1 ‹_›
    · split
      · exact UInt32.le_trans (UInt32.le_of_lt ‹_›) (ih inside)
      · exact ih inside

theorem earliest_append (parts others : List Position) :
    earliest (parts ++ others) =
      if earliest parts < earliest others then earliest parts else earliest others := by
  induction parts with
  | nil =>
    rw [List.nil_append, if_neg]
    exact UInt32.not_lt.2 (le_terminated _)
  | cons p parts ih =>
    rw [List.cons_append, earliest, earliest, ih]
    grind

end Axis

namespace Plan

abbrev units (children : List (Plan α)) : List α := List.replicate children.length (unitWeight α)

def unitSum (children : List (Plan α)) : Plan α := .combine .sum .any children (units children)

/-- The places of the plans before and after sums among them have been opened: the children of such
a sum stand where they did. -/
inductive OpensAt : List (Plan α) → List (Plan α) → List Position → List Position → Prop
  | nil : OpensAt [] [] [] []
  | keep (plan : Plan α) (p : Position) {plans plans' : List (Plan α)}
      {parts parts' : List Position} (rest : OpensAt plans plans' parts parts') :
      OpensAt (plan :: plans) (plan :: plans') (p :: parts) (p :: parts')
  | enter {inner : List (Plan α)} {p : Position} {plans plans' : List (Plan α)}
      {parts parts' : List Position} (fits : p.parts.length = inner.length)
      (first : p.document = earliest p.parts) (rest : OpensAt plans plans' parts parts') :
      OpensAt (unitSum inner :: plans) (inner ++ plans') (p :: parts) (p.parts ++ parts')

def caught (target : DocId) (plans : List (Plan α)) (parts : List Position) : List Position :=
  List.zipWith (fun plan p => catchUp plan.advance p target) plans parts

omit [Arithmetic α] in
theorem moveGroup_any (order : List Nat) (target : DocId) (plans : List (Plan α))
    (parts : List Position) :
    moveGroup .any (movers plans) order target parts =
      { document := earliest (caught target plans parts), offset := 0, found := [], order,
        parts := caught target plans parts } := by
  rw [moveGroup, movers_eq, settle, List.zipWith_map_left]
  rfl

omit [Arithmetic α] in
theorem caught_of_le {target : DocId} {plans : List (Plan α)} {parts : List Position}
    (fits : parts.length = plans.length) (le : ∀ p ∈ parts, target ≤ p.document) :
    caught target plans parts = parts := by
  induction plans generalizing parts with
  | nil => exact (List.length_eq_zero_iff.1 fits).symm
  | cons plan plans ih =>
    obtain ⟨p, parts, rfl⟩ := List.exists_cons_of_length_eq_add_one fits
    obtain ⟨here, others⟩ := List.forall_mem_cons.1 le
    have stays : catchUp plan.advance p target = p := if_neg (UInt32.not_lt.2 here)
    have rest := ih (Nat.succ.inj fits) others
    rw [caught] at rest ⊢
    rw [List.zipWith_cons_cons, stays, rest]

theorem caught_unitSum {inner : List (Plan α)} {p : Position} (target : DocId)
    (fits : p.parts.length = inner.length) (first : p.document = earliest p.parts) :
    let moved := catchUp (unitSum inner).advance p target
    moved.parts = caught target inner p.parts ∧
      moved.document = earliest (caught target inner p.parts) := by
  dsimp only
  by_cases behind : p.document < target
  · have moves : target ≠ p.document := by
      rintro rfl
      exact UInt32.lt_irrefl _ behind
    rw [catchUp, if_pos behind, unitSum, advance, if_neg moves, moveGroup_any]
    exact ⟨rfl, rfl⟩
  · have stays : caught target inner p.parts = p.parts := by
      refine caught_of_le fits fun q member => ?_
      exact UInt32.le_trans (UInt32.not_lt.1 behind) (first ▸ earliest_le member)
    rw [catchUp, if_neg behind, stays]
    exact ⟨rfl, first⟩

section Opening

theorem documents_scoredEach (ctx : Context) {plans : List (Plan α)} {parts : List Position}
    (fits : parts.length = plans.length) :
    (scoredEach plans parts ctx).map Position.document = parts.map Position.document := by
  induction plans generalizing parts with
  | nil =>
    rw [List.length_eq_zero_iff.1 fits]
    rfl
  | cons plan plans ih =>
    obtain ⟨p, parts, rfl⟩ := List.exists_cons_of_length_eq_add_one fits
    rw [scoredEach, List.zipWith_cons_cons, List.map_cons, List.map_cons, document_score]
    exact congrArg _ (ih (Nat.succ.inj fits))

theorem expressions_append {inner plans : List (Plan α)} {front parts : List Position}
    {ctx : Context} (fits : front.length = inner.length) :
    expressions (inner ++ plans) (units (inner ++ plans))
        (front ++ parts) ctx =
      expressions inner (units inner) front ctx ++
        expressions plans (units plans) parts ctx := by
  induction inner generalizing front with
  | nil =>
    rw [List.length_eq_zero_iff.1 fits]
    rfl
  | cons plan inner ih =>
    obtain ⟨p, front, rfl⟩ := List.exists_cons_of_length_eq_add_one fits
    exact congrArg _ (ih (Nat.succ.inj fits))

theorem ranges_append (inner plans : List (Plan α)) :
    ranges (inner ++ plans) (units (inner ++ plans)) =
      ranges inner (units inner) ++
        ranges plans (units plans) := by
  induction inner with
  | nil => rfl
  | cons plan inner ih => exact congrArg _ ih

omit [Arithmetic α] in
theorem costs_append {inner plans : List (Plan α)} {front parts : List Position}
    (fits : front.length = inner.length) :
    costs (inner ++ plans) (front ++ parts) = costs inner front ++ costs plans parts := by
  induction inner generalizing front with
  | nil =>
    rw [List.length_eq_zero_iff.1 fits]
    cases plans <;> cases parts <;> rfl
  | cons plan inner ih =>
    obtain ⟨p, front, rfl⟩ := List.exists_cons_of_length_eq_add_one fits
    exact congrArg _ (ih (Nat.succ.inj fits))

variable {plans plans' : List (Plan α)} {parts parts' : List Position} {ctx : Context}

theorem OpensAt.length (h : OpensAt plans plans' parts parts') :
    parts.length = plans.length ∧ parts'.length = plans'.length := by
  induction h with
  | nil => exact ⟨rfl, rfl⟩
  | keep plan p _ ih => exact ⟨congrArg Nat.succ ih.1, congrArg Nat.succ ih.2⟩
  | enter fits first _ ih =>
    refine ⟨congrArg Nat.succ ih.1, ?_⟩
    rw [List.length_append, List.length_append, fits, ih.2]

theorem OpensAt.earliest (h : OpensAt plans plans' parts parts') :
    earliest parts' = earliest parts := by
  induction h with
  | nil => rfl
  | keep plan p _ ih => rw [Axis.earliest, Axis.earliest, ih]
  | enter fits first _ ih => rw [earliest_append, Axis.earliest, ih, first]

theorem OpensAt.caught (target : DocId) (h : OpensAt plans plans' parts parts') :
    OpensAt plans plans' (caught target plans parts) (caught target plans' parts') := by
  induction h with
  | nil => exact .nil
  | keep plan p _ ih => exact .keep plan _ ih
  | @enter inner p plans plans' parts parts' fits first _ ih =>
    obtain ⟨moved, document⟩ := caught_unitSum target fits first
    have apart : Plan.caught target (inner ++ plans') (p.parts ++ parts') =
        Plan.caught target inner p.parts ++ Plan.caught target plans' parts' :=
      List.zipWith_append fits.symm
    have length : (Plan.caught target inner p.parts).length = inner.length := by
      rw [Plan.caught, List.length_zipWith, fits, Nat.min_self]
    rw [apart, ← moved]
    exact .enter (moved ▸ length) (moved ▸ document) ih

theorem OpensAt.costs (h : OpensAt plans plans' parts parts') :
    (costs plans' parts').sum = (costs plans parts).sum := by
  induction h with
  | nil => rfl
  | keep plan p _ ih => rw [Plan.costs, Plan.costs, List.sum_cons, List.sum_cons, ih]
  | @enter inner p plans plans' parts parts' fits first _ ih =>
    rw [costs_append fits, List.sum_append, ih, Plan.costs, List.sum_cons]
    rfl

theorem OpensAt.scored (ctx : Context) (h : OpensAt plans plans' parts parts') :
    OpensAt plans plans' (scoredEach plans parts ctx) (scoredEach plans' parts' ctx) := by
  induction h with
  | nil => exact .nil
  | keep plan p _ ih => exact .keep plan _ ih
  | @enter inner p plans plans' parts parts' fits first _ ih =>
    have after : ((unitSum inner).score p ctx none).position =
        { p with parts := scoredEach inner p.parts ctx } :=
      position_combine List.length_replicate fits .sum .any
    have apart : scoredEach (inner ++ plans') (p.parts ++ parts') ctx =
        scoredEach inner p.parts ctx ++ scoredEach plans' parts' ctx :=
      List.zipWith_append fits.symm
    have length : (scoredEach inner p.parts ctx).length = inner.length := by
      rw [scoredEach, List.length_zipWith, fits, Nat.min_self]
    have documents := documents_scoredEach ctx fits
    have parts : ((unitSum inner).score p ctx none).position.parts =
        scoredEach inner p.parts ctx := congrArg Position.parts after
    rw [apart, ← parts]
    refine .enter (parts ▸ length) ?_ ih
    rw [parts, earliest_congr documents]
    exact (congrArg Position.document after).trans first

/-- Weighted with one, the terms of a sum that is opened take its place. -/
theorem OpensAt.terms (ctx : Context) (h : OpensAt plans plans' parts parts') :
    Opens (fun inner => .times (unitWeight α) (.sum inner))
      (expressions plans (units plans) parts ctx)
      (expressions plans' (units plans') parts' ctx) := by
  induction h with
  | nil => exact .nil
  | keep plan p _ ih => exact .keep _ ih
  | @enter inner p plans plans' parts parts' fits first _ ih =>
    rw [expressions_append fits]
    exact .enter _ ih

theorem opens_ranges (one : isPositiveOrZero (unitWeight α) = true)
    (h : Opens unitSum plans plans') :
    Opens (fun inner => .times (unitWeight α) (.sum inner))
        ((ranges plans (units plans)).map Bounds.lower)
        ((ranges plans' (units plans')).map Bounds.lower) ∧
      Opens (fun inner => .times (unitWeight α) (.sum inner))
        ((ranges plans (units plans)).map Bounds.upper)
        ((ranges plans' (units plans')).map Bounds.upper) := by
  have weighted (b : Bounds (Expression α)) : b.times (unitWeight α) =
      { lower := .times (unitWeight α) b.lower, upper := .times (unitWeight α) b.upper } :=
    if_pos one
  induction h with
  | nil => exact ⟨.nil, .nil⟩
  | keep plan _ ih => exact ⟨.keep _ ih.1, .keep _ ih.2⟩
  | @enter inner plans plans' _ ih =>
    have first : ranges (unitSum inner :: plans) (units (unitSum inner :: plans)) =
        { lower := .times (unitWeight α) (unitSum inner).range.lower
          upper := .times (unitWeight α) (unitSum inner).range.upper } ::
          ranges plans (units plans) := congrArg (· :: _) (weighted _)
    rw [ranges_append, List.map_append, List.map_append, first]
    exact ⟨.enter _ ih.1, .enter _ ih.2⟩

theorem opensAt_starts (h : Opens unitSum plans plans') :
    OpensAt plans plans' (starts plans) (starts plans') := by
  induction h with
  | nil => exact .nil
  | keep plan _ ih => exact .keep plan _ ih
  | @enter inner plans plans' _ ih =>
    have begun : (unitSum inner).start =
        moveGroup .any (movers inner) (byCost (Plan.costs inner (starts inner))) 0 (starts inner) :=
      rfl
    have still : Plan.caught 0 inner (starts inner) = starts inner :=
      caught_of_le (length_starts inner) fun _ _ => UInt32.zero_le
    rw [moveGroup_any, still] at begun
    have parts : (unitSum inner).start.parts = starts inner := congrArg Position.parts begun
    have apart : starts (inner ++ plans') = starts inner ++ starts plans' := by
      rw [starts_eq, starts_eq, starts_eq, List.map_append]
    rw [apart, starts, ← parts]
    refine .enter (parts ▸ length_starts inner) ?_ ih
    rw [parts]
    exact congrArg Position.document begun

/-- Sums among the children of a sum may be opened. -/
theorem regroups_unitSum (one : isPositiveOrZero (unitWeight α) = true)
    (opens : Opens unitSum plans plans') : Regroups (unitSum plans) (unitSum plans') where
  kind := rfl
  start := by
    have moved (order order' : List Nat) (target : DocId) {parts parts' : List Position}
        (h : OpensAt plans plans' parts parts') :
        let p := moveGroup .any (movers plans) order target parts
        let p' := moveGroup .any (movers plans') order' target parts'
        p'.document = p.document ∧ OpensAt plans plans' p.parts p'.parts := by
      rw [moveGroup_any, moveGroup_any]
      exact ⟨(h.caught target).earliest, h.caught target⟩
    -- the order by cost is left out: each child of such a sum moves by itself
    refine ⟨fun p p' => p'.document = p.document ∧ OpensAt plans plans' p.parts p'.parts,
      ⟨⟨fun h => h.1, fun {p p'} h t => ?_⟩, fun h => h.2.costs, fun {p p'} h ctx => ?_,
        fun h ctx => .of_opens (h.2.terms ctx)⟩, moved _ _ 0 (opensAt_starts opens)⟩
    · rw [unitSum, unitSum, advance, advance, h.1]
      split
      · exact h
      · exact moved _ _ t h.2
    · obtain ⟨fits, fits'⟩ := h.2.length
      have after : ((unitSum plans).score p ctx none).position =
          { p with parts := scoredEach plans p.parts ctx } :=
        position_combine List.length_replicate fits .sum .any
      have after' : ((unitSum plans').score p' ctx none).position =
          { p' with parts := scoredEach plans' p'.parts ctx } :=
        position_combine List.length_replicate fits' .sum .any
      rw [after, after']
      exact ⟨h.1, h.2.scored ctx⟩
  lower := .of_opens (opens_ranges one opens).1
  upper := .of_opens (opens_ranges one opens).2

end Opening

end Plan

end RankedRetrieval
