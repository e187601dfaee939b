import RankedRetrieval.Proofs.Axis.Related
import RankedRetrieval.Proofs.Plan.Brought
import RankedRetrieval.Proofs.Plan.Expressions

set_option autoImplicit false

namespace RankedRetrieval.Plan

open Arithmetic Axis

variable {α : Type} [Arithmetic α]

structure Mirrored (R : Position → Position → Prop) (plan plan' : Plan α) : Prop
    extends InStep R plan.advance plan'.advance where
  cost : ∀ {p p'}, R p p' → plan'.cost p' = plan.cost p
  scored : ∀ {p p'}, R p p' → ∀ ctx,
    R (plan.score p ctx none).position (plan'.score p' ctx none).position
  regrouped : ∀ {p p'}, R p p' → ∀ ctx,
    Regrouped (plan.expression p ctx) (plan'.expression p' ctx)

def Alike (plan plan' : Plan α) (p p' : Position) : Prop :=
  ∃ R, Mirrored R plan plan' ∧ R p p'

theorem mirrored_alike (plan plan' : Plan α) : Mirrored (Alike plan plan') plan plan' where
  document := fun ⟨_, mirrored, h⟩ => mirrored.document h
  move := fun ⟨R, mirrored, h⟩ t => ⟨R, mirrored, mirrored.move h t⟩
  cost := fun ⟨_, mirrored, h⟩ => mirrored.cost h
  scored := fun ⟨R, mirrored, h⟩ ctx => ⟨R, mirrored, mirrored.scored h ctx⟩
  regrouped := fun ⟨_, mirrored, h⟩ ctx => mirrored.regrouped h ctx

/-- The second plan does what the first one does, and groups its sums otherwise. -/
structure Regroups (plan plan' : Plan α) : Prop where
  kind : plan'.kind = plan.kind
  start : Alike plan plan' plan.start plan'.start
  lower : Regrouped plan.range.lower plan'.range.lower
  upper : Regrouped plan.range.upper plan'.range.upper

theorem Regroups.refl (plan : Plan α) : Regroups plan plan where
  kind := rfl
  start := by
    refine ⟨Eq, ⟨⟨?_, ?_⟩, ?_, ?_, ?_⟩, rfl⟩
    · rintro p _ rfl
      rfl
    · rintro p _ rfl t
      rfl
    · rintro p _ rfl
      rfl
    · rintro p _ rfl ctx
      rfl
    · rintro p _ rfl ctx
      exact .refl _
  lower := .refl _
  upper := .refl _

theorem Regroups.trans {plan plan' plan'' : Plan α} (h : Regroups plan plan')
    (h' : Regroups plan' plan'') : Regroups plan plan'' where
  kind := h'.kind.trans h.kind
  start := by
    -- the plan between the two stands somewhere at every step
    refine ⟨fun p p'' => ∃ p', Alike plan plan' p p' ∧ Alike plan' plan'' p' p'', ?_,
      _, h.start, h'.start⟩
    have first := mirrored_alike plan plan'
    have second := mirrored_alike plan' plan''
    refine ⟨⟨?_, ?_⟩, ?_, ?_, ?_⟩
    · rintro p p'' ⟨p', a, b⟩
      exact (second.document b).trans (first.document a)
    · rintro p p'' ⟨p', a, b⟩ t
      exact ⟨_, first.move a t, second.move b t⟩
    · rintro p p'' ⟨p', a, b⟩
      exact (second.cost b).trans (first.cost a)
    · rintro p p'' ⟨p', a, b⟩ ctx
      exact ⟨_, first.scored a ctx, second.scored b ctx⟩
    · rintro p p'' ⟨p', a, b⟩ ctx
      exact .trans (first.regrouped a ctx) (second.regrouped b ctx)
  lower := .trans h.lower h'.lower
  upper := .trans h.upper h'.upper

section Groups

variable {pairs : List (Plan α × Plan α)} {parts parts' : List Position} {weights : List α}
  {ctx : Context}

abbrev AlikeEach : List (Plan α × Plan α) → List Position → List Position → Prop :=
  Related fun pair => Alike pair.1 pair.2

structure SideBySide (pairs : List (Plan α × Plan α)) (p p' : Position) : Prop where
  document : p'.document = p.document
  order : p'.order = p.order
  parts : AlikeEach pairs p.parts p'.parts

theorem length_fst (h : AlikeEach pairs parts parts') :
    parts.length = (pairs.map Prod.fst).length := by
  induction h with
  | nil => rfl
  | cons _ _ ih => exact congrArg Nat.succ ih

theorem length_snd (h : AlikeEach pairs parts parts') :
    parts'.length = (pairs.map Prod.snd).length := by
  induction h with
  | nil => rfl
  | cons _ _ ih => exact congrArg Nat.succ ih

theorem sideBySide_moveGroup (mode : Mode) (order : List Nat) (target : DocId)
    (h : AlikeEach pairs parts parts') :
    SideBySide pairs (moveGroup mode (movers (pairs.map Prod.fst)) order target parts)
      (moveGroup mode (movers (pairs.map Prod.snd)) order target parts') := by
  have inStep : ∀ pair ∈ pairs, InStep (Alike pair.1 pair.2) pair.1.advance pair.2.advance :=
    fun pair _ => (mirrored_alike pair.1 pair.2).toInStep
  obtain ⟨same, related⟩ := settle_related inStep mode order target h
  rw [movers_eq, movers_eq, List.map_map, List.map_map]
  exact ⟨same, rfl, related⟩

theorem sideBySide_advance {p p' : Position} (h : SideBySide pairs p p') (mode : Mode)
    (target : DocId) :
    SideBySide pairs
      (if target = p.document then p
        else moveGroup mode (movers (pairs.map Prod.fst)) p.order target p.parts)
      (if target = p'.document then p'
        else moveGroup mode (movers (pairs.map Prod.snd)) p'.order target p'.parts) := by
  rw [h.document, h.order]
  split
  · exact h
  · exact sideBySide_moveGroup mode p.order target h.parts

theorem costs_alike (h : AlikeEach pairs parts parts') :
    costs (pairs.map Prod.snd) parts' = costs (pairs.map Prod.fst) parts := by
  induction h with
  | nil => rfl
  | cons first _ ih =>
    rw [List.map_cons, List.map_cons, costs, costs, ih, (mirrored_alike _ _).cost first]

theorem alikeEach_starts (each : ∀ pair ∈ pairs, Regroups pair.1 pair.2) :
    AlikeEach pairs (starts (pairs.map Prod.fst)) (starts (pairs.map Prod.snd)) := by
  induction pairs with
  | nil => exact .nil
  | cons pair pairs ih =>
    obtain ⟨here, others⟩ := List.forall_mem_cons.1 each
    exact .cons here.start (ih others)

theorem sideBySide_start (each : ∀ pair ∈ pairs, Regroups pair.1 pair.2) (mode : Mode) :
    SideBySide pairs (startGroup mode (pairs.map Prod.fst) (starts (pairs.map Prod.fst)))
      (startGroup mode (pairs.map Prod.snd) (starts (pairs.map Prod.snd))) := by
  have parts := alikeEach_starts each
  unfold startGroup
  rw [costs_alike parts]
  exact sideBySide_moveGroup mode _ 0 parts

def scoredEach (children : List (Plan α)) (parts : List Position) (ctx : Context) :
    List Position :=
  List.zipWith (fun child p => (child.score p ctx none).position) children parts

theorem parts_scoreSum {children : List (Plan α)} (weighted : weights.length = children.length)
    (fits : parts.length = children.length) (reached : α) :
    (scoreSum children weights (contributions children weights) parts ctx none reached).parts =
      scoredEach children parts ctx := by
  induction children generalizing weights parts reached with
  | nil => exact List.length_eq_zero_iff.1 fits
  | cons child children ih =>
    obtain ⟨weight, weights, rfl⟩ := List.exists_cons_of_length_eq_add_one weighted
    obtain ⟨p, parts, rfl⟩ := List.exists_cons_of_length_eq_add_one fits
    exact congrArg _ (ih (Nat.succ.inj weighted) (Nat.succ.inj fits) _)

theorem parts_scoreEach {children : List (Plan α)} (weighted : weights.length = children.length)
    (fits : parts.length = children.length) :
    (scoreEach children weights parts ctx none).2.1 = scoredEach children parts ctx := by
  induction children generalizing weights parts with
  | nil => exact List.length_eq_zero_iff.1 fits
  | cons child children ih =>
    obtain ⟨weight, weights, rfl⟩ := List.exists_cons_of_length_eq_add_one weighted
    obtain ⟨p, parts, rfl⟩ := List.exists_cons_of_length_eq_add_one fits
    rw [scoreEach, delta_score_none]
    exact congrArg _ (ih (Nat.succ.inj weighted) (Nat.succ.inj fits))

theorem position_combine {children : List (Plan α)} (weighted : weights.length = children.length)
    {p : Position} (fits : p.parts.length = children.length) (method : Method) (mode : Mode) :
    ((combine method mode children weights).score p ctx none).position =
      { p with parts := scoredEach children p.parts ctx } := by
  cases method with
  | sum => exact congrArg (fun parts => { p with parts }) (parts_scoreSum weighted fits 0.0)
  | greatest => exact congrArg (fun parts => { p with parts }) (parts_scoreEach weighted fits)

theorem alikeEach_scoredEach (ctx : Context) (h : AlikeEach pairs parts parts') :
    AlikeEach pairs (scoredEach (pairs.map Prod.fst) parts ctx)
      (scoredEach (pairs.map Prod.snd) parts' ctx) := by
  induction h with
  | nil => exact .nil
  | cons first _ ih => exact .cons ((mirrored_alike _ _).scored first ctx) ih

theorem regrouped_expressions (ctx : Context) (h : AlikeEach pairs parts parts')
    (weights : List α) :
    List.Forall₂ Regrouped (expressions (pairs.map Prod.fst) weights parts ctx)
      (expressions (pairs.map Prod.snd) weights parts' ctx) := by
  induction h generalizing weights with
  | nil => exact .nil
  | cons first _ ih =>
    cases weights with
    | nil => exact .nil
    | cons weight weights =>
      exact .cons (.times weight ((mirrored_alike _ _).regrouped first ctx)) (ih weights)

theorem regrouped_combined (method : Method) {terms terms' : List (Expression α)}
    (each : List.Forall₂ Regrouped terms terms') :
    Regrouped (.combined method terms) (.combined method terms') := by
  cases method with
  | sum => exact .throughout (fun before after _ _ => .sum before after) each
  | greatest => exact .throughout (fun before after _ _ => .greatest before after) each

theorem regrouped_times (weight : α) {b b' : Bounds (Expression α)}
    (lower : Regrouped b.lower b'.lower) (upper : Regrouped b.upper b'.upper) :
    Regrouped (b.times weight).lower (b'.times weight).lower ∧
      Regrouped (b.times weight).upper (b'.times weight).upper := by
  unfold Bounds.times
  split
  · exact ⟨.times weight lower, .times weight upper⟩
  · exact ⟨.times weight upper, .times weight lower⟩

theorem regrouped_ranges (each : ∀ pair ∈ pairs, Regroups pair.1 pair.2) (weights : List α) :
    List.Forall₂ Regrouped ((ranges (pairs.map Prod.fst) weights).map Bounds.lower)
        ((ranges (pairs.map Prod.snd) weights).map Bounds.lower) ∧
      List.Forall₂ Regrouped ((ranges (pairs.map Prod.fst) weights).map Bounds.upper)
        ((ranges (pairs.map Prod.snd) weights).map Bounds.upper) := by
  induction pairs generalizing weights with
  | nil => exact ⟨.nil, .nil⟩
  | cons pair pairs ih =>
    obtain ⟨here, others⟩ := List.forall_mem_cons.1 each
    cases weights with
    | nil => exact ⟨.nil, .nil⟩
    | cons weight weights =>
      obtain ⟨lower, upper⟩ := regrouped_times weight here.lower here.upper
      obtain ⟨lowers, uppers⟩ := ih others weights
      exact ⟨.cons lower lowers, .cons upper uppers⟩

theorem regroups_combine (each : ∀ pair ∈ pairs, Regroups pair.1 pair.2) (method : Method)
    (mode : Mode) (weighted : weights.length = pairs.length) :
    Regroups (.combine method mode (pairs.map Prod.fst) weights)
      (.combine method mode (pairs.map Prod.snd) weights) where
  kind := rfl
  start := by
    refine ⟨SideBySide pairs, ⟨⟨fun h => h.document, fun h t => ?_⟩, fun h => ?_, fun h ctx => ?_,
      fun h ctx => ?_⟩, sideBySide_start each mode⟩
    · rw [advance, advance]
      exact sideBySide_advance h mode t
    · simp only [cost, costs_alike h.parts]
    · have weightedFst := weighted.trans (List.length_map Prod.fst).symm
      have weightedSnd := weighted.trans (List.length_map Prod.snd).symm
      rw [position_combine weightedFst (length_fst h.parts),
        position_combine weightedSnd (length_snd h.parts)]
      exact ⟨h.document, h.order, alikeEach_scoredEach ctx h.parts⟩
    · exact regrouped_combined method (regrouped_expressions ctx h.parts weights)
  lower := regrouped_combined method (regrouped_ranges each weights).1
  upper := regrouped_combined method (regrouped_ranges each weights).2

theorem regroups_boolean (each : ∀ pair ∈ pairs, Regroups pair.1 pair.2) (mode : Mode) :
    Regroups (.boolean mode (pairs.map Prod.fst)) (.boolean mode (pairs.map Prod.snd)) where
  kind := rfl
  start := by
    refine ⟨SideBySide pairs, ⟨⟨fun h => h.document, fun h t => ?_⟩, fun h => ?_, fun h ctx => h,
      fun h ctx => .refl _⟩, sideBySide_start each mode⟩
    · rw [advance, advance]
      exact sideBySide_advance h mode t
    · simp only [cost, costs_alike h.parts]
  lower := .refl _
  upper := .refl _

end Groups

section Single

variable {child child' : Plan α}

theorem regroups_log (h : Regroups child child') : Regroups (.log child) (.log child') where
  kind := rfl
  start := by
    have same := mirrored_alike child child'
    refine ⟨Alike child child', ⟨⟨same.document, same.move⟩, same.cost, same.scored,
      fun h ctx => ?_⟩, h.start⟩
    exact .log (same.regrouped h ctx)
  lower := .log h.lower
  upper := .log h.upper

theorem regroups_scale (weight : α) (h : Regroups child child') :
    Regroups (.scale weight child) (.scale weight child') where
  kind := rfl
  start := by
    have same := mirrored_alike child child'
    refine ⟨Alike child child', ⟨⟨same.document, same.move⟩, same.cost, same.scored,
      fun h ctx => ?_⟩, h.start⟩
    exact .times weight (same.regrouped h ctx)
  lower := (regrouped_times weight h.lower h.upper).1
  upper := (regrouped_times weight h.lower h.upper).2

end Single

section Filtered

variable {filter filter' scorer scorer' : Plan α}

structure BothAlike (filter filter' scorer scorer' : Plan α) (p p' : Position) : Prop where
  document : p'.document = p.document
  filter : Alike filter filter' (p.part 0) (p'.part 0)
  scorer : Alike scorer scorer' (p.part 1) (p'.part 1)

theorem bothAlike_joinFilter {p p' side side' : Position} (h : Alike filter filter' p p')
    (beside : Alike scorer scorer' side side') :
    BothAlike filter filter' scorer scorer' (joinFilter scorer.advance p side)
      (joinFilter scorer'.advance p' side') := by
  have same := (mirrored_alike filter filter').document h
  have joined : Alike scorer scorer'
      (if p.document = terminated then side else catchUp scorer.advance side p.document)
      (if p'.document = terminated then side' else catchUp scorer'.advance side' p'.document) := by
    rw [same]
    split
    · exact beside
    · exact (mirrored_alike scorer scorer').catchUp beside _
  exact ⟨same, h, joined⟩

theorem regroups_require (h : Regroups filter filter') (h' : Regroups scorer scorer') :
    Regroups (.require filter scorer) (.require filter' scorer') where
  kind := rfl
  start := by
    have filters := mirrored_alike filter filter'
    have scorers := mirrored_alike scorer scorer'
    have same {p p' : Position} (h : BothAlike filter filter' scorer scorer' p p') (d : DocId) :
        (p'.part 0).matchesAt d = (p.part 0).matchesAt d := by
      rw [Position.matchesAt, filters.document h.filter]
      rfl
    refine ⟨BothAlike filter filter' scorer scorer',
      ⟨⟨fun h => h.document, fun h t => ?_⟩, fun h => filters.cost h.filter,
        fun {p p'} h ctx => ?_, fun {p p'} h ctx => ?_⟩, bothAlike_joinFilter h.start h'.start⟩
    · exact bothAlike_joinFilter (filters.catchUp h.filter t) h.scorer
    · by_cases on : (p.part 0).matchesAt ctx.document = true
      · rw [score_require_of_on on, score_require_of_on ((same h _).trans on)]
        exact ⟨h.document, h.filter, scorers.scored h.scorer ctx⟩
      · rw [score_require_of_off on, score_require_of_off (same h _ ▸ on)]
        exact h
    · rw [expression, expression, same h]
      split
      · exact scorers.regrouped h.scorer ctx
      · exact h'.lower
  lower := h'.lower
  upper := h'.upper

end Filtered

end RankedRetrieval.Plan
