import RankedRetrieval.Proofs.Plan.Built
import RankedRetrieval.Proofs.Plan.Paths

set_option autoImplicit false

namespace RankedRetrieval

namespace Axis

variable {β : Type} {key : β → DocId} {entries : Array β}

def trimmed (key : β → DocId) (entries : Array β) : Array β :=
  if entries.back?.map key = some terminated then entries.pop else entries

theorem trimmed_cases (key : β → DocId) (entries : Array β) :
    (trimmed key entries = entries ∧ entries.back?.map key ≠ some terminated) ∨
      ∃ e, key e = terminated ∧ entries = (trimmed key entries).push e := by
  by_cases last : entries.back?.map key = some terminated
  · obtain ⟨e, found, done⟩ := Option.map_eq_some_iff.1 last
    obtain ⟨rest, rfl⟩ := Array.back?_eq_some_iff.1 found
    refine .inr ⟨e, done, ?_⟩
    rw [trimmed, if_pos last, Array.pop_push]
  · exact .inl ⟨if_neg last, last⟩

theorem leaf_push {e : β} (done : key e = terminated) (i : Nat) :
    leaf key (entries.push e) i = leaf key entries i := by
  unfold leaf
  congr 1
  rw [Array.getElem?_push]
  split
  · rename_i same
    rw [same, Array.getElem?_eq_none (Nat.le_refl _), Option.map_some, Option.getD_some, done]
    rfl
  · rfl

theorem skipTo_push {e : β} (done : key e = terminated) (target : DocId) (i : Nat) :
    skipTo key (entries.push e) target i = skipTo key entries target i := by
  fun_induction skipTo key entries target i with
  | case1 i h before ih =>
    rw [skipTo, dif_pos (by rw [Array.size_push]; omega), Array.getElem_push_lt h, if_pos before,
      ih]
  | case2 i h notBefore =>
    rw [skipTo, dif_pos (by rw [Array.size_push]; omega), Array.getElem_push_lt h, if_neg notBefore]
  | case3 i h =>
    rw [skipTo]
    split
    · rename_i inside
      have last : i = entries.size := by
        rw [Array.size_push] at inside
        omega
      subst last
      rw [Array.getElem_push_eq, done, if_neg (UInt32.not_lt.2 (le_terminated target))]
    · rfl

theorem entryAt_push {e : β} (done : key e = terminated) {d : DocId} (notDone : d ≠ terminated)
    (p : Position) : Plan.entryAt key (entries.push e) p d = Plan.entryAt key entries p d := by
  rw [Plan.entryAt, Array.getElem?_push, Plan.entryAt]
  split
  · rename_i same
    rw [same, Array.getElem?_eq_none (Nat.le_refl _), Option.filter_none]
    exact Option.filter_some_neg (by simpa [done] using notDone.symm)
  · rfl

theorem leaf_trimmed (key : β → DocId) (entries : Array β) (i : Nat) :
    leaf key (trimmed key entries) i = leaf key entries i := by
  rcases trimmed_cases key entries with ⟨same, _⟩ | ⟨e, done, same⟩
  · rw [same]
  · conv_rhs => rw [same]
    rw [leaf_push done]

theorem advanceLeaf_trimmed (key : β → DocId) (entries : Array β) (p : Position)
    (target : DocId) :
    advanceLeaf key (trimmed key entries) p target = advanceLeaf key entries p target := by
  unfold advanceLeaf
  rw [leaf_trimmed]
  congr 1
  rcases trimmed_cases key entries with ⟨same, _⟩ | ⟨e, done, same⟩
  · rw [same]
  · conv_rhs => rw [same]
    rw [skipTo_push done]

theorem entryAt_trimmed (key : β → DocId) (entries : Array β) {d : DocId}
    (notDone : d ≠ terminated) (p : Position) :
    Plan.entryAt key (trimmed key entries) p d = Plan.entryAt key entries p d := by
  rcases trimmed_cases key entries with ⟨same, _⟩ | ⟨e, done, same⟩
  · rw [same]
  · conv_rhs => rw [same]
    rw [entryAt_push done notDone]

theorem find?_trimmed (key : β → DocId) (entries : Array β) {d : DocId}
    (notDone : d ≠ terminated) :
    ((trimmed key entries).find? fun e => key e = d) = entries.find? fun e => key e = d := by
  rcases trimmed_cases key entries with ⟨same, _⟩ | ⟨e, done, same⟩
  · rw [same]
  · conv_rhs => rw [same]
    have apart : ¬ terminated = d := notDone.symm
    rw [Array.find?_push]
    simp [done, apart]

theorem readable_trimmed (ascending : Ascending key entries) :
    Plan.Readable key (trimmed key entries) := by
  rcases trimmed_cases key entries with ⟨same, last⟩ | ⟨e, done, same⟩
  · rw [same]
    refine ⟨ascending, Plan.listed_eq_false fun entry member done => last ?_⟩
    cases found : entries.back? with
    | none =>
      rw [Array.back?_eq_none_iff.1 found] at member
      exact absurd member (Array.not_mem_empty entry)
    | some e =>
      obtain ⟨rest, rfl⟩ := Array.back?_eq_some_iff.1 found
      rw [Option.map_some]
      rcases Array.mem_push.1 member with before | rfl
      · rw [Ascending, Array.toList_push, List.pairwise_append] at ascending
        have earlier := ascending.2.2 entry (by simpa using before) e (List.mem_singleton_self e)
        rw [done] at earlier
        exact absurd (le_terminated _) (UInt32.not_le.2 earlier)
      · rw [done]
  · have split := ascending
    rw [same, Ascending, Array.toList_push, List.pairwise_append] at split
    refine ⟨split.1, Plan.listed_eq_false fun entry member => ?_⟩
    have before := split.2.2 entry (by simpa using member) e (List.mem_singleton_self e)
    rw [done] at before
    exact fun same => absurd before (same ▸ UInt32.lt_irrefl _)

end Axis

namespace Plan

open Axis

variable {α : Type}

mutual

@[simp] def trim : Plan α → Plan α
  | .extents postings => .extents (trimmed Posting.document postings)
  | .counts postings => .counts (trimmed Posting.document postings)
  | .lengths entries => .lengths (trimmed Prod.fst entries)
  | .prior entries default => .prior (trimmed Prod.fst entries) default
  | .window order width children => .window order width (trimAll children)
  | .synonym children => .synonym (trimAll children)
  | .synonymCounts children => .synonymCounts (trimAll children)
  | .passageFilter child => .passageFilter child.trim
  | .passageLength child => .passageLength child.trim
  | .dirichlet side counted model => .dirichlet side.trim counted.trim model
  | .bm25 side counted model => .bm25 side.trim counted.trim model
  | .combine method mode children weights => .combine method mode (trimAll children) weights
  | .log child => .log child.trim
  | .scale weight child => .scale weight child.trim
  | .require filter scorer => .require filter.trim scorer.trim
  | .boolean mode children => .boolean mode (trimAll children)

@[simp] def trimAll : List (Plan α) → List (Plan α)
  | [] => []
  | child :: children => child.trim :: trimAll children

end

theorem trimAll_eq (children : List (Plan α)) : trimAll children = children.map trim := by
  induction children with
  | nil => rfl
  | cons child children ih => rw [trimAll, ih, List.map_cons]

/-- What is built over an ordered collection can be walked through up to the end. -/
theorem Built.walkable_trim [Arithmetic α] {w : Workshop} (ordered : w.collection.Ordered)
    {plan : Plan α} (h : Built w plan) : plan.trim.Walkable := by
  have all {children : List (Plan α)} (each : ∀ child ∈ children, child.trim.Walkable) :
      WalkableAll (trimAll children) := by
    rw [trimAll_eq, walkableAll_iff, List.forall_mem_map]
    exact each
  induction h with
  | extents field term | counts field term => exact readable_trimmed (ordered.postings field term)
  | lengths field => exact readable_trimmed (ordered.lengths field)
  | prior name =>
    refine readable_trimmed ?_
    rw [Ascending, Array.toList_map]
    exact List.pairwise_map.2 (ordered.prior name)
  | window _ _ _ _ _ _ ih | synonym _ _ _ _ ih | synonymCounts _ _ _ _ ih
  | boolean _ _ _ _ _ ih => exact all ih
  | combine _ _ _ _ _ _ _ _ ih => exact all ih
  | passageFilter _ _ _ ih | passageLength _ _ _ ih | log _ _ _ ih => exact ih
  | scale _ _ _ _ ih => exact ih
  | scorer form parameters side counted term field bounds _ _ _ _ ih ih' =>
    unfold Workshop.scorer
    split
    · exact ⟨ih, ih'⟩
    · exact ⟨ih, ih'⟩
  | require _ _ _ _ _ ih ih' => exact ⟨ih, ih'⟩

section Reading

variable {ctx : Context}

theorem gather_trim {children : List (Plan α)}
    (same : ∀ child ∈ children, ∀ p, child.trim.extentsAt p ctx = child.extentsAt p ctx)
    (parts : List Position) : gather (trimAll children) parts ctx = gather children parts ctx := by
  induction children generalizing parts with
  | nil => rfl
  | cons child children ih =>
    obtain ⟨here, others⟩ := List.forall_mem_cons.1 same
    cases parts with
    | nil => rfl
    | cons p parts => rw [trimAll, gather, gather, here, ih others]

theorem extentsAt_trim (plan : Plan α) (notDone : ctx.document ≠ terminated) (p : Position) :
    plan.trim.extentsAt p ctx = plan.extentsAt p ctx := by
  induction plan generalizing p with
  | extents postings => rw [trim, extentsAt, extentsAt, entryAt_trimmed _ _ notDone]
  | synonym children ih => rw [trim, extentsAt, extentsAt, gather_trim ih]
  | passageFilter child ih => rw [trim, extentsAt, extentsAt, ih]
  | _ => rfl

theorem extentsOfEach_trim (children : List (Plan α)) (notDone : ctx.document ≠ terminated)
    (parts : List Position) :
    extentsOfEach (trimAll children) parts ctx = extentsOfEach children parts ctx := by
  induction children generalizing parts with
  | nil => rfl
  | cons child children ih =>
    cases parts with
    | nil => rfl
    | cons p parts => rw [trimAll, extentsOfEach, extentsOfEach, extentsAt_trim child notDone, ih]

theorem countsAt_trim {children : List (Plan α)}
    (same : ∀ child ∈ children, ∀ p, child.trim.countAt p ctx = child.countAt p ctx)
    (parts : List Position) :
    countsAt (trimAll children) parts ctx = countsAt children parts ctx := by
  induction children generalizing parts with
  | nil => rfl
  | cons child children ih =>
    obtain ⟨here, others⟩ := List.forall_mem_cons.1 same
    cases parts with
    | nil => rfl
    | cons p parts => rw [trimAll, countsAt, countsAt, here, ih others]

theorem countAt_trim (plan : Plan α) (notDone : ctx.document ≠ terminated) (p : Position) :
    plan.trim.countAt p ctx = plan.countAt p ctx := by
  have byExtents := extentsAt_trim plan notDone p
  induction plan generalizing p with
  | counts postings => rw [trim, countAt, countAt, entryAt_trimmed _ _ notDone]
  | synonymCounts children ih =>
    rw [trim, countAt, countAt, countsAt_trim fun child member p =>
      ih child member p (extentsAt_trim child notDone p)]
  | _ =>
    simp only [trim, countAt] at byExtents ⊢
    rw [byExtents]

theorem lengthAt_trim (plan : Plan α) (notDone : ctx.document ≠ terminated) (p : Position) :
    plan.trim.lengthAt p ctx = plan.lengthAt p ctx := by
  induction plan with
  | lengths entries => rw [trim, lengthAt, lengthAt, entryAt_trimmed _ _ notDone]
  | passageLength child ih => rw [trim, lengthAt, lengthAt, ih]
  | _ => rfl

theorem spansOfEach_trim {children : List (Plan α)}
    (same : ∀ child ∈ children, child.trim.spansIn ctx = child.spansIn ctx) :
    spansOfEach (trimAll children) ctx = spansOfEach children ctx := by
  rw [trimAll_eq, spansOfEach_eq, spansOfEach_eq, List.map_map]
  exact List.map_congr_left same

theorem spansIn_trim (plan : Plan α) (notDone : ctx.document ≠ terminated) :
    plan.trim.spansIn ctx = plan.spansIn ctx := by
  induction plan generalizing ctx with
  | extents postings => rw [trim, spansIn, spansIn, find?_trimmed _ _ notDone]
  | window order width children ih =>
    have whole : (Context.whole ctx.document).document ≠ terminated := notDone
    rw [trim, spansIn, spansIn, spansOfEach_trim fun child member => ih child member whole]
  | synonym children ih =>
    rw [trim, spansIn, spansIn, spansOfEach_trim fun child member => ih child member notDone]
  | passageFilter child ih => rw [trim, spansIn, spansIn, ih notDone]
  | _ => rfl

theorem lengthIn_trim (plan : Plan α) (notDone : ctx.document ≠ terminated) :
    plan.trim.lengthIn ctx = plan.lengthIn ctx := by
  induction plan with
  | lengths entries => rw [trim, lengthIn, lengthIn, find?_trimmed _ _ notDone]
  | passageLength child ih => rw [trim, lengthIn, lengthIn, ih]
  | _ => rfl

end Reading

section Moving

theorem movers_trim {children : List (Plan α)}
    (same : ∀ child ∈ children, child.trim.advance = child.advance) :
    movers (trimAll children) = movers children := by
  rw [trimAll_eq, movers_eq, movers_eq, List.map_map]
  exact List.map_congr_left same

theorem seek_congr {movers : List Mover} {order : List Nat}
    {read read' : DocId → List Position → List Span}
    (same : ∀ d parts, d ≠ terminated → read' d parts = read d parts) (d : DocId)
    (parts : List Position) : seek movers order read' d parts = seek movers order read d parts := by
  fun_induction seek movers order read d parts with
  | case1 => rw [seek, dif_pos rfl]
  | case2 d parts notDone found empty result ih =>
    rw [seek, dif_neg notDone, same d parts notDone]
    dsimp only
    rw [if_pos empty, ih]
  | case3 d parts notDone found some =>
    rw [seek, dif_neg notDone, same d parts notDone]
    exact if_neg some

theorem moveWindow_trim {children : List (Plan α)}
    (same : ∀ child ∈ children, child.trim.advance = child.advance) (order : WindowOrder)
    (width : Nat) (turns : List Nat) (target : DocId) (parts : List Position) :
    moveWindow (movers (trimAll children)) (findWindows order width (trimAll children)) turns target
        parts =
      moveWindow (movers children) (findWindows order width children) turns target parts := by
  have reads (d : DocId) (parts : List Position) (notDone : d ≠ terminated) :
      findWindows order width (trimAll children) d parts =
        findWindows order width children d parts := by
    have whole : (Context.whole d).document ≠ terminated := notDone
    rw [findWindows, findWindows, extentsOfEach_trim children whole]
  unfold moveWindow
  rw [movers_trim same]
  dsimp only
  rw [seek_congr reads]

theorem advance_trim (plan : Plan α) : plan.trim.advance = plan.advance := by
  funext p target
  induction plan generalizing p target with
  | extents | counts | lengths | prior => exact advanceLeaf_trimmed _ _ _ _
  | window order width children ih =>
    have same child (member : child ∈ children) : child.trim.advance = child.advance := by
      funext p target
      exact ih child member p target
    rw [trim, advance, advance, moveWindow_trim same]
  | synonym children ih | synonymCounts children ih | combine _ _ children _ ih
  | boolean _ children ih =>
    have same child (member : child ∈ children) : child.trim.advance = child.advance := by
      funext p target
      exact ih child member p target
    rw [trim, advance, advance, movers_trim same]
  | passageFilter child ih | passageLength child ih | log child ih => exact ih p target
  | scale weight child ih => exact ih p target
  | dirichlet side counted model _ ih | bm25 side counted model _ ih =>
    rw [trim, advance, advance, ih]
  | require filter scorer ih ih' =>
    have same : filter.trim.advance = filter.advance := by
      funext p target
      exact ih p target
    have same' : scorer.trim.advance = scorer.advance := by
      funext p target
      exact ih' p target
    rw [trim, advance, advance, same, same']

end Moving

section Start

theorem allStand_starts_trim {children : List (Plan α)}
    (h : ∀ child ∈ children, child.trim.Stands 0 child.start) :
    AllStand Stands (trimAll children) 0 (starts children) := by
  rw [starts_eq, trimAll_eq, AllStand, List.forall₂_map_left_iff, List.forall₂_map_right_iff,
    List.forall₂_same]
  exact h

theorem covers_start_trim (children : List (Plan α)) :
    Covers (byCost (costs children (starts children))) (trimAll children) := by
  refine covers_byCost ?_
  rw [trimAll_eq, List.length_map]
  exact costs_length (length_starts children)

theorem standsOn_startGroup_trim {children : List (Plan α)}
    (walkable : WalkableAll (trimAll children))
    (h : ∀ child ∈ children, child.trim.Stands 0 child.start) (mode : Mode) :
    StandsOn mode (trimAll children) (StandAll (trimAll children)) (StandSome (trimAll children)) 0
      (startGroup mode children (starts children)) := by
  have follows child (member : child ∈ trimAll children) :=
    follows child (walkableAll_iff.1 walkable child member)
  rw [standAll_eq, standSome_eq, startGroup, ← movers_trim fun child _ => advance_trim child]
  exact standsOn_moveGroup follows mode (fun _ => covers_start_trim children)
    (allStand_starts_trim h) (UInt32.le_refl 0)

theorem stands_start_trim (plan : Plan α) (h : plan.trim.Walkable) :
    plan.trim.Stands 0 plan.start := by
  have each {children : List (Plan α)} (walkable : WalkableAll (trimAll children)) :
      ∀ child ∈ children, child.trim.Walkable := by
    rw [trimAll_eq, walkableAll_iff, List.forall_mem_map] at walkable
    exact walkable
  induction plan with
  | extents | counts | lengths | prior =>
    rw [trim, start, ← leaf_trimmed]
    exact leafStands_start _ _
  | window order width children ih =>
    have all child (member : child ∈ trimAll children) :=
      faithful child (walkableAll_iff.1 h child member)
    have starts := allStand_starts_trim fun child member => ih child member (each h child member)
    rw [trim, Stands, standAll_eq, start, ← moveWindow_trim fun child _ => advance_trim child]
    exact windowStands_moveWindow all order width (covers_start_trim children) starts
      (UInt32.le_refl 0)
  | synonym children ih | synonymCounts children ih =>
    exact standsOn_startGroup_trim h
      (fun child member => ih child member (each h child member)) .any
  | combine method mode children weights ih =>
    exact standsOn_startGroup_trim h
      (fun child member => ih child member (each h child member)) mode
  | boolean mode children ih =>
    exact standsOn_startGroup_trim h
      (fun child member => ih child member (each h child member)) mode
  | passageFilter child ih | passageLength child ih | log child ih => exact ih h
  | scale weight child ih => exact ih h
  | dirichlet side counted model _ ih | bm25 side counted model _ ih => exact ⟨ih h.2, rfl⟩
  | require filter scorer ih ih' =>
    rw [trim, start, ← advance_trim scorer]
    exact stands_joinFilter (follows scorer.trim h.2) (ih h.1) fun _ => ⟨ih' h.2, UInt32.zero_le⟩

end Start

end Plan

namespace Cursor

open Plan

variable {α : Type}

theorem stands_along {c : Cursor α} (walkable : c.plan.trim.Walkable) {d : DocId}
    (h : Trails c.plan.trim.Stands d c.position) {targets : List DocId}
    (within : ∀ t ∈ targets, t ≤ d) :
    (c.along targets d).plan = c.plan ∧ c.plan.trim.Stands d (c.along targets d).position := by
  have f := follows c.plan.trim walkable
  rw [advance_trim] at f
  exact ⟨c.plan_along targets d, follows_along f h within⟩

/-- A cursor that is brought to a document reports of it what its plan holds. -/
theorem reads_along [Arithmetic α] {w : Workshop} (ordered : w.collection.Ordered) {plan : Plan α}
    (built : Built w plan) {d : DocId} (notDone : d ≠ terminated) {targets : List DocId}
    (within : ∀ t ∈ targets, t ≤ d) (passage : Option Span) :
    ((ofPlan plan).along targets d).extentsAt ⟨d, passage⟩ = plan.spansIn ⟨d, passage⟩ ∧
      ((ofPlan plan).along targets d).lengthAt ⟨d, passage⟩ = plan.lengthIn ⟨d, passage⟩ := by
  have walkable := built.walkable_trim ordered
  have starts : Trails plan.trim.Stands d (ofPlan plan).position :=
    ⟨0, UInt32.zero_le, stands_start_trim plan walkable⟩
  obtain ⟨same, here⟩ := stands_along (c := ofPlan plan) walkable starts within
  have same : ((ofPlan plan).along targets d).plan = plan := same
  have here : plan.trim.Stands d ((ofPlan plan).along targets d).position := here
  have le := ((follows plan.trim walkable).first here).le
  have here' : (⟨d, passage⟩ : Context).document ≠ terminated := notDone
  rw [extentsAt, lengthAt, same]
  refine ⟨?_, ?_⟩
  · rw [← spansIn_trim plan here', ← extentsAt_trim plan here']
    exact (faithful plan.trim walkable).reads here (UInt32.le_refl d) le here'
  · rw [← lengthIn_trim plan here', ← lengthAt_trim plan here']
    exact plan.trim.lengthAt_eq walkable here (UInt32.le_refl d) le

end Cursor

end RankedRetrieval
