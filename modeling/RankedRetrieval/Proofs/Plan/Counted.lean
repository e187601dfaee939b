import RankedRetrieval.Proofs.Plan.Trimmed
import RankedRetrieval.Proofs.Span.Arranged

set_option autoImplicit false

namespace RankedRetrieval

theorem restrict_subperm {spans spans' : List Span} (passage : Option Span)
    (h : spans.Subperm spans') : (restrict passage spans).Subperm (restrict passage spans') := by
  cases passage with
  | none => exact h
  | some p => exact h.filter p.contains

theorem restrict_sublist (passage : Option Span) (spans : List Span) :
    (restrict passage spans).Sublist spans := by
  cases passage with
  | none => exact List.Sublist.refl spans
  | some p => exact List.filter_sublist

namespace Plan

open Axis

variable {α : Type} {children : List (Plan α)} {ctx : Context} {t : DocId}

theorem entryAt_cases {β : Type} {key : β → DocId} {entries : Array β}
    (ascending : Ascending key entries) {p : Position} (h : LeafStands key entries t p)
    (d : DocId) : entryAt key entries p d = none ∨
      entryAt key entries p d = entries.find? fun e => key e = d := by
  by_cases passed : d < t
  · exact .inl (entryAt_of_away h (.inr passed))
  by_cases reached : d ≤ p.document
  · exact .inr (entryAt_eq_find? ascending h (UInt32.not_lt.1 passed) reached)
  · obtain ⟨i, rfl, _⟩ := h
    refine .inl (Option.filter_eq_none_iff.2 fun e there => ?_)
    have inside : i < entries.size := (Array.getElem?_eq_some_iff.1 there).1
    have same : entries[i] = e := (Array.getElem?_eq_some_iff.1 there).2
    rw [document_leaf_of_lt key entries inside, same] at reached
    have behind : key e ≠ d := fun on => reached (UInt32.le_of_eq on.symm)
    simpa using behind

section Occurrences

theorem gather_subset {parts : List Position} (h : AllStand Stands children t parts)
    (each : ∀ child ∈ children, ∀ p, child.Stands t p →
      (child.extentsAt p ctx).Subperm (child.spansIn ctx)) :
    gather children parts ctx ⊆ (spansOfEach children ctx).flatten := by
  induction h with
  | nil => exact List.Subset.refl _
  | @cons child p children parts first _ ih =>
    obtain ⟨here, others⟩ := List.forall_mem_cons.1 each
    rw [gather, spansOfEach, List.flatten_cons]
    refine List.append_subset.2 ⟨?_, List.subset_append_of_subset_right _ (ih others)⟩
    split
    · exact List.subset_append_of_subset_left _ (here p first).subset
    · exact List.nil_subset _

theorem subperm_extentsAt (plan : Plan α) (walkable : plan.Walkable)
    (notDone : ctx.document ≠ terminated) {p : Position} (here : plan.Stands t p) :
    (plan.extentsAt p ctx).Subperm (plan.spansIn ctx) := by
  induction plan generalizing p with
  | extents postings =>
    rw [extentsAt, spansIn]
    rcases entryAt_cases walkable.1 here ctx.document with nothing | same
    · rw [nothing]
      exact List.nil_subperm
    · rw [same]
  | window order width children _ =>
    rw [extentsAt]
    split
    · rename_i on
      rw [here.2, foundAt, ← on, if_neg notDone]
      exact List.Subperm.refl _
    · exact List.nil_subperm
  | synonym children ih =>
    rw [Stands, standAll_eq] at here
    rw [extentsAt, spansIn]
    refine Span.subperm_arrange (gather_subset here.2 fun child member p standing => ?_)
    exact ih child member (walkableAll_iff.1 walkable child member) standing
  | passageFilter child ih => exact restrict_subperm ctx.passage (ih walkable here)
  | _ => exact List.nil_subperm

theorem subperm_spansIn (plan : Plan α) (ctx : Context) :
    (plan.spansIn ctx).Subperm (plan.spansIn (.whole ctx.document)) := by
  induction plan with
  | synonym children ih =>
    refine Span.subperm_arrange fun s member => ?_
    obtain ⟨spans, listed, inside⟩ := List.mem_flatten.1 member
    obtain ⟨child, among, rfl⟩ := List.mem_map.1 (spansOfEach_eq children ctx ▸ listed)
    exact List.mem_flatten.2
      ⟨_, mem_spansOfEach (.whole ctx.document) among, (ih child among).subset inside⟩
  | passageFilter child ih => exact (restrict_sublist ctx.passage _).subperm.trans ih
  | _ => exact List.Subperm.refl _

end Occurrences

section Counts

theorem countsAt_le {parts : List Position} (h : AllStand Stands children t parts)
    (each : ∀ child ∈ children, ∀ p, child.Stands t p → child.countAt p ctx ≤ child.totalIn ctx) :
    countsAt children parts ctx ≤ totalOfAll children ctx := by
  induction h with
  | nil => exact Nat.le_refl _
  | @cons child p children parts first _ ih =>
    obtain ⟨here, others⟩ := List.forall_mem_cons.1 each
    rw [countsAt, totalOfAll]
    exact (wrapped_le _).trans (Nat.add_le_add (here p first) (ih others))

theorem countAt_le (plan : Plan α) (walkable : plan.Walkable) (notDone : ctx.document ≠ terminated)
    {p : Position} (here : plan.Stands t p) : plan.countAt p ctx ≤ plan.totalIn ctx := by
  have fewer := (plan.subperm_extentsAt walkable notDone here).length_le
  induction plan generalizing p with
  | counts postings =>
    rw [countAt, totalIn]
    refine (wrapped_le _).trans ?_
    rcases entryAt_cases walkable.1 here ctx.document with nothing | same
    · rw [nothing]
      exact Nat.zero_le _
    · rw [same]
  | synonymCounts children ih =>
    rw [Stands, standAll_eq] at here
    rw [countAt, totalIn]
    refine countsAt_le here.2 fun child member p standing => ?_
    have walkable := walkableAll_iff.1 walkable child member
    exact ih child member walkable standing
      (child.subperm_extentsAt walkable notDone standing).length_le
  | _ => exact (wrapped_le _).trans fewer

theorem totalOfAll_le {ctx' : Context}
    (each : ∀ child ∈ children, child.totalIn ctx ≤ child.totalIn ctx') :
    totalOfAll children ctx ≤ totalOfAll children ctx' := by
  induction children with
  | nil => exact Nat.le_refl _
  | cons child children ih =>
    obtain ⟨here, others⟩ := List.forall_mem_cons.1 each
    rw [totalOfAll, totalOfAll]
    exact Nat.add_le_add here (ih others)

theorem totalIn_le_whole (plan : Plan α) (ctx : Context) :
    plan.totalIn ctx ≤ plan.totalIn (.whole ctx.document) := by
  have fewer := (plan.subperm_spansIn ctx).length_le
  induction plan with
  | counts postings => exact Nat.le_refl _
  | synonymCounts children ih =>
    exact totalOfAll_le fun child member =>
      ih child member (child.subperm_spansIn ctx).length_le
  | _ => exact fewer

theorem totalOfAll_eq_zero
    (each : ∀ child ∈ children, child.totalIn ctx = 0) : totalOfAll children ctx = 0 := by
  induction children with
  | nil => rfl
  | cons child children ih =>
    obtain ⟨here, others⟩ := List.forall_mem_cons.1 each
    rw [totalOfAll, here, ih others]

theorem totalIn_of_not_has (plan : Plan α) (h : plan.has ctx.document = false) :
    plan.totalIn ctx = 0 := by
  have nothing := plan.spansIn_of_not_has ctx h
  induction plan with
  | counts postings =>
    rw [totalIn, find?_of_not_listed h]
    rfl
  | synonymCounts children ih =>
    rw [has, inAny_eq, hasAny, List.any_eq_false] at h
    refine totalOfAll_eq_zero fun child member => ?_
    have lacks := Bool.eq_false_iff.2 (h child member)
    exact ih child member lacks (child.spansIn_of_not_has ctx lacks)
  | _ =>
    simp only [totalIn]
    rw [nothing, List.length_nil]

theorem has_of_totalIn_pos {plan : Plan α} (some : 0 < plan.totalIn ctx) :
    plan.has ctx.document = true := by
  refine Bool.not_eq_false _ ▸ fun lacks => ?_
  rw [plan.totalIn_of_not_has lacks] at some
  exact absurd some (Nat.lt_irrefl 0)

theorem has_of_countIn_pos {plan : Plan α} (some : 0 < plan.countIn ctx) :
    plan.has ctx.document = true :=
  has_of_totalIn_pos (Nat.lt_of_lt_of_le some (plan.countIn_le_totalIn ctx))

theorem totalOfAll_trim
    (same : ∀ child ∈ children, child.trim.totalIn ctx = child.totalIn ctx) :
    totalOfAll (trimAll children) ctx = totalOfAll children ctx := by
  induction children with
  | nil => rfl
  | cons child children ih =>
    obtain ⟨here, others⟩ := List.forall_mem_cons.1 same
    rw [trimAll, totalOfAll, totalOfAll, here, ih others]

theorem totalIn_trim (plan : Plan α) (notDone : ctx.document ≠ terminated) :
    plan.trim.totalIn ctx = plan.totalIn ctx := by
  have bySpans := plan.spansIn_trim notDone
  induction plan with
  | counts postings => rw [trim, totalIn, totalIn, find?_trimmed _ _ notDone]
  | synonymCounts children ih =>
    exact totalOfAll_trim fun child member => ih child member (child.spansIn_trim notDone)
  | _ =>
    simp only [trim, totalIn] at bySpans ⊢
    rw [bySpans]

theorem countIn_trim (plan : Plan α) (notDone : ctx.document ≠ terminated) :
    plan.trim.countIn ctx = plan.countIn ctx :=
  congrArg wrapped (plan.totalIn_trim notDone)

end Counts

end Plan

end RankedRetrieval
