import RankedRetrieval.Proofs.Axis.Guarded
import RankedRetrieval.Proofs.Plan.Built

set_option autoImplicit false

namespace RankedRetrieval

namespace Plan

open Axis

variable {α : Type}

/-- The places of a plan that has been moved any number of times. -/
inductive Visited (plan : Plan α) : Position → Prop
  | start : Visited plan plan.start
  | moved {p : Position} (h : Visited plan p) (target : DocId) :
      Visited plan (plan.advance p target)

abbrev VisitedEach : List (Plan α) → List Position → Prop :=
  List.Forall₂ fun child p => child.Visited p

section Parts

variable {children : List (Plan α)} {parts : List Position} {p : Position}

theorem visited_starts (children : List (Plan α)) : VisitedEach children (starts children) := by
  rw [starts_eq]
  exact List.forall₂_map_right_iff.2 (List.forall₂_same.2 fun child _ => .start)

theorem visited_settle (h : VisitedEach children parts) (mode : Mode) (order : List Nat)
    (target : DocId) :
    VisitedEach children (settle mode (movers children) order target parts).2 := by
  rw [movers_eq]
  exact forall₂_settle (.always fun _ _ _ target here => here.moved target) mode order target h

theorem visited_seek (h : VisitedEach children parts) (order : List Nat)
    (read : DocId → List Position → List Span) (d : DocId) :
    VisitedEach children (seek (movers children) order read d parts).parts := by
  rw [movers_eq]
  exact forall₂_seek (fun _ _ _ target here => here.moved target) order read d h

/-- What a search comes to rest with was read where the children have been moved to. -/
theorem found_seek (h : VisitedEach children parts) (order : List Nat)
    (read : DocId → List Position → List Span) (d : DocId) :
    (seek (movers children) order read d parts).found = [] ∨
      ∃ e parts', VisitedEach children parts' ∧
        (seek (movers children) order read d parts).found = read e parts' := by
  fun_induction seek (movers children) order read d parts with
  | case1 => exact .inl rfl
  | case2 d parts notEnd found empty result ih => exact ih (visited_settle h .all order _)
  | case3 d parts => exact .inr ⟨d, parts, h, rfl⟩

theorem visited_moveGroup (h : VisitedEach children parts) (mode : Mode) (order : List Nat)
    (target : DocId) :
    VisitedEach children (moveGroup mode (movers children) order target parts).parts :=
  visited_settle h mode order target

theorem visited_moveWindow (h : VisitedEach children parts)
    (read : DocId → List Position → List Span) (order : List Nat) (target : DocId) :
    VisitedEach children (moveWindow (movers children) read order target parts).parts ∧
      ((moveWindow (movers children) read order target parts).found = [] ∨
        ∃ e parts', VisitedEach children parts' ∧
          (moveWindow (movers children) read order target parts).found = read e parts') := by
  have settled := visited_settle h .all order target
  exact ⟨visited_seek settled order read _, found_seek settled order read _⟩

/-- The windows that are shown were found where the children have been moved to. -/
theorem visited_window {order : WindowOrder} {width : Nat}
    (h : (window order width children).Visited p) :
    VisitedEach children p.parts ∧
      (p.found = [] ∨ ∃ d parts, VisitedEach children parts ∧
        p.found = findWindows order width children d parts) := by
  induction h with
  | start => exact visited_moveWindow (visited_starts children) _ _ _
  | moved _ target ih =>
    rw [advance]
    split
    · exact ih
    · exact visited_moveWindow ih.1 _ _ _

theorem visited_synonym (h : (synonym children).Visited p) : VisitedEach children p.parts := by
  induction h with
  | start => exact visited_moveGroup (visited_starts children) .any _ 0
  | moved _ target ih =>
    rw [advance]
    split
    · exact ih
    · exact visited_moveGroup ih .any _ target

theorem visited_passageFilter {child : Plan α} (h : (passageFilter child).Visited p) :
    child.Visited p := by
  induction h with
  | start => exact .start
  | moved _ target ih => exact ih.moved target

end Parts

/-- What holds of the lists of a collection, and of what is made of such lists. -/
structure Hereditary (c : Collection) (good : List Span → Prop) : Prop where
  nil : good []
  postings : ∀ field term, ∀ posting ∈ c.postings field term, good posting.spans
  arranged : ∀ lists : List (List Span), (∀ list ∈ lists, good list) →
    good (Span.arrange lists.flatten)
  restricted : ∀ passage spans, good spans → good (restrict passage spans)
  windows : ∀ order width lists, (∀ list ∈ lists, good list) → good (windows order width lists)

namespace Hereditary

variable {good : List Span → Prop} {children : List (Plan α)} {parts : List Position}

theorem forall_extentsOfEach
    (each : ∀ child ∈ children, ∀ p ctx, child.Visited p → good (child.extentsAt p ctx))
    (h : VisitedEach children parts) (ctx : Context) :
    ∀ list ∈ extentsOfEach children parts ctx, good list := by
  induction h with
  | nil => exact List.forall_mem_nil _
  | cons here _ ih =>
    obtain ⟨first, others⟩ := List.forall_mem_cons.1 each
    exact List.forall_mem_cons.2 ⟨first _ ctx here, ih others⟩

theorem exists_gather (nil : good [])
    (each : ∀ child ∈ children, ∀ p ctx, child.Visited p → good (child.extentsAt p ctx))
    (h : VisitedEach children parts) (ctx : Context) :
    ∃ lists : List (List Span), gather children parts ctx = lists.flatten ∧
      ∀ list ∈ lists, good list := by
  induction h with
  | nil => exact ⟨[], rfl, List.forall_mem_nil _⟩
  | @cons child p children parts here _ ih =>
    obtain ⟨first, others⟩ := List.forall_mem_cons.1 each
    obtain ⟨lists, gathered, all⟩ := ih others
    refine ⟨_ :: lists, congrArg _ gathered, List.forall_mem_cons.2 ⟨?_, all⟩⟩
    split
    · exact first p ctx here
    · exact nil

variable [Arithmetic α] {w : Workshop} {plan : Plan α}

theorem extentsAt (kept : Hereditary w.collection good) (built : Built w plan) {p : Position}
    (visited : plan.Visited p) (ctx : Context) : good (plan.extentsAt p ctx) := by
  induction built generalizing p ctx with
  | extents field term =>
    rw [Plan.extentsAt, entryAt]
    cases found : ((w.collection.postings field term)[p.offset]?).filter
        fun posting => posting.document = ctx.document with
    | none => exact kept.nil
    | some posting =>
      have member := Array.mem_of_getElem? (Option.filter_eq_some_iff.1 found).1
      exact kept.postings field term posting member
  | window order width children _ _ _ ih =>
    rw [Plan.extentsAt]
    split
    · rcases (visited_window visited).2 with none | ⟨d, parts, each, found⟩
      · exact none ▸ kept.nil
      · rw [found]
        exact kept.windows order width _
          (forall_extentsOfEach (fun child member _ ctx here => ih child member here ctx) each _)
    · exact kept.nil
  | synonym children _ _ _ ih =>
    obtain ⟨lists, gathered, all⟩ := exists_gather kept.nil
      (fun child member _ ctx here => ih child member here ctx) (visited_synonym visited) ctx
    rw [Plan.extentsAt, gathered]
    exact kept.arranged lists all
  | passageFilter child _ _ ih =>
    exact kept.restricted ctx.passage _ (ih (visited_passageFilter visited) ctx)
  | scorer form parameters side counted term field bounds =>
    unfold Workshop.scorer
    split <;> exact kept.nil
  | prior name => exact kept.nil
  | _ => exact kept.nil

end Hereditary

end Plan

end RankedRetrieval
