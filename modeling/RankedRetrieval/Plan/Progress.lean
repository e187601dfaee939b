import RankedRetrieval.Plan.Cursor

set_option autoImplicit false

namespace RankedRetrieval

namespace Axis

theorem le_catchUp {move : Mover} (forward : ∀ p target, target ≤ (move p target).document)
    (p : Position) (target : DocId) : target ≤ (catchUp move p target).document := by
  unfold catchUp
  split
  · exact forward p target
  · exact UInt32.not_lt.1 ‹_›

theorem le_earliest {target : DocId} {parts : List Position}
    (h : ∀ p ∈ parts, target ≤ p.document) : target ≤ earliest parts := by
  induction parts with
  | nil => exact le_terminated _
  | cons p rest ih =>
    simp only [earliest]
    split
    · exact h p (by simp)
    · exact ih fun q hq => h q (by simp [hq])

theorem le_settle {movers : List Mover}
    (forward : ∀ move ∈ movers, ∀ p target, target ≤ (move p target).document) (mode : Mode)
    (order : List Nat) (target : DocId) (parts : List Position) :
    target ≤ (settle mode movers order target parts).1 := by
  cases mode with
  | all => exact le_settle_all movers order target parts
  | any =>
    refine le_earliest fun p hp => ?_
    obtain ⟨i, hi, rfl⟩ := List.mem_iff_getElem.1 hp
    simp only [List.getElem_zipWith]
    exact le_catchUp (forward _ (List.getElem_mem _)) _ _

end Axis

namespace Plan

open Axis

variable {α : Type}

theorem le_moveGroup {children : List (Plan α)}
    (forward : ∀ child ∈ children, ∀ p target, target ≤ (child.advance p target).document)
    (mode : Mode) (order : List Nat) (target : DocId) (parts : List Position) :
    target ≤ (moveGroup mode (movers children) order target parts).document := by
  rw [moveGroup, movers_eq]
  exact le_settle (List.forall_mem_map.2 forward) mode order target parts

theorem le_document_advance (plan : Plan α) (p : Position) (target : DocId) :
    target ≤ (plan.advance p target).document := by
  induction plan generalizing p target with
  | extents | counts | lengths | prior => exact le_advanceLeaf _ _ _ _
  | window order width children =>
    simp only [advance]
    split
    · exact UInt32.le_of_eq ‹_›
    · exact UInt32.le_trans (le_settle_all _ _ _ _) (le_seek _ _ _ _ _)
  | synonym children ih | synonymCounts children ih | combine method mode children weights ih
  | boolean mode children ih =>
    simp only [advance]
    split
    · exact UInt32.le_of_eq ‹_›
    · exact le_moveGroup ih _ _ _ _
  | passageFilter child ih | passageLength child ih | log child ih | scale weight child ih =>
    exact ih p target
  | dirichlet side counted model _ ih | bm25 side counted model _ ih => exact ih (p.part 1) target
  | require filter scorer ih => exact le_catchUp ih (p.part 0) target

variable [Arithmetic α]

theorem document_score (plan : Plan α) (p : Position) (ctx : Context) (delta : Option (Delta α)) :
    (plan.score p ctx delta).position.document = p.document := by
  cases plan with
  | log child => exact document_score child p ctx delta
  | scale weight child => exact document_score child p ctx delta
  | combine method mode children weights => cases method <;> rfl
  | require filter scorer =>
    simp only [score]
    split <;> rfl
  | bm25 side counted model =>
    simp only [score]
    split <;> rfl
  | _ => rfl

end Plan

namespace Cursor

variable {α : Type}

theorem le_document_of_moveTo {c moved : Cursor α} {target : DocId}
    (h : c.moveTo target = .ok moved) : target ≤ moved.document := by
  unfold moveTo at h
  split at h <;> cases h
  exact c.plan.le_document_advance c.position target

theorem document_score [Arithmetic α] (c : Cursor α) (ctx : Context) (delta : Option (Delta α)) :
    (c.score ctx delta).2.1.document = c.document :=
  c.plan.document_score c.position ctx delta

/-- Moving past the document of a cursor that has one shortens its way to the end. -/
theorem distance_of_moveTo_next {c moved : Cursor α} (notDone : c.document ≠ terminated)
    (h : c.moveTo (next c.document) = .ok moved) : distance moved.document < distance c.document :=
  distance_lt (UInt32.lt_of_lt_of_le (lt_next notDone) (le_document_of_moveTo h))

end Cursor

end RankedRetrieval
