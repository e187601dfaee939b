import RankedRetrieval.Proofs.Plan.Built
import RankedRetrieval.Proofs.Plan.Matched

set_option autoImplicit false

/-!
# The movement of cursors

Whatever moves a cursor has made, the next one brings it to the first document of its query that is
not before the target, or is refused if the target is behind it (`moves_of_build`).
-/

namespace RankedRetrieval

open Plan Axis

variable {α : Type}

namespace Cursor

def tryMove (c : Cursor α) (target : DocId) : Cursor α :=
  match c.moveTo target with
  | .ok moved => moved
  | .error _ => c

/-- What a move to a target does to a cursor over a set of documents. -/
structure MovesTo (has : DocId → Bool) (c : Cursor α) (target : DocId) : Prop where
  refused : target < c.document →
    c.moveTo target = .error (.invalidMove c.plan.moverName c.document target) ∧
      c.tryMove target = c
  done : c.document ≤ target → ∃ moved, c.moveTo target = .ok moved ∧ c.tryMove target = moved ∧
    moved.plan = c.plan ∧ IsFirst has target moved.document

/-- A cursor that stands where its plan comes to stand for some target. -/
def Standing (c : Cursor α) : Prop := ∃ t, c.plan.Stands t c.position

theorem standing_ofPlan {plan : Plan α} (h : plan.Walkable) : (ofPlan plan).Standing :=
  ⟨0, stands_start plan h⟩

theorem moveTo_of_lt {c : Cursor α} {target : DocId} (h : target < c.document) :
    c.moveTo target = .error (.invalidMove c.plan.moverName c.document target) := if_pos h

theorem moveTo_of_le {c : Cursor α} {target : DocId} (h : c.document ≤ target) :
    c.moveTo target = .ok { c with position := c.plan.advance c.position target } :=
  if_neg (UInt32.not_lt.2 h)

theorem moveTo_next (c : Cursor α) :
    c.moveTo (next c.document) =
      .ok { c with position := c.plan.advance c.position (next c.document) } := by
  refine moveTo_of_le ?_
  by_cases done : c.document = terminated
  · rw [done]
    exact UInt32.le_refl _
  · exact UInt32.le_of_lt (lt_next done)

theorem stands_advance {c : Cursor α} (walkable : c.plan.Walkable) (standing : c.Standing)
    {target : DocId} (h : c.document ≤ target) :
    c.plan.Stands target (c.plan.advance c.position target) := by
  obtain ⟨t, here⟩ := standing
  have f := follows c.plan walkable
  exact f.move here (UInt32.le_trans (f.first here).le h) h

theorem movesTo_of_standing {c : Cursor α} (walkable : c.plan.Walkable) (standing : c.Standing)
    (target : DocId) : c.MovesTo c.plan.has target where
  refused h := by
    have refused := moveTo_of_lt h
    refine ⟨refused, ?_⟩
    rw [tryMove, refused]
  done h := by
    have moved := moveTo_of_le h
    refine ⟨_, moved, ?_, rfl, (follows c.plan walkable).first (stands_advance walkable standing h)⟩
    rw [tryMove, moved]

theorem plan_tryMove (c : Cursor α) (target : DocId) : (c.tryMove target).plan = c.plan := by
  by_cases back : target < c.document
  · rw [tryMove, moveTo_of_lt back]
  · rw [tryMove, moveTo_of_le (UInt32.not_lt.1 back)]

theorem standing_tryMove {c : Cursor α} (walkable : c.plan.Walkable) (standing : c.Standing)
    (target : DocId) : (c.tryMove target).Standing := by
  by_cases back : target < c.document
  · rw [tryMove, moveTo_of_lt back]
    exact standing
  · rw [tryMove, moveTo_of_le (UInt32.not_lt.1 back)]
    exact ⟨target, stands_advance walkable standing (UInt32.not_lt.1 back)⟩

theorem standing_moves {c : Cursor α} (walkable : c.plan.Walkable) (standing : c.Standing)
    (targets : List DocId) :
    (targets.foldl tryMove c).plan = c.plan ∧ (targets.foldl tryMove c).Standing := by
  induction targets generalizing c with
  | nil => exact ⟨rfl, standing⟩
  | cons target targets ih =>
    have same := c.plan_tryMove target
    have next := standing_tryMove walkable standing target
    obtain ⟨plan, there⟩ := ih (same ▸ walkable) next
    exact ⟨plan.trans same, there⟩

/-- A cursor starts on the first document of its query, and after any moves, refused ones among
them, the next move does what it should. -/
theorem moves_of_build [Arithmetic α] (steps : List DraftStep) (w : Workshop) (q : Query)
    (plan : Plan α) (collected : w.collection = .ofSteps steps)
    (below : w.collection.BelowEnd) (built : w.build q = .ok plan) :
    IsFirst (w.matched q) 0 (ofPlan plan).document ∧
      ∀ (targets : List DocId) (target : DocId),
        (targets.foldl tryMove (ofPlan plan)).MovesTo (w.matched q) target := by
  rw [← funext (Workshop.has_of_build built)]
  have ordered : w.collection.Ordered := collected ▸ Collection.ordered_ofSteps steps
  have walkable := (Workshop.built_of_build w q built).walkable ordered below
  refine ⟨(follows plan walkable).first (stands_start plan walkable), ?_⟩
  intro targets target
  obtain ⟨same, standing⟩ := standing_moves (c := ofPlan plan) walkable
    (standing_ofPlan walkable) targets
  have same : (targets.foldl tryMove (ofPlan plan)).plan = plan := same
  have moves := movesTo_of_standing (same.symm ▸ walkable) standing target
  rw [same] at moves
  exact moves

section Example

def twoPriors : List DraftStep :=
  [.prior "x" 3 2.0, .prior "x" 5 1.0, .prior "y" 1 4.0, .prior "y" 3 8.0]

def bothPriors : Query :=
  .node "combine" (.single "mode" (.string "and"))
    [.node "prior" (.single "name" (.string "x")) [],
      .node "prior" (.single "name" (.string "y")) []]

def priorWorkshop : Workshop :=
  { collection := .ofSteps twoPriors, vocabulary := .builtIn, levels := [] }

/-- The cursor of both scores starts on document three, and no move finds another. -/
theorem moves_of_bothPriors : ∃ plan : Plan Float, priorWorkshop.build bothPriors = .ok plan ∧
    (priorWorkshop.matched bothPriors 3 = true ∧ priorWorkshop.matched bothPriors 1 = false ∧
      priorWorkshop.matched bothPriors 5 = false) ∧
    IsFirst (priorWorkshop.matched bothPriors) 0 (ofPlan plan).document ∧
      ∀ (targets : List DocId) (target : DocId),
        (targets.foldl tryMove (ofPlan plan)).MovesTo (priorWorkshop.matched bothPriors)
          target := by
  have some : (priorWorkshop.build (α := Float) bothPriors).isOk := by decide +kernel
  cases built : priorWorkshop.build (α := Float) bothPriors with
  | error e =>
    rw [built] at some
    cases some
  | ok plan =>
    refine ⟨plan, rfl, by decide +kernel, ?_⟩
    refine moves_of_build twoPriors priorWorkshop bothPriors plan rfl ?_ built
    exact Collection.belowEnd_ofSteps (by decide)

end Example

end Cursor

end RankedRetrieval
