import RankedRetrieval.Proofs.Plan.Moves
import RankedRetrieval.Proofs.Plan.Scored

set_option autoImplicit false

/-!
# Scores along different paths

A cursor may be brought to a document directly or by way of others. Its score of the document is
the same, unless a group that has to agree has run out: an alignment that fails leaves the children
where it happened to stop, and they are scored all the same (`score_along`,
`score_along_skipping`).
-/

namespace RankedRetrieval

namespace Plan

open Axis

variable {α : Type}

mutual

/-- The lists of lengths have not been read from since the start. -/
def Unread : Plan α → Position → Prop
  | .dirichlet side _ _, p => p.part 0 = side.start
  | .bm25 side _ _, p => p.part 0 = side.start
  | .combine _ _ children _, p => UnreadAll children p.parts
  | .log child, p => child.Unread p
  | .scale _ child, p => child.Unread p
  | .require _ scorer, p => scorer.Unread (p.part 1)
  | _, _ => True

def UnreadAll : List (Plan α) → List Position → Prop
  | [], parts => parts = []
  | _ :: _, [] => False
  | child :: children, p :: parts => child.Unread p ∧ UnreadAll children parts

end

theorem unreadAll_eq (children : List (Plan α)) :
    UnreadAll children = List.Forall₂ Unread children := by
  funext parts
  induction children generalizing parts with
  | nil => simp [UnreadAll]
  | cons child children ih =>
    cases parts with
    | nil => simp [UnreadAll]
    | cons p parts => rw [UnreadAll, ih, List.forall₂_cons]

theorem unread_joinFilter {scorer : Plan α} {filter side : Position}
    (keeps : ∀ p t, scorer.Unread p → scorer.Unread (scorer.advance p t))
    (h : scorer.Unread side) :
    scorer.Unread ((joinFilter scorer.advance filter side).part 1) := by
  change scorer.Unread (if filter.document = terminated then side
    else catchUp scorer.advance side filter.document)
  split
  · exact h
  · unfold catchUp
    split
    · exact keeps side _ h
    · exact h

theorem unread_advance (plan : Plan α) (p : Position) (t : DocId) (h : plan.Unread p) :
    plan.Unread (plan.advance p t) := by
  induction plan generalizing p t with
  | combine method mode children weights ih =>
    rw [advance]
    split
    · exact h
    · rw [Unread, unreadAll_eq] at h ⊢
      rw [moveGroup, movers_eq]
      exact forall₂_settle (.always ih) mode p.order t h
  | log child ih => exact ih p t h
  | scale weight child ih => exact ih p t h
  | require filter scorer _ ih => exact unread_joinFilter ih h
  | dirichlet => exact h
  | bm25 => exact h
  | _ => trivial

theorem unread_start (plan : Plan α) : plan.Unread plan.start := by
  induction plan with
  | combine method mode children weights ih =>
    have all : List.Forall₂ Unread children (starts children) := by
      rw [starts_eq, List.forall₂_map_right_iff, List.forall₂_same]
      exact ih
    rw [start, startGroup, Unread, unreadAll_eq, moveGroup, movers_eq]
    exact forall₂_settle (.always fun child _ => child.unread_advance) mode _ 0 all
  | log child ih => exact ih
  | scale weight child ih => exact ih
  | require filter scorer _ ih => exact unread_joinFilter scorer.unread_advance ih
  | dirichlet => rfl
  | bm25 => rfl
  | _ => trivial

mutual

/-- No part that contributes to the score has the document. -/
def silent : Plan α → DocId → Bool
  | .prior entries _, d => !listed Prod.fst entries d
  | .dirichlet _ counted _, d => !counted.has d
  | .bm25 _ counted _, d => !counted.has d
  | .combine _ _ children _, d => silentAll children d
  | .log child, d => child.silent d
  | .scale _ child, d => child.silent d
  | .require filter _, d => !filter.has d
  | _, _ => true

def silentAll : List (Plan α) → DocId → Bool
  | [], _ => true
  | child :: children, d => child.silent d && silentAll children d

end

mutual

/-- The place for the target `t` determines the score of `d`: no group that has to agree has run out
while one of its parts has `d`. -/
def Determined : Plan α → DocId → DocId → Prop
  | .combine _ .any children _, t, d => DeterminedAll children t d
  | .combine _ .all children _, t, d =>
    ∀ e, IsFirst (hasAll has children) t e →
      if e = terminated then silentAll children d = true else DeterminedAll children e d
  | .log child, t, d => child.Determined t d
  | .scale _ child, t, d => child.Determined t d
  | .require filter scorer, t, d => t = d → filter.has d = true → scorer.Determined d d
  | _, _, _ => True

def DeterminedAll : List (Plan α) → DocId → DocId → Prop
  | [], _, _ => True
  | child :: children, t, d => child.Determined t d ∧ DeterminedAll children t d

end

theorem silentAll_iff {children : List (Plan α)} {d : DocId} :
    silentAll children d = true ↔ ∀ child ∈ children, child.silent d = true := by
  induction children with
  | nil => simp [silentAll]
  | cons child children ih => rw [silentAll, Bool.and_eq_true, ih, List.forall_mem_cons]

theorem determinedAll_iff {children : List (Plan α)} {t d : DocId} :
    DeterminedAll children t d ↔ ∀ child ∈ children, child.Determined t d := by
  induction children with
  | nil => simp [DeterminedAll]
  | cons child children ih => rw [DeterminedAll, ih, List.forall_mem_cons]

section Coverage

mutual

/-- No group that contributes to the score has to agree. -/
def Disjunctive : Plan α → Prop
  | .combine _ .any children _ => DisjunctiveAll children
  | .combine _ .all _ _ => False
  | .log child => child.Disjunctive
  | .scale _ child => child.Disjunctive
  | .require _ scorer => scorer.Disjunctive
  | _ => True

def DisjunctiveAll : List (Plan α) → Prop
  | [] => True
  | child :: children => child.Disjunctive ∧ DisjunctiveAll children

end

theorem disjunctiveAll_iff {children : List (Plan α)} :
    DisjunctiveAll children ↔ ∀ child ∈ children, child.Disjunctive := by
  induction children with
  | nil => simp [DisjunctiveAll]
  | cons child children ih => rw [DisjunctiveAll, ih, List.forall_mem_cons]

theorem Disjunctive.determined {plan : Plan α} (h : plan.Disjunctive) (t d : DocId) :
    plan.Determined t d := by
  induction plan generalizing t with
  | combine method mode children weights ih =>
    cases mode with
    | any =>
      have apart := disjunctiveAll_iff.1 h
      exact determinedAll_iff.2 fun child member => ih child member (apart child member) t
    | all => exact h.elim
  | log child ih => exact ih h t
  | scale weight child ih => exact ih h t
  | require filter scorer _ ih => exact fun _ _ => ih h d
  | _ => trivial

end Coverage

section Values

variable [Arithmetic α] {children : List (Plan α)} {ctx : Context}

theorem value_scoreSum_congr {R : Plan α → Position → Prop}
    (same : ∀ child ∈ children, ∀ p q, R child p → R child q →
      (child.score p ctx none).value = (child.score q ctx none).value)
    {parts parts' : List Position} (h : List.Forall₂ R children parts)
    (h' : List.Forall₂ R children parts') (weights : List α) (ranges : List (Bounds α))
    (reached : α) :
    (scoreSum children weights ranges parts ctx none reached).value =
      (scoreSum children weights ranges parts' ctx none reached).value := by
  induction h generalizing parts' weights ranges reached with
  | nil =>
    cases h'
    rfl
  | @cons child p children parts first rest ih =>
    cases h' with
    | @cons _ q _ parts' first' rest' =>
      obtain ⟨here, others⟩ := List.forall_mem_cons.1 same
      cases weights with
      | nil => rfl
      | cons weight weights =>
        cases ranges with
        | nil => rfl
        | cons range ranges =>
          simp only [scoreSum, cannotExceed, here p q first first', Bool.false_eq_true, if_false]
          exact ih others rest' weights ranges _

theorem values_scoreEach_congr {R : Plan α → Position → Prop}
    (same : ∀ child ∈ children, ∀ p q, R child p → R child q →
      (child.score p ctx none).value = (child.score q ctx none).value)
    {parts parts' : List Position} (h : List.Forall₂ R children parts)
    (h' : List.Forall₂ R children parts') (weights : List α) :
    (scoreEach children weights parts ctx none).1 =
      (scoreEach children weights parts' ctx none).1 := by
  induction h generalizing parts' weights with
  | nil =>
    cases h'
    rfl
  | @cons child p children parts first rest ih =>
    cases h' with
    | @cons _ q _ parts' first' rest' =>
      obtain ⟨here, others⟩ := List.forall_mem_cons.1 same
      cases weights with
      | nil => rfl
      | cons weight weights =>
        simp only [scoreEach, delta_score_none, here p q first first', ih others rest' weights]

theorem value_combine_congr {R : Plan α → Position → Prop}
    (same : ∀ child ∈ children, ∀ p q, R child p → R child q →
      (child.score p ctx none).value = (child.score q ctx none).value)
    (method : Method) (mode : Mode) (weights : List α) {p q : Position}
    (h : List.Forall₂ R children p.parts) (h' : List.Forall₂ R children q.parts) :
    ((combine method mode children weights).score p ctx none).value =
      ((combine method mode children weights).score q ctx none).value := by
  cases method with
  | sum => exact value_scoreSum_congr same h h' weights _ _
  | greatest => exact congrArg Arithmetic.greatest (values_scoreEach_congr same h h' weights)

theorem value_require_of_away {filter scorer : Plan α} {t : DocId} {p : Position}
    (walkable : (filter.require scorer).Walkable) (here : (filter.require scorer).Stands t p)
    (notDone : ctx.document ≠ terminated)
    (away : filter.has ctx.document = false ∨ ctx.document < t) :
    ((filter.require scorer).score p ctx none).value = scorer.bounds.lower := by
  have first := (follows filter walkable.1).first here.1
  have other : (p.part 0).document ≠ ctx.document := by
    intro same
    rw [same] at first
    rcases away with lacks | passed
    · rw [first.has_of_ne notDone] at lacks
      cases lacks
    · exact absurd first.le (UInt32.not_le.2 passed)
  simp [score, Position.matchesAt, other]

omit [Arithmetic α] in
theorem forall₂_and {R R' : Plan α → Position → Prop} {parts : List Position}
    (h : List.Forall₂ R children parts) (h' : List.Forall₂ R' children parts) :
    List.Forall₂ (fun child p => R child p ∧ R' child p) children parts := by
  induction h with
  | nil => exact .nil
  | cons first _ ih =>
    cases h' with
    | cons first' rest' => exact .cons ⟨first, first'⟩ (ih rest')

def Resting (plan : Plan α) (p : Position) : Prop := (∃ s, plan.Stands s p) ∧ plan.Unread p

omit [Arithmetic α] in
theorem resting_parts {method : Method} {mode : Mode} {weights : List α} {p : Position}
    (h : (combine method mode children weights).Resting p) :
    List.Forall₂ Resting children p.parts := by
  obtain ⟨⟨s, here⟩, unread⟩ := h
  rw [Stands, standAll_eq, standSome_eq] at here
  rw [Unread, unreadAll_eq] at unread
  refine forall₂_and ?_ unread
  cases mode with
  | any => exact List.Forall₂.imp (fun _ _ standing => ⟨s, standing⟩) here.2
  | all => exact here.2

/-- A silent plan gives every place the same score of the document. -/
theorem value_of_silent (plan : Plan α) (walkable : plan.Walkable)
    (notDone : ctx.document ≠ terminated) (silent : plan.silent ctx.document = true)
    {p q : Position} (h : plan.Resting p) (h' : plan.Resting q) :
    (plan.score p ctx none).value = (plan.score q ctx none).value := by
  induction plan generalizing p q with
  | prior entries default =>
    obtain ⟨⟨s, here⟩, _⟩ := h
    obtain ⟨⟨s', here'⟩, _⟩ := h'
    have lacks : listed Prod.fst entries ctx.document = false := by
      simpa [Plan.silent] using silent
    simp only [score, entryAt_of_away here (.inl lacks), entryAt_of_away here' (.inl lacks)]
  | dirichlet side counted model _ _ =>
    obtain ⟨⟨s, here⟩, unread⟩ := h
    obtain ⟨⟨s', here'⟩, unread'⟩ := h'
    have lacks : counted.has ctx.document = false := by simpa [Plan.silent] using silent
    have unread : p.part 0 = q.part 0 := unread.trans unread'.symm
    simp only [score, counted.countAt_of_away here.1 notDone (.inl lacks),
      counted.countAt_of_away here'.1 notDone (.inl lacks), unread]
  | bm25 side counted model _ _ =>
    obtain ⟨⟨s, here⟩, _⟩ := h
    obtain ⟨⟨s', here'⟩, _⟩ := h'
    have lacks : counted.has ctx.document = false := by simpa [Plan.silent] using silent
    simp only [score, counted.countAt_of_away here.1 notDone (.inl lacks),
      counted.countAt_of_away here'.1 notDone (.inl lacks), if_true]
  | combine method mode children weights ih =>
    refine value_combine_congr ?_ method mode weights (resting_parts h) (resting_parts h')
    intro child member p q
    exact ih child member (walkableAll_iff.1 walkable child member)
      (silentAll_iff.1 silent child member)
  | log child ih => exact congrArg Arithmetic.ln (ih walkable silent h h')
  | scale weight child ih => exact congrArg (weight * ·) (ih walkable silent h h')
  | require filter scorer _ _ =>
    obtain ⟨⟨s, here⟩, _⟩ := h
    obtain ⟨⟨s', here'⟩, _⟩ := h'
    have lacks : filter.has ctx.document = false := by simpa [Plan.silent] using silent
    rw [value_require_of_away walkable here notDone (.inl lacks),
      value_require_of_away walkable here' notDone (.inl lacks)]
  | _ => rfl

def RestingFor (t : DocId) (plan : Plan α) (p : Position) : Prop :=
  plan.Stands t p ∧ plan.Unread p

omit [Arithmetic α] in
theorem entryAt_congr {β : Type} {key : β → DocId} {entries : Array β}
    (ascending : Ascending key entries) (below : listed key entries terminated = false)
    {t d : DocId} {p q : Position} (here : LeafStands key entries t p)
    (here' : LeafStands key entries t q) (le : d ≤ t) :
    entryAt key entries p d = entryAt key entries q d := by
  by_cases passed : d < t
  · rw [entryAt_of_away here (.inr passed), entryAt_of_away here' (.inr passed)]
  · have le' : t ≤ d := UInt32.not_lt.1 passed
    have f := follows_leaf ascending below
    rw [entryAt_eq_find? ascending here le' (UInt32.le_trans le (f.first here).le),
      entryAt_eq_find? ascending here' le' (UInt32.le_trans le (f.first here').le)]

omit [Arithmetic α] in
theorem countAt_congr (counted : Plan α) (walkable : counted.Walkable) {t : DocId}
    {p q : Position} (here : counted.Stands t p) (here' : counted.Stands t q)
    (notDone : ctx.document ≠ terminated) (le : ctx.document ≤ t) :
    counted.countAt p ctx = counted.countAt q ctx := by
  have f := follows counted walkable
  by_cases passed : ctx.document < t
  · rw [counted.countAt_of_away here notDone (.inr passed),
      counted.countAt_of_away here' notDone (.inr passed)]
  · have le' : t ≤ ctx.document := UInt32.not_lt.1 passed
    rw [counted.countAt_eq walkable here le' (UInt32.le_trans le (f.first here).le) notDone,
      counted.countAt_eq walkable here' le' (UInt32.le_trans le (f.first here').le) notDone]

theorem value_require_of_has {filter scorer : Plan α} {p : Position}
    (walkable : (filter.require scorer).Walkable)
    (h : (filter.require scorer).RestingFor ctx.document p) (notDone : ctx.document ≠ terminated)
    (mem : filter.has ctx.document = true) :
    scorer.RestingFor ctx.document (p.part 1) ∧
      ((filter.require scorer).score p ctx none).value =
        (scorer.score (p.part 1) ctx none).value := by
  obtain ⟨⟨here, same, joined⟩, unread⟩ := h
  have first := (follows filter walkable.1).first here
  have on : (p.part 0).document = ctx.document :=
    UInt32.le_antisymm (first.least mem (UInt32.le_refl _)) first.le
  rw [on] at same
  rw [same] at joined
  refine ⟨⟨joined notDone, unread⟩, ?_⟩
  simp [score, Position.matchesAt, on, notDone]

/-- A group that has to agree stands on the first document its children have in common. Its parts
are told where they stand by that document, or may stand anywhere once there is none. -/
theorem value_combine_all {method : Method} {weights : List α}
    (walkable : (combine method .all children weights).Walkable)
    (notDone : ctx.document ≠ terminated) {t : DocId} (le : ctx.document ≤ t)
    (determined : (combine method .all children weights).Determined t ctx.document)
    (same : ∀ child ∈ children, ∀ e, ctx.document ≤ e → child.Determined e ctx.document →
      ∀ p q, child.RestingFor e p → child.RestingFor e q →
        (child.score p ctx none).value = (child.score q ctx none).value)
    {p q : Position} (h : (combine method .all children weights).RestingFor t p)
    (h' : (combine method .all children weights).RestingFor t q) :
    ((combine method .all children weights).score p ctx none).value =
      ((combine method .all children weights).score q ctx none).value := by
  have resting := resting_parts ⟨⟨t, h.1⟩, h.2⟩
  have resting' := resting_parts ⟨⟨t, h'.1⟩, h'.2⟩
  obtain ⟨here, unread⟩ := h
  obtain ⟨here', unread'⟩ := h'
  rw [Stands, standAll_eq, standSome_eq] at here here'
  rw [Unread, unreadAll_eq] at unread unread'
  have first := here.1.1
  have document := here'.1.1.unique first
  have settled := determined p.document first
  by_cases done : p.document = terminated
  · rw [if_pos done] at settled
    refine value_combine_congr ?_ method .all weights resting resting'
    intro child member p q
    exact child.value_of_silent (walkableAll_iff.1 walkable child member) notDone
      (silentAll_iff.1 settled child member)
  · rw [if_neg done] at settled
    have parts := (here.1.2.2 done).1
    have parts' := (here'.1.2.2 (document ▸ done)).1
    rw [document] at parts'
    refine value_combine_congr ?_ method .all weights (forall₂_and parts unread)
      (forall₂_and parts' unread')
    intro child member p q
    exact same child member _ (UInt32.le_trans le first.le)
      (determinedAll_iff.1 settled child member) p q

/-- The score of a document where a plan stands for it or for a later one. -/
theorem value_of_determined (plan : Plan α) (walkable : plan.Walkable)
    (notDone : ctx.document ≠ terminated) {t : DocId} (le : ctx.document ≤ t)
    (determined : plan.Determined t ctx.document) {p q : Position} (h : plan.RestingFor t p)
    (h' : plan.RestingFor t q) : (plan.score p ctx none).value = (plan.score q ctx none).value := by
  induction plan generalizing t p q with
  | prior entries default => simp only [score, entryAt_congr walkable.1 walkable.2 h.1 h'.1 le]
  | dirichlet side counted model _ _ =>
    have unread : p.part 0 = q.part 0 := h.2.trans h'.2.symm
    have counts := counted.countAt_congr walkable.2 h.1.1 h'.1.1 notDone le
    simp only [score, counts, unread]
  | bm25 side counted model _ _ =>
    have unread : p.part 0 = q.part 0 := h.2.trans h'.2.symm
    have counts := counted.countAt_congr walkable.2 h.1.1 h'.1.1 notDone le
    simp only [score, counts, unread]
    split <;> rfl
  | combine method mode children weights ih =>
    have walkableAll := walkableAll_iff.1 walkable
    cases mode with
    | any =>
      obtain ⟨here, unread⟩ := h
      obtain ⟨here', unread'⟩ := h'
      rw [Stands, standAll_eq] at here here'
      rw [Unread, unreadAll_eq] at unread unread'
      refine value_combine_congr ?_ method .any weights (forall₂_and here.2 unread)
        (forall₂_and here'.2 unread')
      intro child member p q
      exact ih child member (walkableAll child member) le
        (determinedAll_iff.1 determined child member)
    | all =>
      refine value_combine_all walkable notDone le determined ?_ h h'
      intro child member e le determined p q
      exact ih child member (walkableAll child member) le determined
  | log child ih => exact congrArg Arithmetic.ln (ih walkable le determined h h')
  | scale weight child ih => exact congrArg (weight * ·) (ih walkable le determined h h')
  | require filter scorer _ ih =>
    by_cases passed : ctx.document < t
    · -- the filter stands past the document, and the scorer is not asked
      rw [value_require_of_away walkable h.1 notDone (.inr passed),
        value_require_of_away walkable h'.1 notDone (.inr passed)]
    · obtain rfl : t = ctx.document := UInt32.le_antisymm (UInt32.not_lt.1 passed) le
      cases mem : filter.has ctx.document with
      | false =>
        rw [value_require_of_away walkable h.1 notDone (.inl mem),
          value_require_of_away walkable h'.1 notDone (.inl mem)]
      | true =>
        obtain ⟨there, value⟩ := value_require_of_has walkable h notDone mem
        obtain ⟨there', value'⟩ := value_require_of_has walkable h' notDone mem
        rw [value, value']
        exact ih walkable.2 le (determined rfl mem) there there'
  | _ => rfl

end Values

section Example

def isPrior : Plan Float → Bool
  | .prior _ _ => true
  | _ => false

theorem determined_of_isPrior {x : Plan Float} (h : x.isPrior = true) (t d : DocId) :
    x.Determined t d := by
  cases x with
  | prior entries default => trivial
  | _ => cases h

def testPair (test : Plan Float → Method → Mode → Plan Float → Plan Float → List Float → Bool) :
    Plan Float → Bool
  | .require filter (.combine method mode [x, y] weights) => test filter method mode x y weights
  | _ => false

theorem exists_of_testPair
    {test : Plan Float → Method → Mode → Plan Float → Plan Float → List Float → Bool}
    {plan : Plan Float} (h : plan.testPair test = true) :
    ∃ filter method mode x y weights,
      plan = .require filter (.combine method mode [x, y] weights) ∧
        test filter method mode x y weights = true := by
  unfold testPair at h
  split at h
  · exact ⟨_, _, _, _, _, _, rfl, h⟩
  · cases h

end Example

end Plan

namespace Cursor

open Plan Axis

variable {α : Type}

/-- The cursor after moves to some targets, brought up to a document. -/
def along (c : Cursor α) (targets : List DocId) (d : DocId) : Cursor α :=
  (targets.foldl tryMove c).catchUp d

theorem plan_along (c : Cursor α) (targets : List DocId) (d : DocId) :
    (c.along targets d).plan = c.plan := by
  induction targets generalizing c with
  | nil => rfl
  | cons target targets ih => exact (ih (c.tryMove target)).trans (c.plan_tryMove target)

section Standing

variable {has : DocId → Bool} {stands : DocId → Position → Prop}

theorem trails_tryMove {c : Cursor α} (f : Follows has stands c.plan.advance) {d target : DocId}
    (h : Trails stands d c.position) (le : target ≤ d) :
    Trails stands d (c.tryMove target).position := by
  by_cases back : target < c.document
  · rw [tryMove, moveTo_of_lt back]
    exact h
  · obtain ⟨t, _, here⟩ := h
    have ahead := UInt32.not_lt.1 back
    rw [tryMove, moveTo_of_le ahead]
    exact ⟨target, le, f.move here (UInt32.le_trans (f.first here).le ahead) ahead⟩

/-- However a cursor is brought to a document, it comes to stand there. -/
theorem follows_along {c : Cursor α} (f : Follows has stands c.plan.advance) {d : DocId}
    (h : Trails stands d c.position) {targets : List DocId} (within : ∀ t ∈ targets, t ≤ d) :
    stands d (c.along targets d).position := by
  induction targets generalizing c with
  | nil =>
    obtain ⟨t, le, here⟩ := h
    exact f.catchUp here le
  | cons target targets ih =>
    obtain ⟨le, within⟩ := List.forall_mem_cons.1 within
    have moved := trails_tryMove f h le
    rw [← c.plan_tryMove target] at f
    exact ih f moved within

end Standing

theorem unread_tryMove {c : Cursor α} (h : c.plan.Unread c.position) (target : DocId) :
    c.plan.Unread (c.tryMove target).position := by
  by_cases back : target < c.document
  · rw [tryMove, moveTo_of_lt back]
    exact h
  · rw [tryMove, moveTo_of_le (UInt32.not_lt.1 back)]
    exact c.plan.unread_advance _ _ h

theorem unread_along {c : Cursor α} (h : c.plan.Unread c.position) (targets : List DocId)
    (d : DocId) : c.plan.Unread (c.along targets d).position := by
  induction targets generalizing c with
  | nil => exact kept_catchUp (R := Unread) (fun p t _ => c.plan.unread_advance p t) d h
  | cons target targets ih =>
    have moved := unread_tryMove h target
    rw [← c.plan_tryMove target] at moved
    exact (c.plan_tryMove target) ▸ ih moved

theorem restingFor_ofPlan {plan : Plan α} (walkable : plan.Walkable) {d : DocId}
    {targets : List DocId} (within : ∀ t ∈ targets, t ≤ d) :
    ((ofPlan plan).along targets d).plan = plan ∧
      plan.RestingFor d ((ofPlan plan).along targets d).position := by
  have starts : Trails plan.Stands d plan.start := ⟨0, UInt32.zero_le, stands_start plan walkable⟩
  exact ⟨plan_along _ targets d,
    follows_along (c := ofPlan plan) (follows plan walkable) starts within,
    unread_along (c := ofPlan plan) plan.unread_start targets d⟩

theorem value_along_congr [Arithmetic α] {plan : Plan α} (walkable : plan.Walkable) {ctx : Context}
    (notDone : ctx.document ≠ terminated)
    (determined : plan.Determined ctx.document ctx.document) {targets targets' : List DocId}
    (within : ∀ t ∈ targets, t ≤ ctx.document) (within' : ∀ t ∈ targets', t ≤ ctx.document) :
    (((ofPlan plan).along targets ctx.document).score ctx none).1 =
      (((ofPlan plan).along targets' ctx.document).score ctx none).1 := by
  obtain ⟨same, here⟩ := restingFor_ofPlan walkable within
  obtain ⟨same', here'⟩ := restingFor_ofPlan walkable within'
  simp only [score, same, same']
  exact plan.value_of_determined walkable notDone (UInt32.le_refl _) determined here here'

/-- Where the place of a plan determines its score of a document, all ways to the document give the
same score, and a filter gives the documents it has the score of what it filters. -/
theorem score_along [Arithmetic α] (steps : List DraftStep) (w : Workshop) (q : Query)
    (plan : Plan α) (collected : w.collection = .ofSteps steps) (below : w.collection.BelowEnd)
    (built : w.build q = .ok plan) (ctx : Context) (notDone : ctx.document ≠ terminated)
    (determined : plan.Determined ctx.document ctx.document) (targets targets' : List DocId)
    (within : ∀ t ∈ targets, t ≤ ctx.document) (within' : ∀ t ∈ targets', t ≤ ctx.document) :
    (((ofPlan plan).along targets ctx.document).score ctx none).1 =
        (((ofPlan plan).along targets' ctx.document).score ctx none).1 ∧
      ∀ filter scorer : Plan α, plan = .require filter scorer → filter.has ctx.document = true →
        (((ofPlan plan).along targets ctx.document).score ctx none).1 =
          (((ofPlan scorer).along targets' ctx.document).score ctx none).1 := by
  have ordered : w.collection.Ordered := collected ▸ Collection.ordered_ofSteps steps
  have walkable := (Workshop.built_of_build w q built).walkable ordered below
  refine ⟨value_along_congr walkable notDone determined within within', ?_⟩
  rintro filter scorer rfl mem
  obtain ⟨same, here⟩ := restingFor_ofPlan walkable within
  obtain ⟨there, value⟩ := value_require_of_has walkable here notDone mem
  obtain ⟨same', there'⟩ := restingFor_ofPlan walkable.2 within'
  simp only [score, same, same']
  rw [value]
  exact scorer.value_of_determined walkable.2 notDone (UInt32.le_refl _) (determined rfl mem) there
    there'

/-- If no group has to agree, the place of the plan determines its score of every document. -/
theorem value_along_of_disjunctive [Arithmetic α] {w : Workshop} (ordered : w.collection.Ordered)
    (below : w.collection.BelowEnd) {q : Query} {plan : Plan α} (built : w.build q = .ok plan)
    (disjunctive : plan.Disjunctive) {ctx : Context} (notDone : ctx.document ≠ terminated)
    {targets targets' : List DocId} (within : ∀ t ∈ targets, t ≤ ctx.document)
    (within' : ∀ t ∈ targets', t ≤ ctx.document) :
    (((ofPlan plan).along targets ctx.document).score ctx none).1 =
      (((ofPlan plan).along targets' ctx.document).score ctx none).1 :=
  value_along_congr ((Workshop.built_of_build w q built).walkable ordered below) notDone
    (disjunctive.determined _ _) within within'

section Example

/-- The documents of `f` with the scores of `x` and `y`, which have only document three in
common. -/
def threePriors : List DraftStep :=
  [.prior "f" 3 1.0, .prior "f" 5 1.0, .prior "x" 3 1.0, .prior "x" 4 1.0, .prior "x" 5 7.0,
    .prior "y" 1 1.0, .prior "y" 2 1.0, .prior "y" 3 1.0]

def filteredPriors : Query :=
  .node "require" .empty [.node "prior" (.single "name" (.string "f")) [], bothPriors]

def filterWorkshop : Workshop :=
  { collection := .ofSteps threePriors, vocabulary := .builtIn, levels := [] }

/-- Document three is common to `x` and `y`, and its score is determined. -/
theorem score_along_shared : ∃ filter scorer : Plan Float,
    filterWorkshop.build filteredPriors = .ok (.require filter scorer) ∧
      (filter.require scorer).Determined 3 3 ∧ filter.has 3 = true ∧
      (((ofPlan (filter.require scorer)).along [1, 2] 3).score (.whole 3) none).1 =
        (((ofPlan scorer).along [] 3).score (.whole 3) none).1 := by
  have computed : (filterWorkshop.build (α := Float) filteredPriors).toOption.any <|
      testPair fun filter _ mode x y _ =>
        decide (mode = .all) && x.isPrior && y.isPrior && filter.has 3 && hasAll has [x, y] 3 &&
          !hasAll has [x, y] terminated := by decide +kernel
  cases built : filterWorkshop.build (α := Float) filteredPriors with
  | error e =>
    rw [built] at computed
    cases computed
  | ok plan =>
    rw [built] at computed
    obtain ⟨filter, method, mode, x, y, weights, rfl, tested⟩ := exists_of_testPair computed
    simp only [Bool.and_eq_true, decide_eq_true_eq, Bool.not_eq_true'] at tested
    obtain ⟨⟨⟨⟨⟨rfl, one⟩, other⟩, mem⟩, shared⟩, below⟩ := tested
    have determined : (filter.require (combine method .all [x, y] weights)).Determined 3 3 := by
      intro _ _ e first
      have notDone := ((first.eq_target_iff below).1 shared).2
      rw [if_neg notDone]
      exact ⟨determined_of_isPrior one _ _, determined_of_isPrior other _ _, trivial⟩
    refine ⟨filter, _, rfl, determined, mem, ?_⟩
    exact (score_along threePriors filterWorkshop filteredPriors _ rfl
      (Collection.belowEnd_ofSteps (by decide)) built (.whole 3) (by decide) determined [1, 2] []
      (List.forall_mem_cons.2 ⟨by decide, List.forall_mem_singleton.2 (by decide)⟩)
      (List.forall_mem_nil _)).2 filter _ rfl mem

theorem byCost_pair {a b : Nat} (h : a ≤ b) : byCost [a, b] = [0, 1] := by
  simp [byCost, List.mergeSort, h]

theorem start_combine_pair {x y : Plan α} (h : x.cost x.start ≤ y.cost y.start) (method : Method)
    (mode : Mode) (weights : List α) : (combine method mode [x, y] weights).start =
      moveGroup mode (movers [x, y]) [0, 1] 0 [x.start, y.start] := by
  rw [start, startGroup]
  simp only [starts, costs]
  rw [byCost_pair h]

/-- Document five is not common to `x` and `y`. Whether `x` contributes depends on the way there. -/
theorem score_along_skipping : ∃ filter scorer : Plan Float,
    filterWorkshop.build filteredPriors = .ok (.require filter scorer) ∧
      filter.has 5 = true ∧ scorer.has 5 = false ∧
      (((ofPlan (filter.require scorer)).along [] 5).score (.whole 5) none).1 = 7.0 ∧
      (((ofPlan scorer).along [] 5).score (.whole 5) none).1 = 7.0 ∧
      (((ofPlan scorer).along [4] 5).score (.whole 5) none).1 = 0.0 := by
  -- the order of the two children is given, for sorting them by cost does not compute
  have computed : (filterWorkshop.build (α := Float) filteredPriors).toOption.any <|
      testPair fun filter method mode x y weights =>
        let scorer := combine method mode [x, y] weights
        let p := moveGroup mode (movers [x, y]) [0, 1] 0 [x.start, y.start]
        let c : Cursor Float := { plan := scorer, position := p, question := .scored }
        let c' : Cursor Float :=
          { plan := filter.require scorer
            position := joinFilter scorer.advance filter.start p
            question := .scored }
        decide (x.cost x.start ≤ y.cost y.start) && filter.has 5 && !scorer.has 5 &&
          decide (((c'.along [] 5).score (.whole 5) none).1 = 7.0) &&
          decide (((c.along [] 5).score (.whole 5) none).1 = 7.0) &&
          decide (((c.along [4] 5).score (.whole 5) none).1 = 0.0) := by decide +kernel
  cases built : filterWorkshop.build (α := Float) filteredPriors with
  | error e =>
    rw [built] at computed
    cases computed
  | ok plan =>
    rw [built] at computed
    obtain ⟨filter, method, mode, x, y, weights, rfl, tested⟩ := exists_of_testPair computed
    simp only [Bool.and_eq_true, decide_eq_true_eq, Bool.not_eq_true'] at tested
    obtain ⟨⟨⟨⟨⟨order, mem⟩, lacks⟩, filtered⟩, direct⟩, detour⟩ := tested
    refine ⟨filter, combine method mode [x, y] weights, rfl, mem, lacks, ?_⟩
    rw [← start_combine_pair order method mode weights] at filtered direct detour
    exact ⟨filtered, direct, detour⟩

end Example

end Cursor

end RankedRetrieval
