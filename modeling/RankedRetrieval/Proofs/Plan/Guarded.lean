import RankedRetrieval.Proofs.Axis.Guarded
import RankedRetrieval.Proofs.Plan.Moves
import RankedRetrieval.Proofs.Plan.Scored

set_option autoImplicit false

namespace RankedRetrieval.Plan

open Axis

variable {α : Type}

def moveGroupGuarded (mode : Mode) (movers : List GuardedMover) (order : List Nat)
    (target : DocId) (parts : List Position) : Except QueryError Position := do
  let result ← settleGuarded mode movers order target parts
  return { document := result.1, offset := 0, found := [], order, parts := result.2 }

def moveWindowGuarded (name : String) (movers : List GuardedMover)
    (read : DocId → List Position → List Span) (order : List Nat) (target : DocId)
    (parts : List Position) : Except QueryError Position := do
  let result ← settleGuarded .all movers order target parts
  let rest ← seekGuarded name movers order read result.1 result.2
  return { document := rest.document, offset := 0, found := rest.found, order, parts := rest.parts }

def joinFilterGuarded (scorer : GuardedMover) (filter side : Position) :
    Except QueryError Position := do
  let side ←
    if filter.document = terminated then pure side
    else catchUpGuarded scorer side filter.document
  return .ofParts filter.document [filter, side]

mutual

/-- The movement of a plan in which every part with a place of its own refuses to go back. -/
def advanceGuarded : Plan α → Position → DocId → Except QueryError Position
  | .extents postings, p, target => do
    refuseBack "extents" p.document target
    return advanceLeaf Posting.document postings p target
  | .counts postings, p, target => do
    refuseBack "counts" p.document target
    return advanceLeaf Posting.document postings p target
  | .lengths entries, p, target => do
    refuseBack "lengths" p.document target
    return advanceLeaf Prod.fst entries p target
  | .prior entries _, p, target => do
    refuseBack "prior" p.document target
    return advanceLeaf Prod.fst entries p target
  | .window order width children, p, target => do
    refuseBack (windowName order) p.document target
    if target = p.document then return p
    else
      moveWindowGuarded (windowName order) (moversGuarded children)
        (findWindows order width children) p.order target p.parts
  | .synonym children, p, target => do
    refuseBack "syn" p.document target
    if target = p.document then return p
    else moveGroupGuarded .any (moversGuarded children) p.order target p.parts
  | .synonymCounts children, p, target => do
    refuseBack "syn" p.document target
    if target = p.document then return p
    else moveGroupGuarded .any (moversGuarded children) p.order target p.parts
  | .passageFilter child, p, target => child.advanceGuarded p target
  | .passageLength child, p, target => child.advanceGuarded p target
  | .dirichlet _ counted _, p, target => do
    let counted ← counted.advanceGuarded (p.part 1) target
    return .ofParts counted.document [p.part 0, counted]
  | .bm25 _ counted _, p, target => do
    let counted ← counted.advanceGuarded (p.part 1) target
    return .ofParts counted.document [p.part 0, counted]
  | .combine _ mode children _, p, target => do
    refuseBack "combine" p.document target
    if target = p.document then return p
    else moveGroupGuarded mode (moversGuarded children) p.order target p.parts
  | .log child, p, target => child.advanceGuarded p target
  | .scale _ child, p, target => child.advanceGuarded p target
  | .require filter scorer, p, target => do
    refuseBack "require" p.document target
    let filter ← catchUpGuarded filter.advanceGuarded (p.part 0) target
    joinFilterGuarded scorer.advanceGuarded filter (p.part 1)
  | .boolean mode children, p, target => do
    refuseBack (booleanName mode) p.document target
    if target = p.document then return p
    else moveGroupGuarded mode (moversGuarded children) p.order target p.parts

def moversGuarded : List (Plan α) → List GuardedMover
  | [] => []
  | child :: children => child.advanceGuarded :: moversGuarded children

end

def startGroupGuarded (mode : Mode) (children : List (Plan α)) (parts : List Position) :
    Except QueryError Position :=
  moveGroupGuarded mode (moversGuarded children) (byCost (costs children parts)) 0 parts

mutual

def startGuarded : Plan α → Except QueryError Position
  | .extents postings => .ok (leaf Posting.document postings 0)
  | .counts postings => .ok (leaf Posting.document postings 0)
  | .lengths entries => .ok (leaf Prod.fst entries 0)
  | .prior entries _ => .ok (leaf Prod.fst entries 0)
  | .window order width children => do
    let parts ← startsGuarded children
    moveWindowGuarded (windowName order) (moversGuarded children)
      (findWindows order width children) (byCost (costs children parts)) 0 parts
  | .synonym children => do startGroupGuarded .any children (← startsGuarded children)
  | .synonymCounts children => do startGroupGuarded .any children (← startsGuarded children)
  | .passageFilter child => child.startGuarded
  | .passageLength child => child.startGuarded
  | .dirichlet side counted _ => do
    let counted ← counted.startGuarded
    return .ofParts counted.document [← side.startGuarded, counted]
  | .bm25 side counted _ => do
    let counted ← counted.startGuarded
    return .ofParts counted.document [← side.startGuarded, counted]
  | .combine _ mode children _ => do startGroupGuarded mode children (← startsGuarded children)
  | .log child => child.startGuarded
  | .scale _ child => child.startGuarded
  | .require filter scorer => do
    joinFilterGuarded scorer.advanceGuarded (← filter.startGuarded) (← scorer.startGuarded)
  | .boolean mode children => do startGroupGuarded mode children (← startsGuarded children)

def startsGuarded : List (Plan α) → Except QueryError (List Position)
  | [] => .ok []
  | child :: children => do return (← child.startGuarded) :: (← startsGuarded children)

end

section Scoring

open Arithmetic

variable [Arithmetic α]

mutual

def scoreGuarded : Plan α → Position → Context → Option (Delta α) → Except QueryError (Scored α)
  | .dirichlet side counted model, p, ctx, delta => do
    let lengths ← catchUpGuarded side.advanceGuarded (p.part 0) ctx.document
    let value := model.score (counted.countAt (p.part 1) ctx) (side.lengthAt lengths ctx)
    return { value, position := .ofParts p.document [lengths, p.part 1], delta }
  | .bm25 side counted model, p, ctx, delta => do
    let count := counted.countAt (p.part 1) ctx
    if count = 0 then return { value := 0.0, position := p, delta }
    else
      let lengths ← catchUpGuarded side.advanceGuarded (p.part 0) ctx.document
      return {
        value := model.score count (side.lengthAt lengths ctx)
        position := .ofParts p.document [lengths, p.part 1]
        delta }
  | .combine .sum _ children weights, p, ctx, delta => do
    let ranges := contributions children weights
    let sum ← scoreSumGuarded children weights ranges p.parts ctx (delta.map Delta.threshold) 0.0
    return {
      value := sum.value
      position := { p with parts := sum.parts }
      delta := delta.map fun d => { d with reached := sum.value, pruned := sum.pruned } }
  | .combine .greatest _ children weights, p, ctx, delta => do
    let (values, parts, delta) ← scoreEachGuarded children weights p.parts ctx delta
    return { value := greatest values, position := { p with parts }, delta }
  | .log child, p, ctx, delta => do
    let inner ← child.scoreGuarded p ctx delta
    return { inner with value := ln inner.value }
  | .scale weight child, p, ctx, delta => do
    let inner ← child.scoreGuarded p ctx delta
    return { inner with value := weight * inner.value }
  | .require _ scorer, p, ctx, delta => do
    let filter := p.part 0
    if filter.matchesAt ctx.document then
      let inner ← scorer.scoreGuarded (p.part 1) ctx delta
      return { inner with position := .ofParts p.document [filter, inner.position] }
    else return { value := scorer.bounds.lower, position := p, delta }
  | plan, p, ctx, delta => .ok (plan.score p ctx delta)

def scoreSumGuarded : List (Plan α) → List α → List (Bounds α) → List Position → Context →
    Option α → α → Except QueryError (Sum α)
  | child :: children, weight :: weights, _ :: rest, p :: parts, ctx, threshold, reached => do
    let scored ← child.scoreGuarded p ctx none
    let reached := reached + weight * scored.value
    if cannotExceed threshold reached rest then
      return { value := ceiling reached rest, parts := scored.position :: parts, pruned := true }
    else
      let sum ← scoreSumGuarded children weights rest parts ctx threshold reached
      return { sum with parts := scored.position :: sum.parts }
  | _, _, _, parts, _, _, reached => .ok { value := reached, parts, pruned := false }

def scoreEachGuarded : List (Plan α) → List α → List Position → Context → Option (Delta α) →
    Except QueryError (List α × List Position × Option (Delta α))
  | child :: children, weight :: weights, p :: parts, ctx, delta => do
    let scored ← child.scoreGuarded p ctx delta
    let (values, parts, delta) ← scoreEachGuarded children weights parts ctx scored.delta
    return (weight * scored.value :: values, scored.position :: parts, delta)
  | _, _, parts, _, delta => .ok ([], parts, delta)

end

end Scoring

mutual

/-- A plan that stands where one of its parts does says so, and so do its parts. -/
def Joined : Plan α → Position → Prop
  | .window _ _ children, p => JoinedAll children p.parts
  | .synonym children, p => JoinedAll children p.parts
  | .synonymCounts children, p => JoinedAll children p.parts
  | .passageFilter child, p => child.Joined p
  | .passageLength child, p => child.Joined p
  | .dirichlet side counted _, p =>
    p.document = (p.part 1).document ∧ side.Joined (p.part 0) ∧ counted.Joined (p.part 1)
  | .bm25 side counted _, p =>
    p.document = (p.part 1).document ∧ side.Joined (p.part 0) ∧ counted.Joined (p.part 1)
  | .combine _ _ children _, p => JoinedAll children p.parts
  | .log child, p => child.Joined p
  | .scale _ child, p => child.Joined p
  | .require filter scorer, p =>
    p.document = (p.part 0).document ∧ filter.Joined (p.part 0) ∧ scorer.Joined (p.part 1)
  | .boolean _ children, p => JoinedAll children p.parts
  | _, _ => True

def JoinedAll : List (Plan α) → List Position → Prop
  | [], parts => parts = []
  | _ :: _, [] => False
  | child :: children, p :: parts => child.Joined p ∧ JoinedAll children parts

end

theorem joinedAll_iff {children : List (Plan α)} {parts : List Position} :
    JoinedAll children parts ↔ List.Forall₂ Joined children parts := by
  induction children generalizing parts with
  | nil => simp [JoinedAll]
  | cons child children ih =>
    cases parts with
    | nil => simp [JoinedAll]
    | cons p parts => rw [JoinedAll, ih, List.forall₂_cons]

section Moving

variable {children : List (Plan α)}

theorem moversGuarded_eq (children : List (Plan α)) :
    moversGuarded children = children.map advanceGuarded := by
  induction children with
  | nil => rfl
  | cons child children ih =>
    rw [moversGuarded, ih]
    rfl

theorem refuseBack_eq {name : String} {document target : DocId} (ahead : document ≤ target) :
    refuseBack name document target = .ok () :=
  if_neg (UInt32.not_lt.2 ahead)

structure Forward (plan : Plan α) : Prop where
  keeps : ∀ p target, plan.Joined p → plan.Joined (plan.advance p target)
  moves : ∀ p target, plan.Joined p → p.document ≤ target →
    plan.advanceGuarded p target = .ok (plan.advance p target)

theorem guards_of_forward (forward : ∀ child ∈ children, Forward child) :
    Guards Joined advance advanceGuarded children :=
  ⟨fun c member => (forward c member).moves, fun c member => (forward c member).keeps⟩

variable (forward : ∀ child ∈ children, Forward child) {parts : List Position}
  (joined : JoinedAll children parts)
include forward joined

theorem moveGroupGuarded_eq (mode : Mode) (order : List Nat) (target : DocId) :
    moveGroupGuarded mode (moversGuarded children) order target parts =
      .ok (moveGroup mode (movers children) order target parts) := by
  rw [moveGroupGuarded, moversGuarded_eq, settleGuarded_eq (guards_of_forward forward) mode order
    target (joinedAll_iff.1 joined), moveGroup, movers_eq]
  rfl

theorem joinedAll_moveGroup (mode : Mode) (order : List Nat) (target : DocId) :
    JoinedAll children (moveGroup mode (movers children) order target parts).parts := by
  rw [joinedAll_iff] at joined ⊢
  rw [movers_eq]
  exact forall₂_settle (.always (guards_of_forward forward).keeps) mode order target joined

theorem moveWindowGuarded_eq (name : String) (read : DocId → List Position → List Span)
    (order : List Nat) (target : DocId) :
    moveWindowGuarded name (moversGuarded children) read order target parts =
      .ok (moveWindow (movers children) read order target parts) := by
  have guards := guards_of_forward forward
  have together := joinedAll_iff.1 joined
  rw [moveWindowGuarded, moversGuarded_eq, settleGuarded_eq guards .all order target together,
    moveWindow, movers_eq]
  change (seekGuarded name _ order read _ _ >>= _) = _
  rw [seekGuarded_eq guards name order read _
    (forall₂_settle (.always guards.keeps) .all order target together)]
  rfl

theorem joinedAll_moveWindow (read : DocId → List Position → List Span) (order : List Nat)
    (target : DocId) :
    JoinedAll children (moveWindow (movers children) read order target parts).parts := by
  have guards := guards_of_forward forward
  rw [joinedAll_iff] at joined ⊢
  rw [movers_eq]
  exact forall₂_seek guards.keeps order read _
    (forall₂_settle (.always guards.keeps) .all order target joined)

omit joined forward

theorem joinFilterGuarded_eq {scorer : Plan α} (forward : Forward scorer) (filter : Position)
    {side : Position} (joined : scorer.Joined side) :
    joinFilterGuarded scorer.advanceGuarded filter side =
      .ok (joinFilter scorer.advance filter side) := by
  rw [joinFilterGuarded, joinFilter]
  split
  · rfl
  · rw [catchUpGuarded_eq (forward.moves side filter.document joined)]
    rfl

theorem joined_joinFilter {filter scorer : Plan α} (forward : Forward scorer) {p side : Position}
    (here : filter.Joined p) (joined : scorer.Joined side) :
    (require filter scorer).Joined (joinFilter scorer.advance p side) := by
  refine ⟨rfl, here, ?_⟩
  change scorer.Joined (if p.document = terminated then side else _)
  split
  · exact joined
  · exact kept_catchUp (fun q target _ => forward.keeps q target) p.document joined

/-- Every plan comes forward. -/
theorem comesForward (plan : Plan α) : Forward plan := by
  induction plan with
  | extents | counts | lengths | prior =>
    refine ⟨fun _ _ _ => trivial, fun p target _ ahead => ?_⟩
    rw [advanceGuarded, refuseBack_eq ahead]
    rfl
  | window order width children ih =>
    refine ⟨fun p target joined => ?_, fun p target joined ahead => ?_⟩
    · rw [advance]
      split
      · exact joined
      · exact joinedAll_moveWindow ih joined _ _ _
    · rw [advanceGuarded, refuseBack_eq ahead, advance]
      change (if _ then _ else _) = _
      split
      · rfl
      · exact moveWindowGuarded_eq ih joined _ _ _ _
  | synonym children ih | synonymCounts children ih | combine _ _ children _ ih
  | boolean _ children ih =>
    refine ⟨fun p target joined => ?_, fun p target joined ahead => ?_⟩
    · rw [advance]
      split
      · exact joined
      · exact joinedAll_moveGroup ih joined _ _ _
    · rw [advanceGuarded, refuseBack_eq ahead, advance]
      change (if _ then _ else _) = _
      split
      · rfl
      · exact moveGroupGuarded_eq ih joined _ _ _
  | passageFilter child ih | passageLength child ih | log child ih | scale weight child ih =>
    exact ⟨ih.keeps, ih.moves⟩
  | dirichlet side counted model _ ih | bm25 side counted model _ ih =>
    refine ⟨fun p target joined => ?_, fun p target joined ahead => ?_⟩
    · exact ⟨rfl, joined.2.1, ih.keeps _ target joined.2.2⟩
    · rw [advanceGuarded, ih.moves _ target joined.2.2 (joined.1 ▸ ahead)]
      rfl
  | require filter scorer ihFilter ihScorer =>
    refine ⟨fun p target joined => ?_, fun p target joined ahead => ?_⟩
    · obtain ⟨_, first, second⟩ := joined
      refine joined_joinFilter ihScorer ?_ second
      exact kept_catchUp (fun q target _ => ihFilter.keeps q target) target first
    · obtain ⟨_, first, second⟩ := joined
      rw [advanceGuarded, refuseBack_eq ahead]
      change (catchUpGuarded _ _ _ >>= _) = _
      rw [catchUpGuarded_eq (ihFilter.moves _ target first)]
      exact joinFilterGuarded_eq ihScorer _ second

theorem advanceGuarded_eq {plan : Plan α} {p : Position} (joined : plan.Joined p) {target : DocId}
    (ahead : p.document ≤ target) :
    plan.advanceGuarded p target = .ok (plan.advance p target) :=
  plan.comesForward.moves p target joined ahead

theorem joined_advance {plan : Plan α} {p : Position} (joined : plan.Joined p) (target : DocId) :
    plan.Joined (plan.advance p target) :=
  plan.comesForward.keeps p target joined

theorem joinedAll_starts (starts : ∀ child ∈ children, child.Joined child.start) :
    JoinedAll children (Plan.starts children) := by
  rw [joinedAll_iff, starts_eq]
  induction children with
  | nil => exact .nil
  | cons child children ih =>
    obtain ⟨here, others⟩ := List.forall_mem_cons.1 starts
    exact .cons here (ih others)

theorem joined_start (plan : Plan α) : plan.Joined plan.start := by
  have every (children : List (Plan α)) : ∀ child ∈ children, Forward child :=
    fun child _ => child.comesForward
  induction plan with
  | extents | counts | lengths | prior => trivial
  | window order width children ih =>
    exact joinedAll_moveWindow (every children) (joinedAll_starts ih) _ _ _
  | synonym children ih | synonymCounts children ih | combine _ _ children _ ih
  | boolean _ children ih =>
    exact joinedAll_moveGroup (every children) (joinedAll_starts ih) _ _ _
  | passageFilter child ih | passageLength child ih | log child ih | scale weight child ih =>
    exact ih
  | dirichlet side counted model ihSide ih | bm25 side counted model ihSide ih =>
    exact ⟨rfl, ihSide, ih⟩
  | require filter scorer ihFilter ihScorer =>
    exact joined_joinFilter scorer.comesForward ihFilter ihScorer

theorem startsGuarded_eq
    (starts : ∀ child ∈ children, child.startGuarded = .ok child.start) :
    startsGuarded children = .ok (Plan.starts children) := by
  induction children with
  | nil => rfl
  | cons child children ih =>
    obtain ⟨here, others⟩ := List.forall_mem_cons.1 starts
    rw [startsGuarded, here, ih others]
    rfl

theorem startGuarded_eq (plan : Plan α) : plan.startGuarded = .ok plan.start := by
  have every (children : List (Plan α)) : ∀ child ∈ children, Forward child :=
    fun child _ => child.comesForward
  have together (children : List (Plan α)) : JoinedAll children (Plan.starts children) :=
    joinedAll_starts fun child _ => child.joined_start
  induction plan with
  | extents | counts | lengths | prior => rfl
  | window order width children ih =>
    rw [startGuarded, startsGuarded_eq ih]
    exact moveWindowGuarded_eq (every children) (together children) _ _ _ _
  | synonym children ih | synonymCounts children ih | combine _ _ children _ ih
  | boolean _ children ih =>
    rw [startGuarded, startsGuarded_eq ih]
    exact moveGroupGuarded_eq (every children) (together children) _ _ _
  | passageFilter child ih | passageLength child ih | log child ih | scale weight child ih =>
    exact ih
  | dirichlet side counted model ihSide ih | bm25 side counted model ihSide ih =>
    rw [startGuarded, ih, ihSide]
    rfl
  | require filter scorer ihFilter ihScorer =>
    rw [startGuarded, ihFilter, ihScorer]
    exact joinFilterGuarded_eq scorer.comesForward _ scorer.joined_start

end Moving

section Scored

variable [Arithmetic α]

theorem joined_score (plan : Plan α) {p : Position} (joined : plan.Joined p) (ctx : Context)
    (delta : Option (Delta α)) : plan.Joined (plan.score p ctx delta).position := by
  induction plan generalizing p delta with
  | dirichlet side counted model _ _ =>
    refine ⟨joined.1, ?_, joined.2.2⟩
    exact kept_catchUp (fun q target _ => side.comesForward.keeps q target) _ joined.2.1
  | bm25 side counted model _ _ =>
    simp only [score]
    split
    · exact joined
    · refine ⟨joined.1, ?_, joined.2.2⟩
      exact kept_catchUp (fun q target _ => side.comesForward.keeps q target) _ joined.2.1
  | combine method mode children weights ih =>
    rw [Joined, joinedAll_iff] at joined ⊢
    cases method with
    | sum => exact forall₂_scoreSum (fun c member q here => ih c member here none) joined _ _ _ _
    | greatest =>
      exact forall₂_scoreEach (fun c member q delta here => ih c member here delta) joined _ _
  | log child ih => exact ih joined delta
  | scale weight child ih => exact ih joined delta
  | require filter scorer _ ih =>
    simp only [score]
    split
    · exact ⟨joined.1, joined.2.1, ih joined.2.2 delta⟩
    · exact joined
  | _ => exact joined

theorem scoreSumGuarded_eq {children : List (Plan α)} {ctx : Context}
    (scores : ∀ c ∈ children, ∀ p, c.Joined p →
      c.scoreGuarded p ctx none = .ok (c.score p ctx none))
    {parts : List Position} (h : List.Forall₂ Joined children parts) (weights : List α)
    (ranges : List (Bounds α)) (threshold : Option α) (reached : α) :
    scoreSumGuarded children weights ranges parts ctx threshold reached =
      .ok (scoreSum children weights ranges parts ctx threshold reached) := by
  induction h generalizing weights ranges reached with
  | nil => rfl
  | @cons child p children parts first rest ih =>
    obtain ⟨here, others⟩ := List.forall_mem_cons.1 scores
    cases weights with
    | nil => rfl
    | cons weight weights =>
      cases ranges with
      | nil => rfl
      | cons range ranges =>
        rw [scoreSumGuarded, scoreSum, here p first]
        change (if _ then _ else _) = _
        split
        · rfl
        · rw [ih others]
          rfl

theorem scoreEachGuarded_eq {children : List (Plan α)} {ctx : Context}
    (scores : ∀ c ∈ children, ∀ p delta, c.Joined p →
      c.scoreGuarded p ctx delta = .ok (c.score p ctx delta))
    {parts : List Position} (h : List.Forall₂ Joined children parts) (weights : List α)
    (delta : Option (Delta α)) :
    scoreEachGuarded children weights parts ctx delta =
      .ok (scoreEach children weights parts ctx delta) := by
  induction h generalizing weights delta with
  | nil => rfl
  | @cons child p children parts first rest ih =>
    obtain ⟨here, others⟩ := List.forall_mem_cons.1 scores
    cases weights with
    | nil => rfl
    | cons weight weights =>
      rw [scoreEachGuarded, scoreEach, here p delta first]
      change (scoreEachGuarded children weights parts ctx _ >>= _) = _
      rw [ih others]
      rfl

theorem scoreGuarded_eq (plan : Plan α) {p : Position} (joined : plan.Joined p) (ctx : Context)
    (delta : Option (Delta α)) :
    plan.scoreGuarded p ctx delta = .ok (plan.score p ctx delta) := by
  induction plan generalizing p delta with
  | dirichlet side counted model _ _ =>
    rw [scoreGuarded, catchUpGuarded_eq (side.comesForward.moves _ _ joined.2.1)]
    rfl
  | bm25 side counted model _ _ =>
    rw [scoreGuarded, score]
    dsimp only
    split
    · rfl
    · rw [catchUpGuarded_eq (side.comesForward.moves _ _ joined.2.1)]
      rfl
  | combine method mode children weights ih =>
    rw [Joined, joinedAll_iff] at joined
    cases method with
    | sum =>
      rw [scoreGuarded, score,
        scoreSumGuarded_eq (fun c member q here => ih c member here none) joined]
      rfl
    | greatest =>
      rw [scoreGuarded, score,
        scoreEachGuarded_eq (fun c member q delta here => ih c member here delta) joined]
      rfl
  | log child ih =>
    rw [scoreGuarded, ih joined delta]
    rfl
  | scale weight child ih =>
    rw [scoreGuarded, ih joined delta]
    rfl
  | require filter scorer _ ih =>
    rw [scoreGuarded, score]
    dsimp only
    split
    · rw [ih joined.2.2 delta]
      rfl
    · rfl
  | _ => rfl

end Scored

end RankedRetrieval.Plan

namespace RankedRetrieval

open Plan

variable {α : Type}

/-- The statistics of counts, by a walk that refuses to go back. A cursor that does not come forward
is refused, too. -/
def Cursor.measureFromGuarded (c : Cursor α) (stats : TermStatistics) :
    Except QueryError TermStatistics :=
  if c.document = terminated then .ok stats
  else
    match c.plan.advanceGuarded c.position (next c.document) with
    | .error e => .error e
    | .ok position =>
      if _ahead : c.document < position.document then
        Cursor.measureFromGuarded { c with position }
          (stats.add (c.countAt (.whole c.document)))
      else .error (.invalidMove c.plan.moverName c.document position.document)
termination_by distance c.document
decreasing_by exact distance_lt _ahead

def Plan.measureGuarded (plan : Plan α) : Except QueryError TermStatistics := do
  let position ← plan.startGuarded
  Cursor.measureFromGuarded { plan, position, question := plan.kind } .empty

theorem Cursor.measureFromGuarded_eq {c : Cursor α} (joined : c.plan.Joined c.position)
    (stats : TermStatistics) : c.measureFromGuarded stats = c.measureFrom stats := by
  fun_induction measureFrom c stats with
  | case1 c stats done =>
    rw [measureFromGuarded, if_pos done]
  | case2 c stats notDone e moved =>
    rw [c.moveTo_next] at moved
    cases moved
  | case3 c stats notDone moved' moved ih =>
    rw [c.moveTo_next] at moved
    cases moved
    have forward := UInt32.le_of_lt (lt_next notDone)
    have ahead : c.document < (c.plan.advance c.position (next c.document)).document :=
      UInt32.lt_of_lt_of_le (lt_next notDone) (c.plan.le_document_advance _ _)
    rw [measureFromGuarded, if_neg notDone, advanceGuarded_eq joined forward]
    exact (dif_pos ahead).trans (ih (joined_advance joined _))

theorem Plan.measureGuarded_eq (plan : Plan α) : plan.measureGuarded = plan.measure := by
  rw [measureGuarded, plan.startGuarded_eq]
  exact Cursor.measureFromGuarded_eq plan.joined_start .empty

theorem Cursor.measureFrom_ok (c : Cursor α) (stats : TermStatistics) :
    ∃ measured, c.measureFrom stats = .ok measured := by
  fun_induction measureFrom c stats with
  | case1 c stats done => exact ⟨stats, rfl⟩
  | case2 c stats notDone e moved =>
    rw [c.moveTo_next] at moved
    cases moved
  | case3 c stats notDone moved' moved ih => exact ih

end RankedRetrieval
