import RankedRetrieval.Proofs.Plan.Trimmed

set_option autoImplicit false

namespace RankedRetrieval.Plan

open Axis

variable {α : Type}

section Places

variable {side counted : Plan α} {d : DocId} {p : Position}

/-- The place of a scorer: its counts stand somewhere, and its lengths are no further than the
documents it has scored. -/
structure Attends (side counted : Plan α) (d : DocId) (p : Position) : Prop where
  counts : ∃ t, counted.trim.Stands t (p.part 1)
  same : p.document = (p.part 1).document
  lengths : Trails side.trim.Stands d (p.part 0)

theorem attends_start (measured : side.trim.Walkable) (walkable : counted.trim.Walkable) :
    Attends side counted 0
      (.ofParts counted.start.document [side.start, counted.start]) where
  counts := ⟨0, stands_start_trim counted walkable⟩
  same := rfl
  lengths := ⟨0, UInt32.le_refl 0, stands_start_trim side measured⟩

theorem Attends.moved (walkable : counted.trim.Walkable) (h : Attends side counted d p)
    {target : DocId} (ahead : p.document ≤ target) :
    Attends side counted d
      (.ofParts (counted.advance (p.part 1) target).document
        [p.part 0, counted.advance (p.part 1) target]) where
  counts := by
    obtain ⟨t, here⟩ := h.counts
    have f := follows counted.trim walkable
    have before : (p.part 1).document ≤ target := h.same ▸ ahead
    have moved := f.move here (UInt32.le_trans (f.first here).le before) before
    rw [advance_trim] at moved
    exact ⟨target, moved⟩
  same := rfl
  lengths := h.lengths

theorem Attends.caught (measured : side.trim.Walkable) (h : Attends side counted d p)
    {target : DocId} (le : d ≤ target) :
    side.trim.Stands target (catchUp side.advance (p.part 0) target) := by
  obtain ⟨t, before, here⟩ := h.lengths
  rw [← advance_trim]
  exact (follows side.trim measured).catchUp here (UInt32.le_trans before le)

end Places

variable [Arithmetic α]

/-- The places of a plan that has been moved forward and has scored documents in ascending order,
none of them after `d`. -/
inductive Driven (plan : Plan α) : DocId → Position → Prop
  | start : Driven plan 0 plan.start
  | moved {d target : DocId} {p : Position} (h : Driven plan d p) (ahead : p.document ≤ target) :
      Driven plan d (plan.advance p target)
  | scored {d : DocId} {p : Position} (h : Driven plan d p) (ctx : Context)
      (delta : Option (Delta α)) (le : d ≤ ctx.document) (notDone : ctx.document ≠ terminated) :
      Driven plan ctx.document (plan.score p ctx delta).position
  | later {d d' : DocId} {p : Position} (h : Driven plan d p) (le : d ≤ d') : Driven plan d' p

/-- The parts whose scores make up the score of a plan, each with its place. -/
inductive Part : Plan α → Position → Plan α → Position → Prop
  | self (plan : Plan α) (p : Position) : Part plan p plan p
  | combine {method : Method} {mode : Mode} {children : List (Plan α)} {weights : List α}
      {child part : Plan α} {p q r : Position} (member : (child, q) ∈ children.zip p.parts)
      (h : Part child q part r) : Part (.combine method mode children weights) p part r
  | log {child part : Plan α} {p r : Position} (h : Part child p part r) :
      Part (.log child) p part r
  | scale {weight : α} {child part : Plan α} {p r : Position} (h : Part child p part r) :
      Part (.scale weight child) p part r
  | require {filter scorer part : Plan α} {p r : Position} (h : Part scorer (p.part 1) part r) :
      Part (.require filter scorer) p part r

section Parts

variable {d : DocId} {p : Position}

theorem Driven.caught {plan : Plan α} (h : Driven plan d p) (target : DocId) :
    Driven plan d (catchUp plan.advance p target) :=
  kept_catchUp (ι := Plan α) (R := fun plan p => Driven plan d p)
    (fun _ _ before here => here.moved (UInt32.le_of_lt before)) target h

/-- A plan is driven to every document that it holds. -/
theorem exists_driven {plan : Plan α} (walkable : plan.trim.Walkable)
    (member : plan.trim.has d = true) : ∃ p, Driven plan 0 p ∧ p.document = d := by
  refine ⟨catchUp plan.advance plan.start d, Driven.start.caught d, ?_⟩
  have f := follows plan.trim walkable
  have there := f.catchUp (stands_start_trim plan walkable) (UInt32.zero_le (a := d))
  rw [advance_trim] at there
  have first := f.first there
  exact UInt32.le_antisymm (first.least member (UInt32.le_refl d)) first.le

theorem driven_settle {children : List (Plan α)} {parts : List Position}
    (h : List.Forall₂ (fun child q => Driven child d q) children parts) (mode : Mode)
    (order : List Nat) (target : DocId) :
    List.Forall₂ (fun child q => Driven child d q) children
      (moveGroup mode (movers children) order target parts).parts := by
  rw [moveGroup, movers_eq]
  refine forall₂_settle ?_ mode order target h
  exact fun child _ q t before here => here.moved (UInt32.le_of_lt before)

theorem driven_combine {method : Method} {mode : Mode} {children : List (Plan α)}
    {weights : List α} (h : Driven (.combine method mode children weights) d p) :
    List.Forall₂ (fun child q => Driven child d q) children p.parts := by
  induction h with
  | start =>
    refine driven_settle ?_ mode _ 0
    rw [starts_eq, List.forall₂_map_right_iff, List.forall₂_same]
    exact fun child _ => .start
  | moved _ ahead ih =>
    rw [advance]
    split
    · exact ih
    · exact driven_settle ih mode _ _
  | @scored d p h ctx delta le notDone ih =>
    have now := List.Forall₂.imp (fun child q (here : Driven child d q) => here.later le) ih
    have step (child : Plan α) (q : Position) (delta : Option (Delta α))
        (here : Driven child ctx.document q) :
        Driven child ctx.document (child.score q ctx delta).position :=
      here.scored ctx delta (UInt32.le_refl _) notDone
    cases method with
    | sum => exact forall₂_scoreSum (fun child _ q => step child q none) now _ _ _ _
    | greatest => exact forall₂_scoreEach (fun child _ => step child) now _ _
  | later _ le ih => exact List.Forall₂.imp (fun child q here => here.later le) ih

theorem exists_place {method : Method} {mode : Mode} {children : List (Plan α)}
    {weights : List α} (h : Driven (.combine method mode children weights) d p) {child : Plan α}
    (member : child ∈ children) : ∃ q, (child, q) ∈ children.zip p.parts := by
  rw [← List.map_fst_zip (driven_combine h).length_eq.le, List.mem_map] at member
  obtain ⟨⟨_, q⟩, among, rfl⟩ := member
  exact ⟨q, among⟩

/-- What a function of a score does to the place is what the scored plan does. -/
theorem Driven.inner {plan child : Plan α} (h : Driven plan d p)
    (starts : plan.start = child.start) (moves : plan.advance = child.advance)
    (scores : ∀ p ctx delta,
      (plan.score p ctx delta).position = (child.score p ctx delta).position) :
    Driven child d p := by
  induction h with
  | start => exact starts ▸ .start
  | moved _ ahead ih => exact moves ▸ ih.moved ahead
  | scored _ ctx delta le notDone ih => exact scores _ ctx delta ▸ ih.scored ctx delta le notDone
  | later _ le ih => exact ih.later le

theorem driven_log {child : Plan α} (h : Driven (.log child) d p) : Driven child d p :=
  h.inner rfl rfl fun _ _ _ => rfl

theorem driven_scale {weight : α} {child : Plan α} (h : Driven (.scale weight child) d p) :
    Driven child d p :=
  h.inner rfl rfl fun _ _ _ => rfl

theorem driven_joinFilter {scorer : Plan α} {filter side : Position} (h : Driven scorer d side) :
    Driven scorer d ((joinFilter scorer.advance filter side).part 1) := by
  change Driven scorer d (if filter.document = terminated then side
    else catchUp scorer.advance side filter.document)
  split
  · exact h
  · exact h.caught filter.document

theorem driven_require {filter scorer : Plan α} (h : Driven (.require filter scorer) d p) :
    Driven scorer d (p.part 1) := by
  induction h with
  | start => exact driven_joinFilter .start
  | moved _ _ ih => exact driven_joinFilter ih
  | scored _ ctx delta le notDone ih =>
    rw [score]
    dsimp only
    split
    · exact ih.scored ctx delta le notDone
    · exact ih.later le
  | later _ le ih => exact ih.later le

theorem driven_of_part {plan part : Plan α} {r : Position} (h : Driven plan d p)
    (among : Part plan p part r) : Driven part d r := by
  induction among with
  | self => exact h
  | combine member _ ih => exact ih (List.forall₂_zip (driven_combine h) member)
  | log _ ih => exact ih (driven_log h)
  | scale _ ih => exact ih (driven_scale h)
  | require _ ih => exact ih (driven_require h)

end Parts

section Scorers

variable {side counted : Plan α} {model : Dirichlet α} {d : DocId} {p : Position}

theorem Driven.attends (walkable : (dirichlet side counted model).trim.Walkable)
    (h : Driven (.dirichlet side counted model) d p) : Attends side counted d p := by
  induction h with
  | start => exact attends_start walkable.1 walkable.2
  | moved _ ahead ih => exact ih.moved walkable.2 ahead
  | scored _ ctx delta le notDone ih =>
    exact ⟨ih.counts, ih.same, ctx.document, UInt32.le_refl _, ih.caught walkable.1 le⟩
  | later _ le ih => exact ⟨ih.counts, ih.same, ih.lengths.later le⟩

/-- The lengths are not brought along where there is nothing to score. -/
theorem Driven.attends_bm25 {model : Bm25 α}
    (walkable : (bm25 side counted model).trim.Walkable)
    (h : Driven (.bm25 side counted model) d p) : Attends side counted d p := by
  induction h with
  | start => exact attends_start walkable.1 walkable.2
  | moved _ ahead ih => exact ih.moved walkable.2 ahead
  | scored _ ctx delta le notDone ih =>
    rw [score]
    split
    · exact ⟨ih.counts, ih.same, ih.lengths.later le⟩
    · exact ⟨ih.counts, ih.same, ctx.document, UInt32.le_refl _, ih.caught walkable.1 le⟩
  | later _ le ih => exact ⟨ih.counts, ih.same, ih.lengths.later le⟩

end Scorers

end RankedRetrieval.Plan
