import RankedRetrieval.Proofs.Plan.Contents

set_option autoImplicit false

namespace RankedRetrieval.Plan

variable {α : Type}

open Axis

def Readable {β : Type} (key : β → DocId) (entries : Array β) : Prop :=
  Ascending key entries ∧ listed key entries terminated = false

mutual

def Walkable : Plan α → Prop
  | .extents postings => Readable Posting.document postings
  | .counts postings => Readable Posting.document postings
  | .lengths entries => Readable Prod.fst entries
  | .prior entries _ => Readable Prod.fst entries
  | .window _ _ children => WalkableAll children
  | .synonym children => WalkableAll children
  | .synonymCounts children => WalkableAll children
  | .passageFilter child => child.Walkable
  | .passageLength child => child.Walkable
  | .dirichlet side counted _ => side.Walkable ∧ counted.Walkable
  | .bm25 side counted _ => side.Walkable ∧ counted.Walkable
  | .combine _ _ children _ => WalkableAll children
  | .log child => child.Walkable
  | .scale _ child => child.Walkable
  | .require filter scorer => filter.Walkable ∧ scorer.Walkable
  | .boolean _ children => WalkableAll children

def WalkableAll : List (Plan α) → Prop
  | [] => True
  | child :: children => child.Walkable ∧ WalkableAll children

end

def StandsOnAny (all : DocId → List Position → Prop) (t : DocId) (p : Position) : Prop :=
  p.document = earliest p.parts ∧ all t p.parts

/-- Standing where all children agree. At the end they need not agree. -/
def StandsOnAll (has : DocId → Bool) (covers : List Nat → Prop)
    (all : DocId → List Position → Prop) (t : DocId) (p : Position) : Prop :=
  IsFirst has t p.document ∧ covers p.order ∧
    (p.document ≠ terminated → all p.document p.parts ∧ ∀ q ∈ p.parts, q.document = p.document)

/-- Standing where the children of a group do. A group of which all have to agree may leave its
children at different targets. -/
def StandsOn (mode : Mode) (children : List (Plan α)) (all : DocId → List Position → Prop)
    (somewhere : List Position → Prop) (t : DocId) (p : Position) : Prop :=
  match mode with
  | .any => StandsOnAny all t p
  | .all =>
    StandsOnAll (hasAll has children) (fun order => Covers order children) all t p ∧
      somewhere p.parts

mutual

def Stands : Plan α → DocId → Position → Prop
  | .extents postings, t, p => LeafStands Posting.document postings t p
  | .counts postings, t, p => LeafStands Posting.document postings t p
  | .lengths entries, t, p => LeafStands Prod.fst entries t p
  | .prior entries _, t, p => LeafStands Prod.fst entries t p
  | .window order width children, t, p =>
    StandsOnAll (hasShown has children (windowsIn order width children))
      (fun order => Covers order children) (StandAll children) t p ∧
      p.found = foundAt (windowsIn order width children) p.document
  | .synonym children, t, p => StandsOn .any children (StandAll children) (StandSome children) t p
  | .synonymCounts children, t, p =>
    StandsOn .any children (StandAll children) (StandSome children) t p
  | .passageFilter child, t, p => child.Stands t p
  | .passageLength child, t, p => child.Stands t p
  | .dirichlet _ counted _, t, p =>
    counted.Stands t (p.part 1) ∧ p.document = (p.part 1).document
  | .bm25 _ counted _, t, p =>
    counted.Stands t (p.part 1) ∧ p.document = (p.part 1).document
  | .combine _ mode children _, t, p =>
    StandsOn mode children (StandAll children) (StandSome children) t p
  | .log child, t, p => child.Stands t p
  | .scale _ child, t, p => child.Stands t p
  | .require filter scorer, t, p =>
    filter.Stands t (p.part 0) ∧ p.document = (p.part 0).document ∧
      (p.document ≠ terminated → scorer.Stands p.document (p.part 1))
  | .boolean mode children, t, p =>
    StandsOn mode children (StandAll children) (StandSome children) t p

def StandAll : List (Plan α) → DocId → List Position → Prop
  | [], _, parts => parts = []
  | _ :: _, _, [] => False
  | child :: children, t, p :: parts => child.Stands t p ∧ StandAll children t parts

def StandSome : List (Plan α) → List Position → Prop
  | [], parts => parts = []
  | _ :: _, [] => False
  | child :: children, p :: parts => (∃ s, child.Stands s p) ∧ StandSome children parts

end

theorem walkableAll_iff {children : List (Plan α)} :
    WalkableAll children ↔ ∀ child ∈ children, child.Walkable := by
  induction children with
  | nil => simp [WalkableAll]
  | cons child children ih => rw [WalkableAll, ih, List.forall_mem_cons]

theorem standAll_eq (children : List (Plan α)) : StandAll children = AllStand Stands children := by
  funext t parts
  induction children generalizing parts with
  | nil => simp [StandAll, AllStand]
  | cons child children ih =>
    cases parts with
    | nil => simp [StandAll, AllStand]
    | cons p parts =>
      rw [StandAll, ih, AllStand, AllStand, List.forall₂_cons]

theorem standSome_eq (children : List (Plan α)) :
    StandSome children = Somewhere Stands children := by
  funext parts
  induction children generalizing parts with
  | nil => simp [StandSome, Somewhere]
  | cons child children ih =>
    cases parts with
    | nil => simp [StandSome, Somewhere]
    | cons p parts =>
      rw [StandSome, ih, Somewhere, Somewhere, List.forall₂_cons]

theorem entryAt_eq_find? {β : Type} {key : β → DocId} {entries : Array β}
    (ascending : Ascending key entries) {t d : DocId} {p : Position}
    (h : LeafStands key entries t p) (le : t ≤ d) (le' : d ≤ p.document) :
    entryAt key entries p d = entries.find? fun e => key e = d := by
  obtain ⟨i, rfl, _, before⟩ := h
  have early (j : Nat) (hj : j < entries.size) (lt : j < i) : key entries[j] ≠ d := by
    have := before j hj lt
    intro same
    rw [same] at this
    exact absurd le (UInt32.not_le.2 this)
  by_cases hi : i < entries.size
  · rw [document_leaf_of_lt key entries hi] at le'
    have there : entries[(leaf key entries i).offset]? = some entries[i] :=
      Array.getElem?_eq_getElem hi
    rw [entryAt, there]
    by_cases same : key entries[i] = d
    · rw [Option.filter_some_pos (by simpa using same), eq_comm, Array.find?_eq_some_iff_getElem]
      exact ⟨by simpa using same, i, hi, rfl, fun j lt => by simpa using early j _ lt⟩
    · rw [Option.filter_some_neg (by simpa using same), eq_comm, Array.find?_eq_none]
      intro entry member
      obtain ⟨j, hj, rfl⟩ := Array.mem_iff_getElem.1 member
      by_cases lt : j < i
      · simpa using early j hj lt
      · have := le_of_ascending ascending hi hj (Nat.not_lt.1 lt)
        have : key entries[j] ≠ d := by grind
        simpa using this
  · have there : entries[(leaf key entries i).offset]? = none :=
      Array.getElem?_eq_none (Nat.not_lt.1 hi)
    rw [entryAt, there, Option.filter_none, eq_comm, Array.find?_eq_none]
    intro entry member
    obtain ⟨j, hj, rfl⟩ := Array.mem_iff_getElem.1 member
    simpa using early j hj (by omega)

theorem entryAt_of_away {β : Type} {key : β → DocId} {entries : Array β} {t d : DocId}
    {p : Position} (h : LeafStands key entries t p)
    (away : listed key entries d = false ∨ d < t) : entryAt key entries p d = none := by
  obtain ⟨i, rfl, le, _⟩ := h
  by_cases hi : i < entries.size
  · rw [document_leaf_of_lt key entries hi] at le
    have there : entries[(leaf key entries i).offset]? = some entries[i] :=
      Array.getElem?_eq_getElem hi
    have other : key entries[i] ≠ d := by
      rintro rfl
      rcases away with lacks | passed
      · rw [listed_iff.2 ⟨i, hi, rfl⟩] at lacks
        cases lacks
      · exact absurd le (UInt32.not_le.2 passed)
    rw [entryAt, there, Option.filter_some_neg (by simpa using other)]
  · have there : entries[(leaf key entries i).offset]? = none :=
      Array.getElem?_eq_none (Nat.not_lt.1 hi)
    rw [entryAt, there, Option.filter_none]

section Groups

variable {children : List (Plan α)}

def hasOn (mode : Mode) (children : List (Plan α)) : DocId → Bool :=
  match mode with
  | .any => hasAny has children
  | .all => hasAll has children

theorem standsOn_moveGroup
    (follows : ∀ child ∈ children, Follows child.has child.Stands child.advance) (mode : Mode)
    {order : List Nat} (covers : mode = .all → Covers order children) {t target : DocId}
    {parts : List Position} (h : AllStand Stands children t parts) (le : t ≤ target) :
    StandsOn mode children (AllStand Stands children) (Somewhere Stands children) target
      (moveGroup mode (movers children) order target parts) := by
  rw [movers_eq]
  cases mode with
  | any => exact ⟨rfl, allStand_catchUp follows h le⟩
  | all =>
    obtain ⟨first, agreed, somewhere⟩ := settle_all follows (covers rfl) target parts (h.reached le)
    exact ⟨⟨first, covers rfl, fun notDone => agreed_iff.1 (agreed notDone)⟩, somewhere⟩

theorem follows_group (follows : ∀ child ∈ children, Follows child.has child.Stands child.advance)
    (mode : Mode) :
    Follows (hasOn mode children)
      (StandsOn mode children (AllStand Stands children) (Somewhere Stands children))
      fun p target =>
        if target = p.document then p
        else moveGroup mode (movers children) p.order target p.parts where
  below := by
    cases mode with
    | any =>
      rw [hasOn, hasAny, List.any_eq_false]
      intro child member
      rw [(follows child member).below]
      exact Bool.false_ne_true
    | all => exact hasAll_terminated follows
  first := by
    intro t p h
    cases mode with
    | any =>
      rw [h.1]
      exact isFirst_earliest follows h.2
    | all => exact h.1.1
  later := by
    intro t t' p h le le'
    cases mode with
    | any => exact ⟨h.1, allStand_later follows h.2 le (h.1 ▸ le')⟩
    | all => exact ⟨⟨h.1.1.later le le', h.1.2⟩, h.2⟩
  move := by
    intro t target p h le le'
    cases mode with
    | any =>
      split
      · rename_i same
        exact ⟨h.1, allStand_later follows h.2 le (h.1 ▸ UInt32.le_of_eq same)⟩
      · exact standsOn_moveGroup follows .any (fun other => Mode.noConfusion other) h.2 le
    | all =>
      split
      · rename_i same
        exact ⟨⟨h.1.1.later le (UInt32.le_of_eq same), h.1.2⟩, h.2⟩
      · rename_i other
        have notDone : p.document ≠ terminated := by
          have := le_terminated target
          grind
        exact standsOn_moveGroup follows .all (fun _ => h.1.2.1) (h.1.2.2 notDone).1 le'

theorem hasOn_eq_inAny : hasOn .any children = inAny children := by
  funext d
  rw [inAny_eq, hasOn]

theorem has_combine (method : Method) (mode : Mode) (weights : List α) :
    (combine method mode children weights).has = hasOn mode children := by
  funext d
  cases mode with
  | any => rw [has, inAny_eq, hasOn]
  | all => rw [has, inAll_nonempty, hasOn]

theorem has_boolean (mode : Mode) : (boolean mode children).has = hasOn mode children := by
  funext d
  cases mode with
  | any => rw [has, inAny_eq, hasOn]
  | all => rw [has, inAll_nonempty, hasOn]

/-- A plan that stands and moves as its children do together. -/
theorem follows_grouped {plan : Plan α}
    (follows : ∀ child ∈ children, Follows child.has child.Stands child.advance) (mode : Mode)
    (has : plan.has = hasOn mode children)
    (stands : plan.Stands = StandsOn mode children (StandAll children) (StandSome children))
    (moves : plan.advance = fun p target =>
      if target = p.document then p
      else moveGroup mode (movers children) p.order target p.parts) :
    Follows plan.has plan.Stands plan.advance := by
  rw [moves]
  exact (follows_group follows mode).congr has (by rw [stands, standAll_eq, standSome_eq])

/-- Where a plan stands it reports what it holds, both on its own document and before it. -/
structure Faithful (plan : Plan α) : Prop where
  follows : Follows plan.has plan.Stands plan.advance
  reads : ∀ {t p} {ctx : Context}, plan.Stands t p → t ≤ ctx.document →
    ctx.document ≤ p.document → ctx.document ≠ terminated → plan.extentsAt p ctx = plan.spansIn ctx

theorem extentsOfEach_eq (faithful : ∀ child ∈ children, Faithful child) {ctx : Context}
    {parts : List Position} (h : Agreed Stands children ctx.document parts)
    (notDone : ctx.document ≠ terminated) :
    extentsOfEach children parts ctx = spansOfEach children ctx := by
  induction h with
  | nil => rfl
  | @cons child p children parts first _ ih =>
    have here := (faithful child List.mem_cons_self).reads first.1 (UInt32.le_refl _)
      (UInt32.le_of_eq first.2.symm) notDone
    have rest := ih fun child member => faithful child (List.mem_cons_of_mem _ member)
    rw [extentsOfEach, spansOfEach, here, rest]

theorem gather_eq (faithful : ∀ child ∈ children, Faithful child) {t : DocId} {ctx : Context}
    {parts : List Position} (h : AllStand Stands children t parts) (le : t ≤ ctx.document)
    (le' : ctx.document ≤ earliest parts) (notDone : ctx.document ≠ terminated) :
    gather children parts ctx = (spansOfEach children ctx).flatten := by
  induction h with
  | nil => rfl
  | @cons child p children parts first _ ih =>
    simp only [earliest] at le'
    have here : ctx.document ≤ p.document := by grind
    have later : ctx.document ≤ earliest parts := by grind
    have f := faithful child List.mem_cons_self
    have rest := ih (fun child member => faithful child (List.mem_cons_of_mem _ member)) later
    rw [gather, spansOfEach, List.flatten_cons, rest, f.reads first le here notDone]
    by_cases same : p.matchesAt ctx.document = true
    · rw [if_pos same]
    · rw [if_neg same, spansIn_of_not_has]
      refine Bool.eq_false_iff.2 fun mem => same ?_
      have := (f.follows.first first).least mem le
      have : p.document = ctx.document := by grind
      simp [Position.matchesAt, notDone, this]

def WindowStands (order : WindowOrder) (width : Nat) (children : List (Plan α)) (t : DocId)
    (p : Position) : Prop :=
  StandsOnAll (hasShown has children (windowsIn order width children))
    (fun order => Covers order children) (AllStand Stands children) t p ∧
    p.found = foundAt (windowsIn order width children) p.document

theorem windowStands_moveWindow (faithful : ∀ child ∈ children, Faithful child)
    (order : WindowOrder) (width : Nat) {turns : List Nat} (covers : Covers turns children)
    {t target : DocId} {parts : List Position} (h : AllStand Stands children t parts)
    (le : t ≤ target) :
    WindowStands order width children target
      (moveWindow (movers children) (findWindows order width children) turns target parts) := by
  have follows child (member : child ∈ children) := (faithful child member).follows
  have reads (e : DocId) (parts : List Position) (notDone : e ≠ terminated)
      (agreed : Agreed Stands children e parts) :
      findWindows order width children e parts = windowsIn order width children e := by
    have agreed : Agreed Stands children (Context.whole e).document parts := agreed
    rw [findWindows, windowsIn, extentsOfEach_eq faithful agreed notDone]
  rw [movers_eq]
  obtain ⟨first, agreed, _⟩ := settle_all follows covers target parts (h.reached le)
  obtain ⟨sought, found, there⟩ := seek_windows follows covers reads _ _ target first agreed
  exact ⟨⟨sought, covers, fun notDone => agreed_iff.1 (there notDone)⟩, found⟩

theorem follows_window (faithful : ∀ child ∈ children, Faithful child) (order : WindowOrder)
    (width : Nat) :
    Follows (hasShown has children (windowsIn order width children))
      (WindowStands order width children)
      fun p target =>
        if target = p.document then p
        else moveWindow (movers children) (findWindows order width children) p.order target
          p.parts where
  below := by
    have follows child (member : child ∈ children) := (faithful child member).follows
    rw [hasShown, hasAll_terminated follows, Bool.false_and]
  first h := h.1.1
  later h le le' := ⟨⟨h.1.1.later le le', h.1.2⟩, h.2⟩
  move := by
    intro t target p h le le'
    split
    · rename_i same
      exact ⟨⟨h.1.1.later le (UInt32.le_of_eq same), h.1.2⟩, h.2⟩
    · rename_i other
      have notDone : p.document ≠ terminated := by
        have := le_terminated target
        grind
      exact windowStands_moveWindow faithful order width h.1.2.1 (h.1.2.2 notDone).1 le'

end Groups

theorem windowsIn_eq_nil {children : List (Plan α)} {order : WindowOrder} {width : Nat} {d : DocId}
    (h : hasShown has children (windowsIn order width children) d = false) :
    windowsIn order width children d = [] := by
  have same := spansIn_of_not_has (.window order width children) (.whole d) ?_
  · exact same
  · rw [has, inAll_nonempty]
    exact h

theorem part_ofParts_zero (d : DocId) (p q : Position) : (Position.ofParts d [p, q]).part 0 = p :=
  rfl

theorem part_ofParts_one (d : DocId) (p q : Position) : (Position.ofParts d [p, q]).part 1 = q :=
  rfl

/-- The place of a part that may be behind. -/
def Trails (stands : DocId → Position → Prop) (t : DocId) (p : Position) : Prop :=
  ∃ s, s ≤ t ∧ stands s p

theorem Trails.later {stands : DocId → Position → Prop} {t t' : DocId} {p : Position}
    (h : Trails stands t p) (le : t ≤ t') : Trails stands t' p := by
  obtain ⟨s, before, here⟩ := h
  exact ⟨s, UInt32.le_trans before le, here⟩

theorem follows_scorer {counted : Plan α}
    (f : Follows counted.has counted.Stands counted.advance) :
    Follows counted.has
      (fun t p => counted.Stands t (p.part 1) ∧ p.document = (p.part 1).document)
      fun p target =>
        .ofParts (counted.advance (p.part 1) target).document
          [p.part 0, counted.advance (p.part 1) target] where
  below := f.below
  first := by
    rintro t p ⟨here, same⟩
    rw [same]
    exact f.first here
  later := by
    rintro t t' p ⟨here, same⟩ le le'
    exact ⟨f.later here le (same ▸ le'), same⟩
  move := by
    rintro t target p ⟨here, same⟩ le le'
    exact ⟨f.move here le (same ▸ le'), rfl⟩

/-- A filter that stands for a target brings the scorer up to it, unless it has run out. -/
theorem stands_joinFilter {filter scorer : Plan α}
    (g : Follows scorer.has scorer.Stands scorer.advance) {s t : DocId} {p side : Position}
    (here : filter.Stands t p)
    (behind : p.document ≠ terminated → scorer.Stands s side ∧ s ≤ p.document) :
    (filter.require scorer).Stands t (joinFilter scorer.advance p side) := by
  refine ⟨here, rfl, fun notDone => ?_⟩
  have ahead : p.document ≠ terminated := notDone
  have joined := g.catchUp (behind ahead).1 (behind ahead).2
  rw [joinFilter, if_neg ahead]
  exact joined

theorem follows_require {filter scorer : Plan α}
    (f : Follows filter.has filter.Stands filter.advance)
    (g : Follows scorer.has scorer.Stands scorer.advance) :
    Follows filter.has (filter.require scorer).Stands (filter.require scorer).advance where
  below := f.below
  first := by
    rintro t p ⟨here, same, _⟩
    rw [same]
    exact f.first here
  later := by
    rintro t t' p ⟨here, same, joined⟩ le le'
    exact ⟨f.later here le (same ▸ le'), same, joined⟩
  move := by
    rintro t target p ⟨here, same, joined⟩ le le'
    have moved := f.catchUp here le
    have ahead := UInt32.le_trans le' (f.first moved).le
    refine stands_joinFilter g moved fun notDone => ⟨joined ?_, ahead⟩
    intro done
    rw [done] at ahead
    exact notDone (UInt32.le_antisymm (le_terminated _) ahead)

theorem faithful_of_follows {plan : Plan α} (follows : Follows plan.has plan.Stands plan.advance)
    (none : ∀ p ctx, plan.extentsAt p ctx = []) (none' : ∀ ctx, plan.spansIn ctx = []) :
    Faithful plan where
  follows := follows
  reads := by
    intro t p ctx _ _ _ _
    rw [none, none']

theorem faithful_window {children : List (Plan α)} (all : ∀ child ∈ children, Faithful child)
    (order : WindowOrder) (width : Nat) : Faithful (.window order width children) where
  follows := by
    refine (follows_window all order width).congr ?_ ?_
    · funext d
      rw [has, inAll_nonempty, hasShown]
    · funext t p
      rw [Stands, standAll_eq, WindowStands]
  reads := by
    intro t p ctx here le le' notDone
    rw [Stands, standAll_eq] at here
    rw [extentsAt]
    split
    · rename_i same
      rw [here.2, foundAt, ← same, if_neg notDone, spansIn, windowsIn]
    · rename_i other
      rw [spansIn, eq_comm]
      refine windowsIn_eq_nil (Bool.eq_false_iff.2 fun mem => other ?_)
      have := here.1.1.least mem le
      grind

theorem faithful_synonym {children : List (Plan α)} (all : ∀ child ∈ children, Faithful child) :
    Faithful (.synonym children) where
  follows := follows_grouped (fun child member => (all child member).follows) .any
    hasOn_eq_inAny.symm rfl rfl
  reads := by
    intro t p ctx here le le' notDone
    rw [Stands, standAll_eq, standSome_eq] at here
    rw [here.1] at le'
    rw [extentsAt, spansIn, gather_eq all here.2 le le' notDone]

theorem faithful (plan : Plan α) (h : plan.Walkable) : Faithful plan := by
  induction plan with
  | extents postings =>
    refine ⟨follows_leaf h.1 h.2, ?_⟩
    intro t p ctx here le le' _
    rw [extentsAt, spansIn, entryAt_eq_find? h.1 here le le']
  | counts postings =>
    exact faithful_of_follows (follows_leaf h.1 h.2) (fun _ _ => rfl) fun _ => rfl
  | lengths entries =>
    exact faithful_of_follows (follows_leaf h.1 h.2) (fun _ _ => rfl) fun _ => rfl
  | prior entries default =>
    exact faithful_of_follows (follows_leaf h.1 h.2) (fun _ _ => rfl) fun _ => rfl
  | window order width children ih =>
    have all child (member : child ∈ children) := ih child member (walkableAll_iff.1 h child member)
    exact faithful_window all order width
  | synonym children ih =>
    have all child (member : child ∈ children) := ih child member (walkableAll_iff.1 h child member)
    exact faithful_synonym all
  | synonymCounts children ih =>
    have follows child (member : child ∈ children) :=
      (ih child member (walkableAll_iff.1 h child member)).follows
    exact faithful_of_follows (follows_grouped follows .any hasOn_eq_inAny.symm rfl rfl)
      (fun _ _ => rfl) fun _ => rfl
  | passageFilter child ih =>
    obtain ⟨follows, reads⟩ := ih h
    refine ⟨⟨follows.below, follows.first, follows.later, follows.move⟩, ?_⟩
    intro t p ctx here le le' notDone
    rw [extentsAt, spansIn, reads here le le' notDone]
  | passageLength child ih =>
    exact faithful_of_follows (ih h).follows (fun _ _ => rfl) fun _ => rfl
  | dirichlet side counted model _ ih =>
    exact faithful_of_follows (follows_scorer (ih h.2).follows) (fun _ _ => rfl) fun _ => rfl
  | bm25 side counted model _ ih =>
    exact faithful_of_follows (follows_scorer (ih h.2).follows) (fun _ _ => rfl) fun _ => rfl
  | combine method mode children weights ih =>
    have follows child (member : child ∈ children) :=
      (ih child member (walkableAll_iff.1 h child member)).follows
    exact faithful_of_follows
      (follows_grouped follows mode (has_combine method mode weights) rfl rfl) (fun _ _ => rfl)
      fun _ => rfl
  | log child ih => exact faithful_of_follows (ih h).follows (fun _ _ => rfl) fun _ => rfl
  | scale weight child ih =>
    exact faithful_of_follows (ih h).follows (fun _ _ => rfl) fun _ => rfl
  | require filter scorer ih ih' =>
    exact faithful_of_follows (follows_require (ih h.1).follows (ih' h.2).follows)
      (fun _ _ => rfl) fun _ => rfl
  | boolean mode children ih =>
    have follows child (member : child ∈ children) :=
      (ih child member (walkableAll_iff.1 h child member)).follows
    exact faithful_of_follows (follows_grouped follows mode (has_boolean mode) rfl rfl)
      (fun _ _ => rfl) fun _ => rfl

theorem follows (plan : Plan α) (h : plan.Walkable) :
    Follows plan.has plan.Stands plan.advance := (faithful plan h).follows

section Start

variable {children : List (Plan α)}

theorem length_starts (children : List (Plan α)) : (starts children).length = children.length := by
  rw [starts_eq, List.length_map]

theorem covers_start (children : List (Plan α)) :
    Covers (byCost (costs children (starts children))) children :=
  covers_byCost (costs_length (length_starts children))

theorem allStand_starts (h : ∀ child ∈ children, child.Stands 0 child.start) :
    AllStand Stands children 0 (starts children) := by
  rw [starts_eq, AllStand, List.forall₂_map_right_iff, List.forall₂_same]
  exact h

theorem standsOn_startGroup (walkable : WalkableAll children)
    (h : ∀ child ∈ children, child.Stands 0 child.start) (mode : Mode) :
    StandsOn mode children (StandAll children) (StandSome children) 0
      (startGroup mode children (starts children)) := by
  have follows child (member : child ∈ children) :=
    follows child (walkableAll_iff.1 walkable child member)
  rw [standAll_eq, standSome_eq, startGroup]
  exact standsOn_moveGroup follows mode (fun _ => covers_start children) (allStand_starts h)
    (UInt32.le_refl 0)

end Start

theorem stands_start (plan : Plan α) (h : plan.Walkable) : plan.Stands 0 plan.start := by
  induction plan with
  | extents | counts | lengths | prior => exact leafStands_start _ _
  | window order width children ih =>
    have walkable := walkableAll_iff.1 h
    have all child (member : child ∈ children) := faithful child (walkable child member)
    have starts := allStand_starts fun child member => ih child member (walkable child member)
    rw [Stands, standAll_eq]
    exact windowStands_moveWindow all order width (covers_start children) starts
      (UInt32.le_refl 0)
  | synonym children ih | synonymCounts children ih =>
    have walkable := walkableAll_iff.1 h
    exact standsOn_startGroup h (fun child member => ih child member (walkable child member)) .any
  | combine method mode children weights ih =>
    have walkable := walkableAll_iff.1 h
    exact standsOn_startGroup h (fun child member => ih child member (walkable child member)) mode
  | boolean mode children ih =>
    have walkable := walkableAll_iff.1 h
    exact standsOn_startGroup h (fun child member => ih child member (walkable child member)) mode
  | passageFilter child ih | passageLength child ih | log child ih => exact ih h
  | scale weight child ih => exact ih h
  | dirichlet side counted model _ ih => exact ⟨ih h.2, rfl⟩
  | bm25 side counted model _ ih => exact ⟨ih h.2, rfl⟩
  | require filter scorer ih ih' =>
    exact stands_joinFilter (follows scorer h.2) (ih h.1) fun _ => ⟨ih' h.2, UInt32.zero_le⟩

theorem countsAt_eq {children : List (Plan α)} {t : DocId} {ctx : Context}
    {parts : List Position} (h : AllStand Stands children t parts)
    (counts : ∀ child ∈ children, ∀ p, child.Stands t p → ctx.document ≤ p.document →
      child.countAt p ctx = child.countIn ctx)
    (le : ctx.document ≤ earliest parts) :
    countsAt children parts ctx = wrapped (totalOfAll children ctx) := by
  induction h with
  | nil => rfl
  | @cons child p children parts first _ ih =>
    simp only [earliest] at le
    have here := counts child List.mem_cons_self p first (by grind)
    have rest := ih (fun child member => counts child (List.mem_cons_of_mem _ member)) (by grind)
    rw [countsAt, totalOfAll, here, rest]
    exact wrapped_add _ _

theorem countAt_eq (plan : Plan α) (h : plan.Walkable) {t : DocId} {p : Position} {ctx : Context}
    (here : plan.Stands t p) (le : t ≤ ctx.document) (le' : ctx.document ≤ p.document)
    (notDone : ctx.document ≠ terminated) : plan.countAt p ctx = plan.countIn ctx := by
  have byExtents := (faithful plan h).reads here le le' notDone
  induction plan generalizing p with
  | counts postings =>
    rw [countAt, countIn, totalIn, entryAt_eq_find? h.1 here le le']
  | synonymCounts children ih =>
    have walkable := walkableAll_iff.1 h
    rw [Stands, standAll_eq, standSome_eq] at here
    rw [countAt, countIn, totalIn]
    refine countsAt_eq here.2 ?_ (here.1 ▸ le')
    intro child member q standing before
    exact ih child member (walkable child member) standing before
      ((faithful child (walkable child member)).reads standing le before notDone)
  | _ =>
    simp only [countAt, countIn, totalIn]
    rw [byExtents]

theorem gather_eq_nil {children : List (Plan α)} {t : DocId} (ctx : Context)
    {parts : List Position} (h : AllStand Stands children t parts)
    (nothing : ∀ child ∈ children, ∀ p, child.Stands t p → child.extentsAt p ctx = []) :
    gather children parts ctx = [] := by
  induction h with
  | nil => rfl
  | @cons child p children parts first _ ih =>
    have here := nothing child List.mem_cons_self p first
    have rest := ih fun child member => nothing child (List.mem_cons_of_mem _ member)
    rw [gather, here, rest, ite_self]
    rfl

theorem countsAt_eq_zero {children : List (Plan α)} {t : DocId} {ctx : Context}
    {parts : List Position} (h : AllStand Stands children t parts)
    (nothing : ∀ child ∈ children, ∀ p, child.Stands t p → child.countAt p ctx = 0) :
    countsAt children parts ctx = 0 := by
  induction h with
  | nil => rfl
  | @cons child p children parts first _ ih =>
    have here := nothing child List.mem_cons_self p first
    have rest := ih fun child member => nothing child (List.mem_cons_of_mem _ member)
    rw [countsAt, here, rest]
    rfl

theorem extentsAt_of_away (plan : Plan α) {t : DocId} {p : Position} {ctx : Context}
    (here : plan.Stands t p) (notDone : ctx.document ≠ terminated)
    (away : plan.has ctx.document = false ∨ ctx.document < t) : plan.extentsAt p ctx = [] := by
  induction plan generalizing p with
  | extents postings =>
    rw [extentsAt, entryAt_of_away here away]
    rfl
  | window order width children ih =>
    rw [extentsAt]
    refine if_neg fun same => ?_
    have first := here.1.1
    rw [← same] at first
    rcases away with lacks | passed
    · rw [has, inAll_nonempty, ← hasShown, first.has_of_ne notDone] at lacks
      cases lacks
    · exact absurd first.le (UInt32.not_le.2 passed)
  | synonym children ih =>
    rw [Stands, standAll_eq] at here
    rw [has, inAny_eq, hasAny, List.any_eq_false] at away
    have nothing := gather_eq_nil ctx here.2 fun child member p standing =>
      ih child member standing (away.imp_left fun lacks => Bool.eq_false_iff.2 (lacks child member))
    rw [extentsAt, nothing, Span.arrange, List.mergeSort_nil]
    rfl
  | passageFilter child ih =>
    rw [extentsAt, ih here away]
    cases ctx.passage <;> rfl
  | _ => rfl

theorem countAt_of_away (plan : Plan α) {t : DocId} {p : Position} {ctx : Context}
    (here : plan.Stands t p) (notDone : ctx.document ≠ terminated)
    (away : plan.has ctx.document = false ∨ ctx.document < t) : plan.countAt p ctx = 0 := by
  have nothing := plan.extentsAt_of_away here notDone away
  induction plan generalizing p with
  | counts postings =>
    rw [countAt, entryAt_of_away here away]
    rfl
  | synonymCounts children ih =>
    rw [Stands, standAll_eq] at here
    rw [has, inAny_eq, hasAny, List.any_eq_false] at away
    rw [countAt]
    refine countsAt_eq_zero here.2 fun child member p standing => ?_
    have lacking := away.imp_left fun lacks => Bool.eq_false_iff.2 (lacks child member)
    exact ih child member standing lacking (child.extentsAt_of_away standing notDone lacking)
  | _ =>
    simp only [countAt]
    rw [nothing]
    rfl

theorem lengthAt_eq (plan : Plan α) (h : plan.Walkable) {t : DocId} {p : Position} {ctx : Context}
    (here : plan.Stands t p) (le : t ≤ ctx.document) (le' : ctx.document ≤ p.document) :
    plan.lengthAt p ctx = plan.lengthIn ctx := by
  induction plan with
  | lengths entries => rw [lengthAt, lengthIn, entryAt_eq_find? h.1 here le le']
  | passageLength child ih => rw [lengthAt, lengthIn, ih h here]
  | _ => rfl

end RankedRetrieval.Plan
