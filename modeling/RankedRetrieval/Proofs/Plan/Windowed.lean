import RankedRetrieval.Proofs.Plan.Counted
import RankedRetrieval.Proofs.Plan.Excerpt
import RankedRetrieval.Proofs.Span.Gathered

set_option autoImplicit false

/-!
# What the windows of a document are

A window cursor stands on a document just where it reports windows, and every window that it reports
is made of one span from each child. The converse needs lists whose stops do not fall, which is so
for all children but a synonym of windows (`rising_spansIn`). Then no document with an unordered
window is passed over, and none with an ordered one if the spans of a list that are within reach of
each other end together (`windows_along`). Without it the search passes over windows
(`windows_along_missed`).
-/

namespace RankedRetrieval

theorem rising_of_sorted {spans : List Span}
    (sorted : spans.Pairwise fun s t => s.precedes t = true)
    (single : ∀ s ∈ spans, s.stop = s.start + 1) : Rising spans := by
  refine ⟨sorted.imp fun before => ?_, sorted.imp_of_mem fun here there before => ?_,
    fun s member => ?_⟩
  · have := Span.precedes_iff.1 before
    omega
  · have := Span.precedes_iff.1 before
    have := single _ here
    have := single _ there
    omega
  · rw [single s member]
    exact Nat.le_succ _

namespace Plan

variable {α : Type}

mutual

/-- Whether all that a plan reports is single tokens. -/
def ofTokens : Plan α → Bool
  | .extents _ => true
  | .synonym children => allOfTokens children
  | .passageFilter child => child.ofTokens
  | _ => false

def allOfTokens : List (Plan α) → Bool
  | [] => true
  | child :: children => child.ofTokens && allOfTokens children

end

mutual

/-- Whether a plan reports single tokens or windows, and no synonym of windows is in it. -/
def steady : Plan α → Bool
  | .window _ _ children => allSteady children
  | .passageFilter child => child.steady
  | plan => plan.ofTokens

def allSteady : List (Plan α) → Bool
  | [] => true
  | child :: children => child.steady && allSteady children

end

theorem allOfTokens_iff {children : List (Plan α)} :
    allOfTokens children = true ↔ ∀ child ∈ children, child.ofTokens = true := by
  induction children with
  | nil => simp [allOfTokens]
  | cons child children ih => rw [allOfTokens, Bool.and_eq_true, ih, List.forall_mem_cons]

theorem allSteady_iff {children : List (Plan α)} :
    allSteady children = true ↔ ∀ child ∈ children, child.steady = true := by
  induction children with
  | nil => simp [allSteady]
  | cons child children ih => rw [allSteady, Bool.and_eq_true, ih, List.forall_mem_cons]

theorem rising_windows (order : WindowOrder) (width : Nat) {lists : List (List Span)}
    (rising : ∀ list ∈ lists, Rising list) : Rising (windows order width lists) := by
  cases order with
  | ordered => exact Window.rising_ordered rising
  | unordered => exact Window.rising_unordered rising

theorem kind_of_ofTokens {plan : Plan α} (tokens : plan.ofTokens = true) :
    plan.kind = .extent := by
  cases plan with
  | extents | synonym | passageFilter => rfl
  | _ => cases tokens

theorem kind_of_steady {plan : Plan α} (still : plan.steady = true) : plan.kind = .extent := by
  cases plan with
  | extents | window | synonym | passageFilter => rfl
  | _ => cases still

section Built

variable [Arithmetic α] {w : Workshop} {steps : List DraftStep} {plan : Plan α}

theorem rising_of_ofTokens (collected : w.collection = .ofSteps steps) (built : Built w plan)
    (tokens : plan.ofTokens = true) (ctx : Context) :
    Rising (plan.spansIn ctx) ∧ ∀ s ∈ plan.spansIn ctx, s.stop = s.start + 1 := by
  induction built with
  | extents field term =>
    rw [collected, Pattern.spansIn_extents]
    exact ⟨rising_occurrences _ _ _, fun s member => (occurrences_bounds member).2.1⟩
  | synonym children _ _ _ ih =>
    have each := allOfTokens_iff.1 tokens
    have single : ∀ s ∈ (synonym children).spansIn ctx, s.stop = s.start + 1 := by
      intro s member
      rw [spansIn, Span.mem_arrange, spansOfEach_eq, ← List.flatMap_def] at member
      obtain ⟨child, among, inside⟩ := List.mem_flatMap.1 member
      exact (ih child among (each child among)).2 s inside
    exact ⟨rising_of_sorted (Span.sorted_arrange _) single, single⟩
  | passageFilter child _ _ ih =>
    obtain ⟨rising, single⟩ := ih tokens
    have kept := restrict_sublist ctx.passage (child.spansIn ctx)
    exact ⟨rising.sublist kept, fun s member => single s (kept.subset member)⟩
  | scorer =>
    have kind := kind_of_ofTokens tokens
    rw [Workshop.kind_scorer] at kind
    cases kind
  | _ => cases tokens

/-- In the list of a child without a synonym of windows no span stops before an earlier one. -/
theorem rising_spansIn (collected : w.collection = .ofSteps steps) (built : Built w plan)
    (still : plan.steady = true) (ctx : Context) : Rising (plan.spansIn ctx) := by
  induction built generalizing ctx with
  | window order width children _ _ _ ih =>
    have each := allSteady_iff.1 still
    rw [spansIn, spansOfEach_eq]
    exact rising_windows order width (List.forall_mem_map.2 fun child member =>
      ih child member (each child member) _)
  | passageFilter child _ _ ih =>
    exact (ih still ctx).sublist (restrict_sublist ctx.passage (child.spansIn ctx))
  | extents field term => exact (rising_of_ofTokens collected (.extents field term) rfl ctx).1
  | synonym children nonempty all answers =>
    exact (rising_of_ofTokens collected (.synonym children nonempty all answers) still ctx).1
  | scorer =>
    have kind := kind_of_steady still
    rw [Workshop.kind_scorer] at kind
    cases kind
  | _ => cases still

theorem Built.of_window {order : WindowOrder} {width : Nat} {children : List (Plan α)}
    (built : Built w plan) (same : plan = .window order width children) :
    children ≠ [] ∧ ∀ child ∈ children, Built w child := by
  cases built with
  | window _ _ _ nonempty each =>
    cases same
    exact ⟨nonempty, each⟩
  | scorer =>
    have kind := congrArg Plan.kind same
    rw [Workshop.kind_scorer] at kind
    cases kind
  | _ => cases same

end Built

/-- One span of each list makes the window: in an ordered window each is linked to the one before,
in an unordered one all of them lie within the width. -/
def Makes (order : WindowOrder) (width : Nat) (lists : List (List Span)) (window : Span) : Prop :=
  match order, lists with
  | .ordered, [] => False
  | .ordered, first :: rest =>
    ∃ s ∈ first, s.start = window.start ∧ Window.Linked width s.stop rest window.stop
  | .unordered, lists => Window.Choice lists window ∧ window.stop - window.start ≤ width

def HoldsWindow (order : WindowOrder) (width : Nat) (lists : List (List Span)) : Prop :=
  match order, lists with
  | .ordered, [] => False
  | .ordered, first :: rest => ∃ s ∈ first, ∃ last, Window.Linked width s.stop rest last
  | .unordered, lists => ∃ chosen, List.Forall₂ (· ∈ ·) chosen lists ∧
    ∃ start, ∀ s ∈ chosen, start ≤ s.start ∧ s.stop ≤ start + width

theorem has_window_iff (order : WindowOrder) (width : Nat) (children : List (Plan α)) (d : DocId) :
    (window order width children).has d = true ↔
      (window order width children).spansIn (.whole d) ≠ [] := by
  refine ⟨fun mem => ?_, fun some => ?_⟩
  · rw [has, Bool.and_eq_true, Bool.not_eq_true', List.isEmpty_eq_false_iff] at mem
    exact mem.2
  · by_contra lacks
    exact some (spansIn_of_not_has _ (.whole d) (Bool.eq_false_iff.2 lacks))

theorem makes_of_windows {order : WindowOrder} {width : Nat} {lists : List (List Span)}
    {window : Span} (found : window ∈ windows order width lists) :
    Makes order width lists window := by
  cases order with
  | ordered =>
    cases lists with
    | nil => cases found
    | cons first rest => exact Window.linked_of_ordered found
  | unordered => exact Window.choice_of_unordered found

/-- Windows are found just where a window is held, if in each list no span stops before an earlier
one and, for ordered windows, the spans of a list between the first and the last that are within
reach of each other end together. -/
theorem windows_ne_nil_iff {order : WindowOrder} {width : Nat} {lists : List (List Span)}
    (rising : ∀ list ∈ lists, Rising list) (some : lists ≠ [])
    (apart : order = .ordered → ∀ list ∈ lists.tail.dropLast, Window.Apart width list) :
    windows order width lists ≠ [] ↔ HoldsWindow order width lists := by
  cases order with
  | ordered =>
    cases lists with
    | nil => exact absurd rfl some
    | cons first rest =>
      rw [windows, Window.ordered_eq_reach rising, Ne, List.filterMap_eq_nil_iff]
      push Not
      simp only [HoldsWindow, ← Option.isSome_iff_ne_none,
        Window.isSome_windowFrom_iff (List.forall_mem_cons.1 rising).2 (apart rfl)]
  | unordered => exact Window.exists_unordered_iff rising some

end Plan

namespace Cursor

open Plan Workshop

variable {α : Type} [Arithmetic α]

/-- A cursor that is brought to a document stands there just when its plan has the document. -/
theorem document_along_iff {w : Workshop} (ordered : w.collection.Ordered) {plan : Plan α}
    (built : Built w plan) {d : DocId} (notDone : d ≠ terminated) {targets : List DocId}
    (within : ∀ t ∈ targets, t ≤ d) :
    ((ofPlan plan).along targets d).document = d ↔ plan.trim.has d = true := by
  have walkable := built.walkable_trim ordered
  have starts : Trails plan.trim.Stands d (ofPlan plan).position :=
    ⟨0, UInt32.zero_le, stands_start_trim plan walkable⟩
  have f := follows plan.trim walkable
  have first := f.first (stands_along (c := ofPlan plan) walkable starts within).2
  rw [first.eq_target_iff f.below]
  exact ⟨fun same => ⟨same, fun done => notDone (same.symm.trans done)⟩, And.left⟩

/-- A window cursor that is brought to a document reports the windows over what its children hold
there, and stands there just when there are any. -/
theorem reports_along {w : Workshop} (ordered : w.collection.Ordered) {order : WindowOrder}
    {width : Nat} {children : List (Plan α)} (built : Built w (.window order width children))
    {d : DocId} (notDone : d ≠ terminated) {targets : List DocId} (within : ∀ t ∈ targets, t ≤ d) :
    let c := (ofPlan (.window order width children)).along targets d
    c.extentsAt (.whole d) = windows order width (spansOfEach children (.whole d)) ∧
      (c.document = d ↔ c.extentsAt (.whole d) ≠ []) := by
  intro c
  have reads := (reads_along ordered built notDone within none).1
  refine ⟨reads, ?_⟩
  rw [document_along_iff ordered built notDone within, trim, has_window_iff, ← trim,
    spansIn_trim _ notDone]
  exact not_congr (reads ▸ Iff.rfl)

/-- A window cursor stands on a document just when it has windows to report of it, and each of them
is one. If in the lists of the children no span stops before an earlier one, the ordered windows are
those of the nearest spans, and no document that holds a window is passed over; for ordered windows
the spans of a list between the first and the last that are within reach of each other have to end
together. -/
theorem windows_along (steps : List DraftStep) (w : Workshop)
    (collected : w.collection = .ofSteps steps) (q : Query) (order : WindowOrder) (width : Nat)
    (children : List (Plan α)) (built : w.build q = .ok (.window order width children)) (d : DocId)
    (notDone : d ≠ terminated) (targets : List DocId) (within : ∀ t ∈ targets, t ≤ d) :
    let c := (ofPlan (.window order width children)).along targets d
    let lists := spansOfEach children (.whole d)
    let apart := order = .ordered → ∀ list ∈ lists.tail.dropLast, Window.Apart width list
    (c.document = d ↔ c.extentsAt (.whole d) ≠ []) ∧
      (∀ window ∈ c.extentsAt (.whole d), Makes order width lists window) ∧
      ((∀ child ∈ children, child.steady = true) → ∀ list ∈ lists, Rising list) ∧
      ((∀ list ∈ lists, Rising list) →
        (apart → (c.document = d ↔ HoldsWindow order width lists)) ∧
        ∀ first rest, order = .ordered → lists = first :: rest →
          c.extentsAt (.whole d) = first.filterMap (Window.windowFrom width rest) ∧
            (apart → ∀ s ∈ first, (Window.windowFrom width rest s).isSome = true ↔
              ∃ last, Window.Linked width s.stop rest last)) := by
  intro c lists apart
  have ordered : w.collection.Ordered := collected ▸ Collection.ordered_ofSteps steps
  have whole := built_of_build w q built
  obtain ⟨nonempty, builtAll⟩ := whole.of_window rfl
  have mapped : lists = children.map fun child => child.spansIn (.whole d) :=
    spansOfEach_eq children _
  have some : lists ≠ [] := fun none => nonempty (List.map_eq_nil_iff.1 (mapped ▸ none))
  obtain ⟨reported, stands⟩ : c.extentsAt (.whole d) = windows order width lists ∧
      (c.document = d ↔ c.extentsAt (.whole d) ≠ []) := reports_along ordered whole notDone within
  rw [stands, reported]
  refine ⟨Iff.rfl, fun window => makes_of_windows, fun still list member => ?_,
    fun rising => ⟨windows_ne_nil_iff rising some, fun first rest inOrder same => ?_⟩⟩
  · rw [mapped] at member
    obtain ⟨child, among, rfl⟩ := List.mem_map.1 member
    exact rising_spansIn collected (builtAll child among) (still child among) _
  · subst inOrder
    rw [same] at rising ⊢
    refine ⟨Window.ordered_eq_reach rising, fun together s _ => ?_⟩
    have middle := together rfl
    rw [same] at middle
    exact Window.isSome_windowFrom_iff (List.forall_mem_cons.1 rising).2 middle

section Example

def term (t : String) : Query := .node "extents" (.single "term" (.string t)) []

def near (operator : String) (width : Int) (children : List Query) : Query :=
  .node operator (.single "width" (.number (.int width))) children

def either (children : List Query) : Query := .node "syn" .empty children

structure Shown where
  order : WindowOrder
  width : Nat
  still : Bool
  lists : List (List Span)
  found : List Span
  deriving DecidableEq

def Shown.of (order : WindowOrder) (width : Nat) (children : List (Plan Float)) : Shown where
  order
  width
  still := allSteady children
  lists := spansOfEach children (.whole 0)
  found := windows order width (spansOfEach children (.whole 0))

def shown (tokens : List String) (q : Query) : Option Shown :=
  match (workshopOf 0 tokens).build (α := Float) q with
  | .ok (.window order width children) => some (.of order width children)
  | _ => none

theorem of_shown {tokens : List String} {q : Query} {given : Shown}
    (h : shown tokens q = some given) : ∃ children : List (Plan Float),
      (workshopOf 0 tokens).build q = .ok (.window given.order given.width children) ∧
        .of given.order given.width children = given := by
  unfold shown at h
  split at h
  · rename_i built
    cases h
    exact ⟨_, built, rfl⟩
  · cases h

/-- A window of a window and a term, and a window of a window and two terms. -/
theorem windows_along_nested : ∃ children children' : List (Plan Float),
    (workshopOf 0 ["a", "x", "b", "c"]).build
        (near "uw" 4 [near "od" 2 [term "a", term "b"], term "c"]) =
      .ok (.window .unordered 4 children) ∧
    spansOfEach children (.whole 0) = [[⟨0, 3⟩], [⟨3, 4⟩]] ∧
    ((ofPlan (.window .unordered 4 children)).along [0] 0).document = 0 ∧
    (workshopOf 0 ["a", "b", "c", "x", "d"]).build
        (near "od" 2 [near "od" 1 [term "a", term "b"], term "c", term "d"]) =
      .ok (.window .ordered 2 children') ∧
    spansOfEach children' (.whole 0) = [[⟨0, 2⟩], [⟨2, 3⟩], [⟨4, 5⟩]] ∧
    ((ofPlan (.window .ordered 2 children')).along [] 0).document = 0 ∧
    ((ofPlan (.window .ordered 2 children')).along [] 0).extentsAt (.whole 0) = [⟨0, 5⟩] := by
  have nested : shown ["a", "x", "b", "c"]
      (near "uw" 4 [near "od" 2 [term "a", term "b"], term "c"]) =
        some ⟨.unordered, 4, true, [[⟨0, 3⟩], [⟨3, 4⟩]], [⟨0, 4⟩]⟩ := by decide +kernel
  have inOrder : shown ["a", "b", "c", "x", "d"]
      (near "od" 2 [near "od" 1 [term "a", term "b"], term "c", term "d"]) =
        some ⟨.ordered, 2, true, [[⟨0, 2⟩], [⟨2, 3⟩], [⟨4, 5⟩]], [⟨0, 5⟩]⟩ := by decide +kernel
  obtain ⟨children, built, same⟩ := of_shown nested
  obtain ⟨children', built', same'⟩ := of_shown inOrder
  have lists : spansOfEach children (.whole 0) = [[⟨0, 3⟩], [⟨3, 4⟩]] := congrArg Shown.lists same
  have lists' : spansOfEach children' (.whole 0) = [[⟨0, 2⟩], [⟨2, 3⟩], [⟨4, 5⟩]] :=
    congrArg Shown.lists same'
  obtain ⟨_, _, steady, exact⟩ := windows_along _ _ rfl _ _ _ children built 0 (by decide) [0]
    (List.forall_mem_singleton.2 (by decide))
  obtain ⟨_, _, steady', exact'⟩ := windows_along _ _ rfl _ _ _ children' built' 0 (by decide) []
    (List.forall_mem_nil _)
  have unordered := (exact (steady (allSteady_iff.1 (congrArg Shown.still same)))).1
  obtain ⟨complete, nearest⟩ := exact' (steady' (allSteady_iff.1 (congrArg Shown.still same')))
  rw [lists] at unordered
  rw [lists'] at complete
  refine ⟨children, children', built, lists, (unordered fun other => by cases other).2 ?_, built',
    lists', (complete fun _ => ?_).2 ?_, (nearest _ _ rfl lists').1⟩
  · exact ⟨[⟨0, 3⟩, ⟨3, 4⟩], by decide, 0, by decide⟩
  · unfold Window.Apart
    decide
  · exact ⟨⟨0, 2⟩, by decide, 5, .step (s := ⟨2, 3⟩) (by decide) (by decide) (by decide)
      (.step (s := ⟨4, 5⟩) (by decide) (by decide) (by decide) (.done 5))⟩

/-- The document of these tokens holds a window of the query, and a cursor does not stop there. -/
def Passed (tokens : List String) (q : Query) : Prop :=
  ∃ (order : WindowOrder) (width : Nat) (children : List (Plan Float)),
    (workshopOf 0 tokens).build q = .ok (.window order width children) ∧
      HoldsWindow order width (spansOfEach children (.whole 0)) ∧
        ((ofPlan (.window order width children)).along [] 0).document ≠ 0

theorem passed_of_shown {tokens : List String} {q : Query} (given : Shown)
    (h : shown tokens q = some given) (holds : HoldsWindow given.order given.width given.lists)
    (none : given.found = []) : Passed tokens q := by
  obtain ⟨children, built, same⟩ := of_shown h
  have ordered := Collection.ordered_ofSteps [.tokens 0 "document" tokens]
  obtain ⟨reported, stands⟩ := reports_along (w := workshopOf 0 tokens) ordered
    (built_of_build _ q built) (d := 0) (by decide) (List.forall_mem_nil _)
  refine ⟨given.order, given.width, children, built, ?_, fun here => stands.1 here ?_⟩
  · rwa [← congrArg Shown.lists same] at holds
  · exact reported.trans ((congrArg Shown.found same).trans none)

/-- In `a x z y` the tokens `a` and `z` lie within three, but the span from `x` to `y` comes before
`z` and by then the search has gone past `a`. In `x z y` no `y` is behind the first start, the span
from `x` to `y`, so the start `z` is not tried. In `a b b x c` the second `b` would do, but only the
first is tried. -/
theorem windows_along_missed :
    Passed ["a", "x", "z", "y"]
        (near "uw" 3 [term "a", either [near "od" 2 [term "x", term "y"], term "z"]]) ∧
      Passed ["x", "z", "y"]
        (near "od" 1 [either [near "od" 2 [term "x", term "y"], term "z"], term "y"]) ∧
      Passed ["a", "b", "b", "x", "c"] (near "od" 2 [term "a", term "b", term "c"]) := by
  refine ⟨?_, ?_, ?_⟩
  · refine passed_of_shown ⟨.unordered, 3, false, [[⟨0, 1⟩], [⟨1, 4⟩, ⟨2, 3⟩]], []⟩ (by cbv) ?_ rfl
    exact ⟨[⟨0, 1⟩, ⟨2, 3⟩], by decide, 0, by decide⟩
  · refine passed_of_shown ⟨.ordered, 1, false, [[⟨0, 3⟩, ⟨1, 2⟩], [⟨2, 3⟩]], []⟩ (by cbv) ?_ rfl
    exact ⟨⟨1, 2⟩, by decide, 3,
      .step (s := ⟨2, 3⟩) (by decide) (by decide) (by decide) (.done 3)⟩
  · refine passed_of_shown ⟨.ordered, 2, true, [[⟨0, 1⟩], [⟨1, 2⟩, ⟨2, 3⟩], [⟨4, 5⟩]], []⟩
      (by decide +kernel) ?_ rfl
    exact ⟨⟨0, 1⟩, by decide, 5, .step (s := ⟨2, 3⟩) (by decide) (by decide) (by decide)
      (.step (s := ⟨4, 5⟩) (by decide) (by decide) (by decide) (.done 5))⟩

end Example

end Cursor

end RankedRetrieval
