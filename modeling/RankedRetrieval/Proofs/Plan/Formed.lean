import RankedRetrieval.Proofs.Plan.Visited
import RankedRetrieval.Proofs.Plan.Windowed
import RankedRetrieval.Proofs.Span.Indexed

set_option autoImplicit false

/-!
# What plans report is in the form that windows need

The occurrences of a term are in form, and so is all that is made of such lists by a plan, however
its parts are nested. Windows that are searched for by places are therefore found without a failure,
when a cursor is started and whenever it is moved (`formed_of_build`).
-/

namespace RankedRetrieval

namespace Plan

open Axis

variable {α : Type}

section Collected

variable {steps : List DraftStep}

theorem formed_occurrences (term : String) (position : Nat) (tokens : List String) :
    Formed (occurrences term position tokens) := by
  refine ⟨(rising_occurrences term position tokens).starts, fun s member => ?_⟩
  have := occurrences_bounds member
  omega

theorem spans_of_mem_postings {field term : String} {posting : Posting}
    (member : posting ∈ (Collection.ofSteps steps).postings field term) :
    posting.spans = occurrences term 0 (tokensOf steps field posting.document) := by
  have found := ((Collection.ordered_ofSteps steps).postings field term).find?_of_mem
    (Array.mem_toList_iff.2 member)
  rw [Collection.find?_postings, someSpans] at found
  split at found
  · cases found
  · exact (congrArg Posting.spans (Option.some.inj found)).symm

theorem hereditary_formed (steps : List DraftStep) :
    Hereditary (.ofSteps steps) Formed where
  nil := .nil
  postings _ _ _ member := spans_of_mem_postings member ▸ formed_occurrences _ _ _
  arranged _ := .arrange
  restricted passage spans formed := formed.sublist (restrict_sublist passage spans)
  windows order width _ := Window.formed_windows order width

/-- No span stops after the end of the longest text. -/
theorem hereditary_within {limit : Nat}
    (short : ∀ field d, (tokensOf steps field d).length ≤ limit) :
    Hereditary (.ofSteps steps) fun spans => ∀ s ∈ spans, s.stop ≤ limit where
  nil := List.forall_mem_nil _
  postings field term posting member s inside := by
    have bounds := occurrences_bounds (spans_of_mem_postings member ▸ inside)
    have := short field posting.document
    omega
  arranged lists within s member := by
    obtain ⟨list, among, inside⟩ := List.mem_flatten.1 (Span.mem_arrange.1 member)
    exact within list among s inside
  restricted passage spans within s member :=
    within s ((restrict_sublist passage spans).subset member)
  windows order width lists within window found := by
    obtain ⟨list, among, s, inside, stops⟩ := Window.exists_stop_of_windows found
    exact stops ▸ within list among s inside

end Collected

section ByPlaces

def seek? (movers : List Mover) (order : List Nat)
    (read : DocId → List Position → Option (List Span)) (document : DocId)
    (parts : List Position) : Option Rest :=
  if _end : document = terminated then some { document, found := [], parts }
  else
    match read document parts with
    | none => none
    | some found =>
      if found.isEmpty then
        let result := settle .all movers order (next document) parts
        seek? movers order read result.1 result.2
      else some { document, found, parts }
termination_by distance document
decreasing_by
  exact distance_lt (UInt32.lt_of_lt_of_le (lt_next _end)
    (le_settle_all movers order (next document) parts))

def moveWindow? (movers : List Mover) (read : DocId → List Position → Option (List Span))
    (order : List Nat) (target : DocId) (parts : List Position) : Option Position :=
  let result := settle .all movers order target parts
  (seek? movers order read result.1 result.2).map fun rest =>
    { document := rest.document, offset := 0, found := rest.found, order, parts := rest.parts }

def findByPlaces (top : Nat) (order : WindowOrder) (width : Nat) (children : List (Plan α))
    (d : DocId) (parts : List Position) : Option (List Span) :=
  Window.byPlaces top order width (extentsOfEach children parts (.whole d))

def startByPlaces (top : Nat) (order : WindowOrder) (width : Nat) (children : List (Plan α)) :
    Option Position :=
  moveWindow? (movers children) (findByPlaces top order width children)
    (byCost (costs children (starts children))) 0 (starts children)

def advanceByPlaces (top : Nat) (order : WindowOrder) (width : Nat) (children : List (Plan α))
    (p : Position) (target : DocId) : Option Position :=
  if target = p.document then some p
  else
    moveWindow? (movers children) (findByPlaces top order width children) p.order target p.parts

variable {children : List (Plan α)} {parts : List Position}
  {read : DocId → List Position → List Span} {read? : DocId → List Position → Option (List Span)}

theorem seek?_eq
    (reads : ∀ d parts, VisitedEach children parts → read? d parts = some (read d parts))
    (order : List Nat) (d : DocId) (h : VisitedEach children parts) :
    seek? (movers children) order read? d parts =
      some (seek (movers children) order read d parts) := by
  fun_induction seek (movers children) order read d parts with
  | case1 parts => rw [seek?, dif_pos rfl]
  | case2 d parts notEnd found empty result ih =>
    rw [seek?, dif_neg notEnd, reads d parts h]
    exact (if_pos empty).trans (ih (visited_settle h .all order _))
  | case3 d parts notEnd found some =>
    rw [seek?, dif_neg notEnd, reads d parts h]
    exact if_neg some

theorem moveWindow?_eq
    (reads : ∀ d parts, VisitedEach children parts → read? d parts = some (read d parts))
    (order : List Nat) (target : DocId) (h : VisitedEach children parts) :
    moveWindow? (movers children) read? order target parts =
      some (moveWindow (movers children) read order target parts) := by
  rw [moveWindow?, seek?_eq reads order _ (visited_settle h .all order target)]
  rfl

end ByPlaces

section Built

variable [Arithmetic α] {w : Workshop} {steps : List DraftStep} {children : List (Plan α)}
  {top : Nat}

/-- No search over what built children report fails. -/
theorem byPlaces_extentsOfEach (collected : w.collection = .ofSteps steps)
    (short : ∀ field d, (tokensOf steps field d).length ≤ top)
    (built : ∀ child ∈ children, Built w child) {parts : List Position}
    (h : VisitedEach children parts) (order : WindowOrder) (width : Nat) (ctx : Context) :
    Window.byPlaces top order width (extentsOfEach children parts ctx) =
      some (windows order width (extentsOfEach children parts ctx)) := by
  refine Window.byPlaces_eq ?_ ?_ order width
  · exact Hereditary.forall_extentsOfEach (fun child member _ ctx here =>
      (collected ▸ hereditary_formed steps).extentsAt (built child member) here ctx) h ctx
  · exact Hereditary.forall_extentsOfEach (fun child member _ ctx here =>
      (collected ▸ hereditary_within short).extentsAt (built child member) here ctx) h ctx

/-- Whatever is built over a collection, and however it has been moved, the lists that it reports
are in the form that windows need. With room for the longest text no search for windows by places
fails: neither over the lists that children report, nor when a window cursor is started or
moved. -/
theorem formed_of_build (steps : List DraftStep) (w : Workshop)
    (collected : w.collection = .ofSteps steps) :
    (∀ q {plan : Plan α}, w.build q = .ok plan → ∀ p, plan.Visited p → ∀ ctx,
      Formed (plan.extentsAt p ctx)) ∧
    ∀ top, (∀ field d, (tokensOf steps field d).length ≤ top) →
      (∀ queries {children : List (Plan α)}, Workshop.Plans w queries children →
        ∀ parts, VisitedEach children parts → ∀ order width ctx,
          Window.byPlaces top order width (extentsOfEach children parts ctx) =
            some (windows order width (extentsOfEach children parts ctx))) ∧
      ∀ q order width {children : List (Plan α)},
        w.build q = .ok (.window order width children) →
          startByPlaces top order width children = some (window order width children).start ∧
          ∀ p, (window order width children).Visited p → ∀ target,
            advanceByPlaces top order width children p target =
              some ((window order width children).advance p target) := by
  refine ⟨fun q plan built p visited ctx => ?_, fun top short => ⟨?_, ?_⟩⟩
  · exact (collected ▸ hereditary_formed steps).extentsAt (w.built_of_build q built) visited ctx
  · intro queries children built parts visited order width ctx
    have each := Workshop.built_of_plans (fun q _ _ built => w.built_of_build q built) built
    exact byPlaces_extentsOfEach collected short each visited order width ctx
  · intro q order width children built
    obtain ⟨_, each⟩ := (w.built_of_build q built).of_window rfl
    have reads (d : DocId) (parts : List Position) (visited : VisitedEach children parts) :
        findByPlaces top order width children d parts =
          some (findWindows order width children d parts) :=
      byPlaces_extentsOfEach collected short each visited order width _
    refine ⟨moveWindow?_eq reads _ 0 (visited_starts children), fun p visited target => ?_⟩
    rw [advanceByPlaces, advance]
    split
    · rfl
    · exact moveWindow?_eq reads p.order target (visited_window visited).1

end Built

section Example

open Cursor

/-- A window around `c` of `a` or of the phrase `a b`, which both start where `a` is. -/
def twice : Query :=
  near "uw" 3 [either [term "a", near "od" 1 [term "a", term "b"]], term "c"]

/-- What a window that is built shows of document 0 when it is started. -/
def shownAtStart (tokens : List String) (q : Query) : Option (WindowOrder × Nat × List Span) :=
  match (workshopOf 0 tokens).build (α := Float) q with
  | .ok (.window order width children) =>
    let plan := window order width children
    some (order, width, plan.extentsAt plan.start (.whole 0))
  | _ => none

theorem of_shownAtStart {tokens : List String} {q : Query} {order : WindowOrder} {width : Nat}
    {found : List Span} (h : shownAtStart tokens q = some (order, width, found)) :
    ∃ children : List (Plan Float),
      (workshopOf 0 tokens).build q = .ok (.window order width children) ∧
        (window order width children).extentsAt (window order width children).start (.whole 0) =
          found := by
  unfold shownAtStart at h
  split at h
  · rename_i built
    cases h
    exact ⟨_, built, rfl⟩
  · cases h

theorem length_tokensOf_one (d d' : DocId) (field field' : String) (tokens : List String) :
    (tokensOf [.tokens d field tokens] field' d').length ≤ tokens.length := by
  by_cases here : d = d' ∧ field = field'
  · simp [tokensOf, givenTokens, DraftStep.tokens?, joined, here]
  · simp [tokensOf, givenTokens, DraftStep.tokens?, joined, here]

/-- In `a b c d` the same window is found from both starts, and is taken twice by a window around
it. -/
theorem formed_of_build_twice : ∃ children : List (Plan Float),
    (workshopOf 0 ["a", "b", "c", "d"]).build twice = .ok (.window .unordered 3 children) ∧
      Formed [⟨0, 3⟩, ⟨0, 3⟩] ∧
      Window.byPlaces 4294967295 .unordered 4 [[⟨0, 3⟩, ⟨0, 3⟩], [⟨3, 4⟩]] =
        some [⟨0, 4⟩, ⟨0, 4⟩] ∧
      startByPlaces 4294967295 .unordered 3 children =
        some (window .unordered 3 children).start ∧
      advanceByPlaces 4294967295 .unordered 3 children (window .unordered 3 children).start 1 =
        some ((window .unordered 3 children).advance (window .unordered 3 children).start 1) := by
  have shown : shownAtStart ["a", "b", "c", "d"] twice =
      some (.unordered, 3, [⟨0, 3⟩, ⟨0, 3⟩]) := by cbv
  obtain ⟨children, built, found⟩ := of_shownAtStart shown
  have short (field : String) (d : DocId) :
      (tokensOf [.tokens 0 "document" ["a", "b", "c", "d"]] field d).length ≤ 4294967295 :=
    Nat.le_trans (length_tokensOf_one _ _ _ _ _) (by decide)
  obtain ⟨formed, checked⟩ := formed_of_build (α := Float)
    [.tokens 0 "document" ["a", "b", "c", "d"]] (workshopOf 0 ["a", "b", "c", "d"]) rfl
  obtain ⟨searched, moved⟩ := checked 4294967295 short
  obtain ⟨started, advanced⟩ := moved twice .unordered 3 built
  have last : (workshopOf 0 ["a", "b", "c", "d"]).build (α := Float) (term "d") =
      .ok (.extents #[⟨0, [⟨3, 4⟩]⟩]) := by cbv
  have windows := searched [twice, term "d"] (.cons built (.cons last .nil)) _
    (visited_starts _) .unordered 4 (.whole 0)
  have lists : extentsOfEach [window .unordered 3 children, .extents #[⟨0, [⟨3, 4⟩]⟩]]
      (starts [window .unordered 3 children, .extents #[⟨0, [⟨3, 4⟩]⟩]]) (.whole 0) =
        [[⟨0, 3⟩, ⟨0, 3⟩], [⟨3, 4⟩]] := congrArg (· :: [[(⟨3, 4⟩ : Span)]]) found
  rw [lists] at windows
  refine ⟨children, built, found ▸ formed twice built _ .start _, windows.trans ?_, started,
    advanced _ .start 1⟩
  cbv

end Example

end Plan

end RankedRetrieval
