import RankedRetrieval.Proofs.Axis.Group
import RankedRetrieval.Proofs.Span.Window
import RankedRetrieval.Plan.Movement

set_option autoImplicit false

namespace RankedRetrieval.Plan

variable {α : Type}

open Axis

mutual

def spansIn : Plan α → Context → List Span
  | .extents postings, ctx =>
    ((postings.find? fun e => e.document = ctx.document).map Posting.spans).getD []
  | .window order width children, ctx =>
    windows order width (spansOfEach children (.whole ctx.document))
  | .synonym children, ctx => Span.arrange (spansOfEach children ctx).flatten
  | .passageFilter child, ctx => restrict ctx.passage (child.spansIn ctx)
  | _, _ => []

def spansOfEach : List (Plan α) → Context → List (List Span)
  | [], _ => []
  | child :: children, ctx => child.spansIn ctx :: spansOfEach children ctx

end

mutual

/-- The number of occurrences, however many there are. -/
def totalIn : Plan α → Context → Nat
  | .counts postings, ctx =>
    ((postings.find? fun e => e.document = ctx.document).map fun e => e.spans.length).getD 0
  | .synonymCounts children, ctx => totalOfAll children ctx
  | plan, ctx => (plan.spansIn ctx).length

def totalOfAll : List (Plan α) → Context → Nat
  | [], _ => 0
  | child :: children, ctx => child.totalIn ctx + totalOfAll children ctx

end

/-- What is left of the number of occurrences in a count. -/
def countIn (plan : Plan α) (ctx : Context) : Nat := wrapped (plan.totalIn ctx)

def lengthIn : Plan α → Context → Nat
  | .lengths entries, ctx =>
    ((entries.find? fun e => e.1 = ctx.document).map Prod.snd).getD 0
  | .passageLength child, ctx => clippedLength ctx.passage (child.lengthIn ctx)
  | _, _ => 0

def windowsIn (order : WindowOrder) (width : Nat) (children : List (Plan α)) (d : DocId) :
    List Span :=
  windows order width (spansOfEach children (.whole d))

mutual

/-- Whether a document belongs to a plan. A window has the documents of all its children where they
have windows, a filter those of its first part, a scorer those of its counts, and a plan with one
child those of the child. -/
def has : Plan α → DocId → Bool
  | .extents postings, d => listed Posting.document postings d
  | .counts postings, d => listed Posting.document postings d
  | .lengths entries, d => listed Prod.fst entries d
  | .prior entries _, d => listed Prod.fst entries d
  | .window order width children, d =>
    inAll children d && !children.isEmpty && !(windowsIn order width children d).isEmpty
  | .synonym children, d => inAny children d
  | .synonymCounts children, d => inAny children d
  | .passageFilter child, d => child.has d
  | .passageLength child, d => child.has d
  | .dirichlet _ counted _, d => counted.has d
  | .bm25 _ counted _, d => counted.has d
  | .combine _ mode children _, d =>
    match mode with
    | .any => inAny children d
    | .all => inAll children d && !children.isEmpty
  | .log child, d => child.has d
  | .scale _ child, d => child.has d
  | .require filter _, d => filter.has d
  | .boolean mode children, d =>
    match mode with
    | .any => inAny children d
    | .all => inAll children d && !children.isEmpty

def inAny : List (Plan α) → DocId → Bool
  | [], _ => false
  | child :: children, d => child.has d || inAny children d

def inAll : List (Plan α) → DocId → Bool
  | [], _ => true
  | child :: children, d => child.has d && inAll children d

end

theorem wrapped_of_lt {n : Nat} (fits : n < 2 ^ 32) : wrapped n = n := Nat.mod_eq_of_lt fits

theorem wrapped_le (n : Nat) : wrapped n ≤ n := Nat.mod_le n _

theorem wrapped_add (m n : Nat) : wrapped (wrapped m + wrapped n) = wrapped (m + n) :=
  (Nat.add_mod m n _).symm

theorem countsAt_eq_wrapped (children : List (Plan α)) (parts : List Position) (ctx : Context) :
    countsAt children parts ctx =
      wrapped (List.zipWith (fun child p => child.countAt p ctx) children parts).sum := by
  induction children generalizing parts with
  | nil => rfl
  | cons child children ih =>
    cases parts with
    | nil => rfl
    | cons p parts =>
      rw [countsAt, ih parts, List.zipWith_cons_cons, List.sum_cons]
      exact Nat.add_mod_mod _ _ _

/-- Counts that have room for their sum add up. -/
theorem countsAt_of_lt {children : List (Plan α)} {parts : List Position} {ctx : Context}
    (fits : (List.zipWith (fun child p => child.countAt p ctx) children parts).sum < 2 ^ 32) :
    countsAt children parts ctx =
      (List.zipWith (fun child p => child.countAt p ctx) children parts).sum :=
  (countsAt_eq_wrapped children parts ctx).trans (wrapped_of_lt fits)

theorem countIn_of_lt {plan : Plan α} {ctx : Context} (fits : plan.totalIn ctx < 2 ^ 32) :
    plan.countIn ctx = plan.totalIn ctx :=
  wrapped_of_lt fits

theorem countIn_le_totalIn (plan : Plan α) (ctx : Context) :
    plan.countIn ctx ≤ plan.totalIn ctx :=
  wrapped_le _

theorem inAny_eq (children : List (Plan α)) (d : DocId) :
    inAny children d = hasAny has children d := by
  induction children with
  | nil => rfl
  | cons child children ih =>
    rw [inAny, ih]
    rfl

theorem inAll_eq (children : List (Plan α)) (d : DocId) :
    inAll children d = children.all fun child => child.has d := by
  induction children with
  | nil => rfl
  | cons child children ih =>
    rw [inAll, ih]
    rfl

theorem inAll_nonempty (children : List (Plan α)) (d : DocId) :
    (inAll children d && !children.isEmpty) = hasAll has children d := by
  rw [inAll_eq, hasAll, Bool.and_comm]

theorem starts_eq (children : List (Plan α)) : starts children = children.map start := by
  induction children with
  | nil => rfl
  | cons child children ih =>
    rw [starts, ih]
    rfl

theorem costs_length {children : List (Plan α)} {parts : List Position}
    (h : parts.length = children.length) : (costs children parts).length = children.length := by
  induction children generalizing parts with
  | nil => cases parts <;> rfl
  | cons child children ih =>
    cases parts with
    | nil => cases h
    | cons p parts =>
      rw [costs, List.length_cons, List.length_cons, ih (Nat.succ.inj h)]

theorem find?_of_not_listed {β : Type} {key : β → DocId} {entries : Array β} {d : DocId}
    (h : listed key entries d = false) : (entries.find? fun e => key e = d) = none := by
  rw [Array.find?_eq_none]
  intro entry member
  have := Array.any_eq_false'.1 h entry member
  simpa using this

theorem spansOfEach_eq (children : List (Plan α)) (ctx : Context) :
    spansOfEach children ctx = children.map fun child => child.spansIn ctx := by
  induction children with
  | nil => rfl
  | cons child children ih =>
    rw [spansOfEach, ih]
    rfl

theorem mem_spansOfEach {children : List (Plan α)} {child : Plan α} (ctx : Context)
    (h : child ∈ children) : child.spansIn ctx ∈ spansOfEach children ctx := by
  rw [spansOfEach_eq]
  exact List.mem_map_of_mem h

theorem spansIn_of_not_has (plan : Plan α) (ctx : Context)
    (h : plan.has ctx.document = false) : plan.spansIn ctx = [] := by
  induction plan generalizing ctx with
  | extents postings =>
    rw [spansIn, find?_of_not_listed h]
    rfl
  | window order width children ih =>
    rw [spansIn]
    by_cases shared : inAll children ctx.document = true
    · cases children with
      | nil => exact windows_nil order width
      | cons child children =>
        rw [has, shared] at h
        simpa [windowsIn] using h
    · rw [inAll_eq, List.all_eq_true] at shared
      push Not at shared
      obtain ⟨child, member, lacks⟩ := shared
      refine windows_of_empty order width ?_
      rw [← ih child member (.whole ctx.document) (Bool.eq_false_iff.2 lacks)]
      exact mem_spansOfEach _ member
  | synonym children ih =>
    rw [has, inAny_eq, hasAny, List.any_eq_false] at h
    have none : (spansOfEach children ctx).flatten = [] := by
      rw [List.flatten_eq_nil_iff]
      intro spans member
      obtain ⟨child, inside, rfl⟩ := List.mem_map.1 (spansOfEach_eq children ctx ▸ member)
      exact ih child inside ctx (Bool.eq_false_iff.2 (h child inside))
    rw [spansIn, none, Span.arrange, List.mergeSort_nil]
    rfl
  | passageFilter child ih =>
    rw [spansIn, ih ctx h]
    cases ctx.passage <;> rfl
  | _ => rfl

end RankedRetrieval.Plan
