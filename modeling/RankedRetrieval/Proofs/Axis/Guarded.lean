import RankedRetrieval.Failure
import RankedRetrieval.Proofs.Axis.Group

set_option autoImplicit false

namespace RankedRetrieval

abbrev GuardedMover := Position → DocId → Except QueryError Position

namespace Axis

def refuseBack (name : String) (document target : DocId) : Except QueryError Unit :=
  if target < document then .error (.invalidMove name document target) else .ok ()

def catchUpGuarded (move : GuardedMover) (p : Position) (target : DocId) :
    Except QueryError Position :=
  if p.document < target then move p target else .ok p

def catchUpEach : List GuardedMover → List Position → DocId → Except QueryError (List Position)
  | move :: movers, p :: parts, target => do
    let p ← catchUpGuarded move p target
    return p :: (← catchUpEach movers parts target)
  | _, _, _ => .ok []

def roundGuarded (movers : List GuardedMover) : List Nat → DocId → List Position →
    Except QueryError (DocId × List Position)
  | [], target, parts => .ok (target, parts)
  | i :: order, target, parts =>
    match movers[i]?, parts[i]? with
    | some move, some p => do
      let p ← catchUpGuarded move p target
      let parts := parts.set i p
      if p.document = terminated then return (terminated, parts)
      else
        roundGuarded movers order (if target < p.document then p.document else target) parts
    | _, _ => roundGuarded movers order target parts

def alignGuarded (movers : List GuardedMover) (order : List Nat) (target : DocId)
    (parts : List Position) : Except QueryError (DocId × List Position) :=
  match roundGuarded movers order target parts with
  | .error e => .error e
  | .ok result =>
    if _later : target < result.1 ∧ result.1 ≠ terminated then
      alignGuarded movers order result.1 result.2
    else .ok result
termination_by distance target
decreasing_by exact distance_lt _later.1

def settleGuarded (mode : Mode) (movers : List GuardedMover) (order : List Nat) (target : DocId)
    (parts : List Position) : Except QueryError (DocId × List Position) :=
  match mode with
  | .any => do
    let parts ← catchUpEach movers parts target
    return (earliest parts, parts)
  | .all =>
    if movers.isEmpty then .ok (terminated, parts) else alignGuarded movers order target parts

/-- The search for windows. A group that does not come forward is refused, too, so the search
ends. -/
def seekGuarded (name : String) (movers : List GuardedMover) (order : List Nat)
    (read : DocId → List Position → List Span) (document : DocId) (parts : List Position) :
    Except QueryError Rest :=
  if document = terminated then .ok { document, found := [], parts }
  else
    let found := read document parts
    if found.isEmpty then
      match settleGuarded .all movers order (next document) parts with
      | .error e => .error e
      | .ok result =>
        if _ahead : document < result.1 then
          seekGuarded name movers order read result.1 result.2
        else .error (.invalidMove name document result.1)
    else .ok { document, found, parts }
termination_by distance document
decreasing_by exact distance_lt _ahead

section Guards

variable {ι : Type} {children : List ι} {move : ι → Mover} {guarded : ι → GuardedMover}
  {R : ι → Position → Prop}

structure Guards (R : ι → Position → Prop) (move : ι → Mover) (guarded : ι → GuardedMover)
    (children : List ι) : Prop where
  forward : ∀ c ∈ children, ∀ p target, R c p → p.document ≤ target →
    guarded c p target = .ok (move c p target)
  keeps : ∀ c ∈ children, ∀ p target, R c p → R c (move c p target)

theorem catchUpGuarded_eq {c : ι} {p : Position} {target : DocId}
    (forward : p.document ≤ target → guarded c p target = .ok (move c p target)) :
    catchUpGuarded (guarded c) p target = .ok (catchUp (move c) p target) := by
  rw [catchUpGuarded, catchUp]
  split
  · exact forward (UInt32.le_of_lt ‹_›)
  · rfl

theorem catchUpEach_eq (guards : Guards R move guarded children) (target : DocId)
    {parts : List Position} (h : List.Forall₂ R children parts) :
    catchUpEach (children.map guarded) parts target =
      .ok (List.zipWith (fun move p => catchUp move p target) (children.map move) parts) := by
  induction h with
  | nil => rfl
  | @cons c p children parts first _ ih =>
    have others : Guards R move guarded children :=
      ⟨fun c member => guards.forward c (List.mem_cons_of_mem _ member),
        fun c member => guards.keeps c (List.mem_cons_of_mem _ member)⟩
    rw [List.map_cons, catchUpEach,
      catchUpGuarded_eq (guards.forward c List.mem_cons_self p target first), ih others]
    rfl

theorem roundGuarded_eq (guards : Guards R move guarded children) (order : List Nat)
    (target : DocId) {parts : List Position} (h : List.Forall₂ R children parts) :
    roundGuarded (children.map guarded) order target parts =
      .ok (round (children.map move) order target parts) := by
  induction order generalizing target parts with
  | nil => rfl
  | cons i order ih =>
    simp only [roundGuarded, round, List.getElem?_map]
    cases found : children[i]? with
    | none => exact ih target h
    | some c =>
      obtain ⟨p, there, related⟩ := forall₂_getElem? h found
      have member := List.mem_of_getElem? found
      have kept := kept_catchUp (fun p t _ => guards.keeps c member p t) target related
      simp only [there, Option.map_some,
        catchUpGuarded_eq (guards.forward c member p target related)]
      change (if _ then _ else _) = _
      split
      · rfl
      · exact ih _ (forall₂_set h found kept)

theorem alignGuarded_eq (guards : Guards R move guarded children) (order : List Nat)
    (target : DocId) {parts : List Position} (h : List.Forall₂ R children parts) :
    alignGuarded (children.map guarded) order target parts =
      .ok (align (children.map move) order target parts) := by
  fun_induction align (children.map move) order target parts with
  | case1 target parts result later ih =>
    rw [alignGuarded, roundGuarded_eq guards order target h]
    exact (dif_pos later).trans (ih (forall₂_round (.always guards.keeps) order target h))
  | case2 target parts result stop =>
    rw [alignGuarded, roundGuarded_eq guards order target h]
    exact dif_neg stop

/-- A group in which no child refuses to come forward comes forward. -/
theorem settleGuarded_eq (guards : Guards R move guarded children) (mode : Mode)
    (order : List Nat) (target : DocId) {parts : List Position}
    (h : List.Forall₂ R children parts) :
    settleGuarded mode (children.map guarded) order target parts =
      .ok (settle mode (children.map move) order target parts) := by
  cases mode with
  | any =>
    rw [settleGuarded, catchUpEach_eq guards target h]
    rfl
  | all =>
    rw [settleGuarded, settle, List.isEmpty_map, List.isEmpty_map]
    split
    · rfl
    · exact alignGuarded_eq guards order target h

theorem forall₂_seek (keeps : ∀ c ∈ children, ∀ p target, R c p → R c (move c p target))
    (order : List Nat) (read : DocId → List Position → List Span) (document : DocId)
    {parts : List Position} (h : List.Forall₂ R children parts) :
    List.Forall₂ R children (seek (children.map move) order read document parts).parts := by
  fun_induction seek (children.map move) order read document parts with
  | case1 => exact h
  | case2 document parts notEnd found empty result ih =>
    exact ih (forall₂_settle (.always keeps) .all order _ h)
  | case3 => exact h

/-- Nor does the search for windows meet a refusal. -/
theorem seekGuarded_eq (guards : Guards R move guarded children) (name : String)
    (order : List Nat) (read : DocId → List Position → List Span) (document : DocId)
    {parts : List Position} (h : List.Forall₂ R children parts) :
    seekGuarded name (children.map guarded) order read document parts =
      .ok (seek (children.map move) order read document parts) := by
  fun_induction seek (children.map move) order read document parts with
  | case1 parts =>
    rw [seekGuarded, if_pos rfl]
  | case2 document parts notEnd found empty result ih =>
    have ahead : document < result.1 := UInt32.lt_of_lt_of_le (lt_next notEnd)
      (le_settle_all (children.map move) order (next document) parts)
    rw [seekGuarded, if_neg notEnd, settleGuarded_eq guards .all order (next document) h]
    exact (if_pos empty).trans
      ((dif_pos ahead).trans (ih (forall₂_settle (.always guards.keeps) .all order _ h)))
  | case3 document parts notEnd found some =>
    rw [seekGuarded, if_neg notEnd]
    exact if_neg some

end Guards

end Axis

end RankedRetrieval
