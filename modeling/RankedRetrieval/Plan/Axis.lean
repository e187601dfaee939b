import RankedRetrieval.Plan.Basic

set_option autoImplicit false

namespace RankedRetrieval

abbrev Mover := Position → DocId → Position

namespace Axis

def catchUp (move : Mover) (p : Position) (target : DocId) : Position :=
  if p.document < target then move p target else p

def earliest : List Position → DocId
  | [] => terminated
  | p :: rest =>
    let others := earliest rest
    if p.document < others then p.document else others

/-- Consult the children in an order, each at the latest document met so far. A child that has run
out ends the round. -/
def round (movers : List Mover) : List Nat → DocId → List Position → DocId × List Position
  | [], target, parts => (target, parts)
  | i :: order, target, parts =>
    match movers[i]?, parts[i]? with
    | some move, some p =>
      let p := catchUp move p target
      let parts := parts.set i p
      if p.document = terminated then (terminated, parts)
      else round movers order (if target < p.document then p.document else target) parts
    | _, _ => round movers order target parts

theorem le_round (movers : List Mover) (order : List Nat) (target : DocId) (parts : List Position) :
    target ≤ (round movers order target parts).1 := by
  induction order generalizing target parts with
  | nil => exact UInt32.le_refl _
  | cons i order ih =>
    simp only [round]
    split
    · split
      · exact le_terminated _
      · refine UInt32.le_trans ?_ (ih _ _)
        split
        · exact UInt32.le_of_lt ‹_›
        · exact UInt32.le_refl _
    · exact ih _ _

def align (movers : List Mover) (order : List Nat) (target : DocId) (parts : List Position) :
    DocId × List Position :=
  let result := round movers order target parts
  if _later : target < result.1 ∧ result.1 ≠ terminated then align movers order result.1 result.2
  else result
termination_by distance target
decreasing_by exact distance_lt _later.1

theorem le_align (movers : List Mover) (order : List Nat) (target : DocId) (parts : List Position) :
    target ≤ (align movers order target parts).1 := by
  fun_induction align movers order target parts with
  | case1 target parts result later ih => exact UInt32.le_trans (UInt32.le_of_lt later.1) ih
  | case2 target parts result _ => exact le_round movers order target parts

def settle (mode : Mode) (movers : List Mover) (order : List Nat) (target : DocId)
    (parts : List Position) : DocId × List Position :=
  match mode with
  | .any =>
    let parts := List.zipWith (fun move p => catchUp move p target) movers parts
    (earliest parts, parts)
  | .all => if movers.isEmpty then (terminated, parts) else align movers order target parts

theorem le_settle_all (movers : List Mover) (order : List Nat) (target : DocId)
    (parts : List Position) : target ≤ (settle .all movers order target parts).1 := by
  simp only [settle]
  split
  · exact le_terminated _
  · exact le_align movers order target parts

structure Rest where
  document : DocId
  found : List Span
  parts : List Position

/-- From a document on which the children agree, go on to the first one where they have windows. -/
def seek (movers : List Mover) (order : List Nat) (read : DocId → List Position → List Span)
    (document : DocId) (parts : List Position) : Rest :=
  if _end : document = terminated then { document, found := [], parts }
  else
    let found := read document parts
    if found.isEmpty then
      let result := settle .all movers order (next document) parts
      seek movers order read result.1 result.2
    else { document, found, parts }
termination_by distance document
decreasing_by
  exact distance_lt (UInt32.lt_of_lt_of_le (lt_next _end)
    (le_settle_all movers order (next document) parts))

theorem le_seek (movers : List Mover) (order : List Nat) (read : DocId → List Position → List Span)
    (document : DocId) (parts : List Position) :
    document ≤ (seek movers order read document parts).document := by
  fun_induction seek movers order read document parts with
  | case1 => exact UInt32.le_refl _
  | case2 document parts notEnd found empty result ih =>
    exact UInt32.le_trans (UInt32.le_of_lt (lt_next notEnd))
      (UInt32.le_trans (le_settle_all movers order (next document) parts) ih)
  | case3 => exact UInt32.le_refl _

/-- The order of children by ascending cost, a child before those of equal cost that follow it. -/
def byCost (costs : List Nat) : List Nat :=
  (costs.zipIdx.mergeSort fun a b => a.1 ≤ b.1).map Prod.snd

def skipTo {β : Type} (key : β → DocId) (entries : Array β) (target : DocId) (i : Nat) : Nat :=
  if h : i < entries.size then
    if key entries[i] < target then skipTo key entries target (i + 1) else i
  else i
termination_by entries.size - i

def leaf {β : Type} (key : β → DocId) (entries : Array β) (i : Nat) : Position :=
  { document := (entries[i]?.map key).getD terminated
    offset := i
    found := []
    order := []
    parts := [] }

def advanceLeaf {β : Type} (key : β → DocId) (entries : Array β) (p : Position) (target : DocId) :
    Position :=
  leaf key entries (skipTo key entries target p.offset)

theorem le_advanceLeaf {β : Type} (key : β → DocId) (entries : Array β) (p : Position)
    (target : DocId) : target ≤ (advanceLeaf key entries p target).document := by
  unfold advanceLeaf
  generalize p.offset = i
  fun_induction skipTo key entries target i with
  | case1 i h before ih => exact ih
  | case2 i h notBefore =>
    simp only [leaf, Array.getElem?_eq_getElem h, Option.map_some, Option.getD_some]
    exact UInt32.not_lt.1 notBefore
  | case3 i h =>
    simp only [leaf, Array.getElem?_eq_none (Nat.not_lt.1 h), Option.map_none, Option.getD_none]
    exact le_terminated _

end Axis

end RankedRetrieval
