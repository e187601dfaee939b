import RankedRetrieval.Plan.Reading

set_option autoImplicit false

namespace RankedRetrieval.Plan

variable {α : Type}

open Axis

def findWindows (order : WindowOrder) (width : Nat) (children : List (Plan α)) (d : DocId)
    (parts : List Position) : List Span :=
  windows order width (extentsOfEach children parts (.whole d))

def moveGroup (mode : Mode) (movers : List Mover) (order : List Nat) (target : DocId)
    (parts : List Position) : Position :=
  let result := settle mode movers order target parts
  { document := result.1, offset := 0, found := [], order, parts := result.2 }

def moveWindow (movers : List Mover) (read : DocId → List Position → List Span) (order : List Nat)
    (target : DocId) (parts : List Position) : Position :=
  let result := settle .all movers order target parts
  let rest := seek movers order read result.1 result.2
  { document := rest.document, offset := 0, found := rest.found, order, parts := rest.parts }

def joinFilter (scorer : Mover) (filter side : Position) : Position :=
  let side := if filter.document = terminated then side else catchUp scorer side filter.document
  .ofParts filter.document [filter, side]

mutual

def advance : Plan α → Position → DocId → Position
  | .extents postings, p, target => advanceLeaf Posting.document postings p target
  | .counts postings, p, target => advanceLeaf Posting.document postings p target
  | .lengths entries, p, target => advanceLeaf Prod.fst entries p target
  | .prior entries _, p, target => advanceLeaf Prod.fst entries p target
  | .window order width children, p, target =>
    if target = p.document then p
    else moveWindow (movers children) (findWindows order width children) p.order target p.parts
  | .synonym children, p, target =>
    if target = p.document then p else moveGroup .any (movers children) p.order target p.parts
  | .synonymCounts children, p, target =>
    if target = p.document then p else moveGroup .any (movers children) p.order target p.parts
  | .passageFilter child, p, target => child.advance p target
  | .passageLength child, p, target => child.advance p target
  | .dirichlet _ counted _, p, target =>
    let counted := counted.advance (p.part 1) target
    .ofParts counted.document [p.part 0, counted]
  | .bm25 _ counted _, p, target =>
    let counted := counted.advance (p.part 1) target
    .ofParts counted.document [p.part 0, counted]
  | .combine _ mode children _, p, target =>
    if target = p.document then p else moveGroup mode (movers children) p.order target p.parts
  | .log child, p, target => child.advance p target
  | .scale _ child, p, target => child.advance p target
  | .require filter scorer, p, target =>
    joinFilter scorer.advance (catchUp filter.advance (p.part 0) target) (p.part 1)
  | .boolean mode children, p, target =>
    if target = p.document then p else moveGroup mode (movers children) p.order target p.parts

def movers : List (Plan α) → List Mover
  | [] => []
  | child :: children => child.advance :: movers children

end

theorem movers_eq (children : List (Plan α)) : movers children = children.map advance := by
  induction children with
  | nil => rfl
  | cons child children ih =>
    rw [movers, ih]
    rfl

def startGroup (mode : Mode) (children : List (Plan α)) (parts : List Position) : Position :=
  moveGroup mode (movers children) (byCost (costs children parts)) 0 parts

mutual

def start : Plan α → Position
  | .extents postings => leaf Posting.document postings 0
  | .counts postings => leaf Posting.document postings 0
  | .lengths entries => leaf Prod.fst entries 0
  | .prior entries _ => leaf Prod.fst entries 0
  | .window order width children =>
    let parts := starts children
    moveWindow (movers children) (findWindows order width children)
      (byCost (costs children parts)) 0 parts
  | .synonym children => startGroup .any children (starts children)
  | .synonymCounts children => startGroup .any children (starts children)
  | .passageFilter child => child.start
  | .passageLength child => child.start
  | .dirichlet side counted _ =>
    let counted := counted.start
    .ofParts counted.document [side.start, counted]
  | .bm25 side counted _ =>
    let counted := counted.start
    .ofParts counted.document [side.start, counted]
  | .combine _ mode children _ => startGroup mode children (starts children)
  | .log child => child.start
  | .scale _ child => child.start
  | .require filter scorer => joinFilter scorer.advance filter.start scorer.start
  | .boolean mode children => startGroup mode children (starts children)

def starts : List (Plan α) → List Position
  | [] => []
  | child :: children => child.start :: starts children

end

end RankedRetrieval.Plan
