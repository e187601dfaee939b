import RankedRetrieval.Plan.Axis
import RankedRetrieval.Span.Window

set_option autoImplicit false

namespace RankedRetrieval

/-- The document that is looked at, as a whole or in one passage. -/
structure Context where
  document : DocId
  passage : Option Span

def Context.whole (document : DocId) : Context := { document, passage := none }

namespace Plan

variable {α : Type}

def entryAt {β : Type} (key : β → DocId) (entries : Array β) (p : Position) (d : DocId) :
    Option β :=
  (entries[p.offset]?).filter fun e => key e = d

def windows (order : WindowOrder) (width : Nat) (lists : List (List Span)) : List Span :=
  match order with
  | .ordered => Window.ordered width lists
  | .unordered => Window.unordered width lists

mutual

def extentsAt : Plan α → Position → Context → List Span
  | .extents postings, p, ctx =>
    ((entryAt Posting.document postings p ctx.document).map Posting.spans).getD []
  | .window _ _ _, p, ctx => if ctx.document = p.document then p.found else []
  | .synonym children, p, ctx => Span.arrange (gather children p.parts ctx)
  | .passageFilter child, p, ctx => restrict ctx.passage (child.extentsAt p ctx)
  | _, _, _ => []

def gather : List (Plan α) → List Position → Context → List Span
  | child :: children, p :: parts, ctx =>
    (if p.matchesAt ctx.document then child.extentsAt p ctx else []) ++ gather children parts ctx
  | _, _, _ => []

end

def extentsOfEach : List (Plan α) → List Position → Context → List (List Span)
  | child :: children, p :: parts, ctx =>
    child.extentsAt p ctx :: extentsOfEach children parts ctx
  | _, _, _ => []

/-- Counts have 32 bits; what does not fit is lost. -/
def wrapped (count : Nat) : Nat := count % 0x100000000

mutual

def countAt : Plan α → Position → Context → Nat
  | .counts postings, p, ctx =>
    wrapped
      (((entryAt Posting.document postings p ctx.document).map fun e => e.spans.length).getD 0)
  | .synonymCounts children, p, ctx => countsAt children p.parts ctx
  | plan, p, ctx => wrapped (plan.extentsAt p ctx).length

def countsAt : List (Plan α) → List Position → Context → Nat
  | child :: children, p :: parts, ctx =>
    wrapped (child.countAt p ctx + countsAt children parts ctx)
  | _, _, _ => 0

end

def lengthAt : Plan α → Position → Context → Nat
  | .lengths entries, p, ctx => ((entryAt Prod.fst entries p ctx.document).map Prod.snd).getD 0
  | .passageLength child, p, ctx => clippedLength ctx.passage (child.lengthAt p ctx)
  | _, _, _ => 0

mutual

def cost : Plan α → Position → Nat
  | .extents entries, p => entries.size - p.offset
  | .counts entries, p => entries.size - p.offset
  | .lengths entries, p => entries.size - p.offset
  | .prior entries _, p => entries.size - p.offset
  | .window _ _ children, p => (costs children p.parts).min?.getD 0
  | .synonym children, p => (costs children p.parts).foldr (· + ·) 0
  | .synonymCounts children, p => (costs children p.parts).foldr (· + ·) 0
  | .passageFilter child, p => child.cost p
  | .passageLength child, p => child.cost p
  | .dirichlet _ counted _, p => counted.cost (p.part 1)
  | .bm25 _ counted _, p => counted.cost (p.part 1)
  | .combine _ mode children _, p =>
    match mode with
    | .any => (costs children p.parts).foldr (· + ·) 0
    | .all => (costs children p.parts).min?.getD 0
  | .log child, p => child.cost p
  | .scale _ child, p => child.cost p
  | .require filter _, p => filter.cost (p.part 0)
  | .boolean mode children, p =>
    match mode with
    | .any => (costs children p.parts).foldr (· + ·) 0
    | .all => (costs children p.parts).min?.getD 0

def costs : List (Plan α) → List Position → List Nat
  | child :: children, p :: parts => child.cost p :: costs children parts
  | _, _ => []

end

end Plan

end RankedRetrieval
