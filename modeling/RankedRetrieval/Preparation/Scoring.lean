import RankedRetrieval.Preparation.Pass

set_option autoImplicit false

namespace RankedRetrieval.Preparation

def isScorer : Form → Bool
  | .dirichlet | .bm25 => true
  | _ => false

def wantsScore (v : Vocabulary) (g : QueryGraph) (id : NodeId) : Except QueryError Bool :=
  match g.parent id with
  | none => .ok true
  | some parent => (g.resolve v parent).map fun m => m.form == .combine

def fieldParameters (field : String) : Parameters := .single "field" (.string field)

def giveLengths (g : QueryGraph) (scorer counts : NodeId) (field : String) : QueryGraph :=
  (g.addNode "lengths" (fieldParameters field)).setChildren scorer [g.size, counts]

/-- Put a scorer with lengths above a node. The lengths are numbered before the scorer. -/
def putScorer (g : QueryGraph) (id : NodeId) (scorer field : String) : QueryGraph × NodeId :=
  let lengths := g.size
  let g := g.addNode "lengths" (fieldParameters field)
  let above := g.size
  ((g.wrap id scorer .empty).setChildren above [lengths, id], above)

def scoring (v : Vocabulary) (scorer : String) : Pass :=
  .onLeave "implicit-scoring" fun g id => do
    let meaning ← g.resolve v id
    match isScorer meaning.form, g.children id with
    | true, [counts] =>
      let field := Query.scorerField (g.parameters id) (g.fieldHint counts)
      return (giveLengths g id counts field, id)
    | _, _ =>
      if !meaning.has .count || meaning.has .scored then return (g, id)
      else if ← wantsScore v g id then return putScorer g id scorer (g.fieldHint id)
      else return (g, id)

def scorerSetting (levels : List Parameters) : String :=
  Setting.value levels Json.asText "scorer" "dirichlet"

end RankedRetrieval.Preparation
