import RankedRetrieval.Preparation.Pass

set_option autoImplicit false

namespace RankedRetrieval.Preparation

def isPlain (p : Parameters) : Bool :=
  p.fields.all fun field => field.1 == "method" && field.2.asString? == some "sum"

def isPlainCombine (v : Vocabulary) (g : QueryGraph) (id : NodeId) : Except QueryError Bool :=
  (g.resolve v id).map fun m => m.form == .combine && isPlain (g.parameters id)

def splice (v : Vocabulary) (g : QueryGraph) :
    List NodeId → Except QueryError (List NodeId × Bool)
  | [] => .ok ([], false)
  | child :: rest => do
    let plain ← isPlainCombine v g child
    let (spliced, changed) ← splice v g rest
    return if plain then (g.children child ++ spliced, true) else (child :: spliced, changed)

def flattening (v : Vocabulary) : Pass :=
  .onLeave "flatten-combine" fun g id => do
    if !(← isPlainCombine v g id) then return (g, id)
    else
      let (children, changed) ← splice v g (g.children id)
      return (if changed then g.setChildren id children else g, id)

end RankedRetrieval.Preparation
