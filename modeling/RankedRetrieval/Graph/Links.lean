import RankedRetrieval.Graph.Edit

set_option autoImplicit false

namespace RankedRetrieval.QueryGraph

def ownsChildren (g : QueryGraph) (id : NodeId) : Bool :=
  (g.children id).all fun child => g.parent child == some id

def searchLinks (g : QueryGraph) : Nat → List NodeId → List NodeId → Bool
  | _, _, [] => true
  | 0, _, _ :: _ => false
  | fuel + 1, seen, id :: stack =>
    !seen.contains id && g.ownsChildren id &&
      g.searchLinks fuel (id :: seen) ((g.children id).reverse ++ stack)

def checkLinks (g : QueryGraph) : Bool :=
  (g.parent g.root).isNone && g.searchLinks g.size [] [g.root]

end RankedRetrieval.QueryGraph
