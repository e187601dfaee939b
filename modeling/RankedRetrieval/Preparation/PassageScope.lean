import RankedRetrieval.Preparation.Pass

set_option autoImplicit false

namespace RankedRetrieval.Preparation

structure PassageScope where
  enabled : Bool
  lengths : Bool
  extents : Bool

def PassageScope.ofSettings (levels : List Parameters) : PassageScope where
  enabled := Setting.byPassage levels
  lengths := Setting.value levels Json.asFlag "wrapPassageLengths" true
  extents := Setting.value levels Json.asFlag "wrapPassageExtents" true

def atBoundary (v : Vocabulary) (g : QueryGraph) (id : NodeId) (c : Capability) :
    Except QueryError Bool :=
  match g.parent id with
  | none => .ok true
  | some parent => (g.resolve v parent).map fun m => !m.capabilities.isEmpty && !m.has c

def needsScope (v : Vocabulary) (g : QueryGraph) (id : NodeId) (m : Meaning) (wanted : Bool)
    (c : Capability) (wrapper : Form) : Except QueryError Bool :=
  if wanted && m.has c && m.form != wrapper then atBoundary v g id c else .ok false

def putAbove (g : QueryGraph) (id : NodeId) (operator : String) : QueryGraph × NodeId :=
  (g.wrap id operator .empty, g.size)

def passageScope (v : Vocabulary) (scope : PassageScope) : Pass :=
  .onLeave "passage-restriction" fun g id => do
    if !scope.enabled then return (g, id)
    else
      let m ← g.resolve v id
      if ← needsScope v g id m scope.lengths .length .passageLength then
        return putAbove g id "passage-length"
      else if ← needsScope v g id m scope.extents .extent .passageFilter then
        return putAbove g id "passage-filter"
      else return (g, id)

end RankedRetrieval.Preparation
