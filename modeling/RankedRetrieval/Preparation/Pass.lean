import RankedRetrieval.Graph.Links

set_option autoImplicit false

namespace RankedRetrieval

structure Pass where
  name : String
  enter : QueryGraph → NodeId → Except QueryError Unit
  leave : QueryGraph → NodeId → Except QueryError (QueryGraph × NodeId)

namespace Pass

def onLeave (name : String)
    (leave : QueryGraph → NodeId → Except QueryError (QueryGraph × NodeId)) : Pass :=
  { name, enter := fun _ _ => .ok (), leave }

structure Trail where
  graph : QueryGraph
  entered : List NodeId
  left : List NodeId

abbrev Walk := EStateM QueryError Trail

def enterNode (pass : Pass) (id : NodeId) : Walk Unit := do
  modify fun t => { t with entered := id :: t.entered }
  match pass.enter (← get).graph id with
  | .ok () => pure ()
  | .error e => throw e

/-- The node that stands in the place of the one that is left. -/
def leaveNode (pass : Pass) (id : NodeId) : Walk NodeId := do
  modify fun t => { t with left := id :: t.left }
  match pass.leave (← get).graph id with
  | .ok (graph, replacement) =>
    modify fun t => { t with graph }
    return replacement
  | .error e => throw e

def visitEach (visit : NodeId → Walk NodeId) (parent : NodeId) : List NodeId → Nat → Walk Unit
  | [], _ => pure ()
  | child :: rest, position => do
    let replacement ← visit child
    if replacement ≠ child then
      modify fun t => { t with graph := t.graph.replaceChildAt parent position replacement }
    visitEach visit parent rest (position + 1)

def visit (pass : Pass) : Nat → NodeId → Walk NodeId
  | 0, id => pure id
  | depth + 1, id => do
    pass.enterNode id
    visitEach (pass.visit depth) id ((← get).graph.children id) 0
    pass.leaveNode id

/-- Walk the whole graph. No path without a cycle is longer than the number of nodes. -/
def walk (pass : Pass) : Walk Unit := do
  let g := (← get).graph
  let replacement ← pass.visit g.size g.root
  if replacement ≠ g.root then modify fun t => { t with graph := t.graph.setRoot replacement }

structure Outcome where
  graph : QueryGraph
  entered : List NodeId
  left : List NodeId
  failure : Option QueryError

def run (pass : Pass) (g : QueryGraph) : Outcome :=
  let outcome (t : Trail) (failure : Option QueryError) : Outcome :=
    { graph := t.graph, entered := t.entered.reverse, left := t.left.reverse, failure }
  match pass.walk.run { graph := g, entered := [], left := [] } with
  | .ok _ t => outcome t none
  | .error e t => outcome t (some e)

def runAll : List Pass → QueryGraph → QueryGraph × Option QueryError
  | [], g => (g, none)
  | pass :: rest, g =>
    let outcome := pass.run g
    match outcome.failure with
    | none => runAll rest outcome.graph
    | some e => (outcome.graph, some e)

end Pass

end RankedRetrieval
