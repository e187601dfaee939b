import RankedRetrieval.Graph.Basic

set_option autoImplicit false

namespace RankedRetrieval.QueryGraph

def modify (g : QueryGraph) (id : NodeId) (f : Node → Node) : QueryGraph :=
  { g with nodes := g.nodes.modify id f }

def setParent (g : QueryGraph) (id : NodeId) (parent : Option NodeId) : QueryGraph :=
  g.modify id fun n => { n with parent }

def orphan (g : QueryGraph) (parent id : NodeId) : QueryGraph :=
  if g.parent id = some parent then g.setParent id none else g

def addNode (g : QueryGraph) (operator : String) (parameters : Parameters) : QueryGraph :=
  { g with nodes := g.nodes.push { operator, parameters, children := [], parent := none } }

def detach (g : QueryGraph) (id : NodeId) : QueryGraph :=
  match g.parent id with
  | none => g
  | some parent =>
    (g.setParent id none).modify parent fun n =>
      { n with children := n.children.filter (· ≠ id) }

def appendChild (g : QueryGraph) (parent id : NodeId) : QueryGraph :=
  ((g.detach id).modify parent fun n => { n with children := n.children ++ [id] }).setParent id
    (some parent)

/-- Put a node in the place of a parent's child. The old child keeps its parent only if that is
another one by now. -/
def replaceChildAt (g : QueryGraph) (parent : NodeId) (position : Nat) (id : NodeId) : QueryGraph :=
  match (g.children parent)[position]? with
  | none => g
  | some old =>
    if old = id then g
    else
      ((g.modify parent fun n => { n with children := n.children.set position id }).setParent id
        (some parent)).orphan parent old

/-- A new node above a node, under the parent it had; its number is the size of the graph before.
The parent still lists the old node. -/
def wrap (g : QueryGraph) (id : NodeId) (operator : String) (parameters : Parameters) :
    QueryGraph :=
  let wrapper := g.size
  let parent := g.parent id
  ((g.addNode operator parameters).modify wrapper fun n =>
    { n with children := [id], parent }).setParent id (some wrapper)

def setChildren (g : QueryGraph) (parent : NodeId) (children : List NodeId) : QueryGraph :=
  let freed := (g.children parent).foldl (fun g id => g.orphan parent id) g
  let linked := children.foldl (fun g id => g.setParent id (some parent)) freed
  linked.modify parent fun n => { n with children }

def setRoot (g : QueryGraph) (root : NodeId) : QueryGraph := { g with root }.setParent root none

def setOperator (g : QueryGraph) (id : NodeId) (operator : String) : QueryGraph :=
  g.modify id fun n => { n with operator }

def setParameter (g : QueryGraph) (id : NodeId) (key : String) (value : Json) : QueryGraph :=
  g.modify id fun n => { n with parameters := n.parameters.set key value }

def compact (g : QueryGraph) : QueryGraph := ofQuery g.toQuery

@[simp] theorem size_modify (g : QueryGraph) (id : NodeId) (f : Node → Node) :
    (g.modify id f).size = g.size := by
  simp [modify, size]

@[simp] theorem root_modify (g : QueryGraph) (id : NodeId) (f : Node → Node) :
    (g.modify id f).root = g.root := rfl

theorem node_modify (g : QueryGraph) (id other : NodeId) (f : Node → Node) (h : id < g.size) :
    (g.modify id f).node other = if other = id then f (g.node id) else g.node other := by
  simp only [size] at h
  by_cases e : other = id
  · subst e
    simp [modify, node, h, Array.getElem_modify]
  · have : id ≠ other := fun x => e x.symm
    simp [modify, node, e, Array.getElem?_modify, this]

@[simp] theorem size_addNode (g : QueryGraph) (operator : String) (parameters : Parameters) :
    (g.addNode operator parameters).size = g.size + 1 := by
  simp [addNode, size]

end RankedRetrieval.QueryGraph
