import RankedRetrieval.Query.Vocabulary

set_option autoImplicit false

namespace RankedRetrieval

abbrev NodeId := Nat

structure Node where
  operator : String
  parameters : Parameters
  children : List NodeId
  parent : Option NodeId

structure QueryGraph where
  nodes : Array Node
  root : NodeId

namespace QueryGraph

def size (g : QueryGraph) : Nat := g.nodes.size

def node (g : QueryGraph) (id : NodeId) : Node :=
  g.nodes[id]?.getD { operator := "", parameters := .empty, children := [], parent := none }

def operator (g : QueryGraph) (id : NodeId) : String := (g.node id).operator

def parameters (g : QueryGraph) (id : NodeId) : Parameters := (g.node id).parameters

def children (g : QueryGraph) (id : NodeId) : List NodeId := (g.node id).children

def parent (g : QueryGraph) (id : NodeId) : Option NodeId := (g.node id).parent

def roots (first : NodeId) : List Query → List NodeId
  | [] => []
  | q :: rest => first :: roots (first + q.size) rest

mutual

def layout (parent : Option NodeId) (first : NodeId) : Query → List Node
  | .node operator parameters children =>
    { operator, parameters, children := roots (first + 1) children, parent } ::
      layoutAll first (first + 1) children

def layoutAll (parent : NodeId) (first : NodeId) : List Query → List Node
  | [] => []
  | q :: rest => layout (some parent) first q ++ layoutAll parent (first + q.size) rest

end

mutual

theorem length_layout (parent : Option NodeId) (first : NodeId) (q : Query) :
    (layout parent first q).length = q.size := by
  cases q with
  | node operator parameters children =>
    simp only [layout, List.length_cons, Query.size, length_layoutAll first (first + 1) children]

theorem length_layoutAll (parent first : NodeId) (qs : List Query) :
    (layoutAll parent first qs).length = Query.sizeAll qs := by
  cases qs with
  | nil => rfl
  | cons q rest =>
    simp only [layoutAll, List.length_append, Query.sizeAll, length_layout (some parent) first q,
      length_layoutAll parent (first + q.size) rest]

end

def ofQuery (q : Query) : QueryGraph := { nodes := (layout none 0 q).toArray, root := 0 }

def queryTo (g : QueryGraph) : Nat → NodeId → Query
  | 0, id => .node (g.operator id) (g.parameters id) []
  | depth + 1, id =>
    .node (g.operator id) (g.parameters id) ((g.children id).map (g.queryTo depth))

/-- The query below a node. No path without a cycle is longer than the number of nodes. -/
def queryAt (g : QueryGraph) (id : NodeId) : Query := g.queryTo g.size id

def toQuery (g : QueryGraph) : Query := g.queryAt g.root

def orderTo (g : QueryGraph) : Nat → NodeId → List NodeId
  | 0, id => [id]
  | depth + 1, id => id :: (g.children id).flatMap (g.orderTo depth)

def preorder (g : QueryGraph) : List NodeId := g.orderTo g.size g.root

def nodeCount (g : QueryGraph) : Nat := g.preorder.length

def fieldTo (g : QueryGraph) : Nat → NodeId → Option String
  | 0, id => Query.ownField (g.parameters id)
  | depth + 1, id =>
    match Query.ownField (g.parameters id) with
    | some field => some field
    | none => (g.children id).findSome? (g.fieldTo depth)

theorem fieldTo_eq (g : QueryGraph) (depth : Nat) (id : NodeId) :
    g.fieldTo depth id = (g.queryTo depth id).firstField := by
  induction depth generalizing id with
  | zero => simp [fieldTo, queryTo, Query.firstField, Query.firstFieldOf]
  | succ depth ih =>
    have below : g.fieldTo depth = Query.firstField ∘ g.queryTo depth := funext ih
    rw [fieldTo, queryTo, Query.firstField, Query.firstFieldOf_eq_findSome?, List.findSome?_map,
      below]
    cases Query.ownField (g.parameters id) <;> rfl

def fieldHint (g : QueryGraph) (id : NodeId) : String := (g.fieldTo g.size id).getD defaultField

theorem fieldHint_eq (g : QueryGraph) (id : NodeId) :
    g.fieldHint id = (g.queryAt id).fieldHint := by
  rw [fieldHint, fieldTo_eq, queryAt, Query.fieldHint]

/-- What the query below a node means, to a depth. Only where a rule asks for the children are they
looked at. -/
def resolveTo (g : QueryGraph) (v : Vocabulary) : Nat → NodeId → Except QueryError Meaning
  | 0, id => v.resolve (.node (g.operator id) (g.parameters id) [])
  | depth + 1, id =>
    match v.rule? (g.operator id) with
    | none => .error (.unknownOperator (g.operator id))
    | some (.fixed capabilities form) => .ok { capabilities, form }
    | some (.shared mask form) =>
      (Vocabulary.shareBy (g.resolveTo v depth) mask (g.children id)).map
        ({ capabilities := ·, form })

theorem resolveTo_eq (g : QueryGraph) (v : Vocabulary) (depth : Nat) (id : NodeId) :
    g.resolveTo v depth id = v.resolve (g.queryTo depth id) := by
  induction depth generalizing id with
  | zero => rfl
  | succ depth ih =>
    have below : g.resolveTo v depth = fun child => v.resolve (g.queryTo depth child) := funext ih
    rw [resolveTo, queryTo, Vocabulary.resolve, below]
    cases v.rule? (g.operator id) with
    | none => rfl
    | some rule =>
      cases rule with
      | fixed capabilities form => rfl
      | shared mask form =>
        exact congrArg (Except.map _)
          (v.resolveShared_map (g.queryTo depth) mask (g.children id)).symm

def resolve (g : QueryGraph) (v : Vocabulary) (id : NodeId) : Except QueryError Meaning :=
  g.resolveTo v g.size id

theorem resolve_eq (g : QueryGraph) (v : Vocabulary) (id : NodeId) :
    g.resolve v id = v.resolve (g.queryAt id) :=
  g.resolveTo_eq v g.size id

def render (g : QueryGraph) : String := g.toQuery.render

end QueryGraph

end RankedRetrieval
