import RankedRetrieval.Proofs.Graph.Numbered
import RankedRetrieval.Proofs.Preparation.Walk

set_option autoImplicit false

/-!
# What a walk makes of a query

A pass that decides by operator and parameters whether it keeps a node, wraps it or puts another in
its place. The walk makes of a query what the recursion makes of it that decides so at each node,
over what has become of the children (`folds_run`). If a call fails, this holds of the nodes that
were left before.
-/

namespace RankedRetrieval

inductive Decision where
  | keep
  | wrap (operator : String) (parameters : Parameters)
  | replace (operator : String) (parameters : Parameters)

namespace Decision

def apply : Decision → Query → Query
  | keep, q => q
  | wrap operator parameters, q => .node operator parameters [q]
  | replace operator parameters, _ => .node operator parameters []

def make (g : QueryGraph) (id : NodeId) : Decision → QueryGraph × NodeId
  | keep => (g, id)
  | wrap operator parameters => (g.wrap id operator parameters, g.size)
  | replace operator parameters => (g.addNode operator parameters, g.size)

open QueryGraph in
/-- What is decided for a tree stands in its place. -/
theorem forest_make {g : QueryGraph} {id : NodeId} {q : Query} {ids : List NodeId}
    (decision : Decision) (tree : Forest g [id] [q] (id :: ids)) :
    ∃ ids', Forest (decision.make g id).1 [(decision.make g id).2] [decision.apply q] ids' ∧
      Rebuilt (id :: ids) ids' g (decision.make g id).1 ∧
      ((decision.make g id).2 = id → (decision.make g id).1.parent id = g.parent id) := by
  have member : id ∈ id :: ids := List.mem_cons_self
  have here : id < g.size := tree.lt_size id member
  cases decision with
  | keep => exact ⟨id :: ids, tree, .refl _ _, fun _ => rfl⟩
  | wrap operator parameters =>
    exact ⟨g.size :: id :: ids, tree.wrap, rebuilt_wrap here member,
      fun is => absurd is (Nat.ne_of_gt here)⟩
  | replace operator parameters =>
    have added : Rebuilt (id :: ids) [g.size] g (g.addNode operator parameters) := by
      refine (rebuilt_addNode (id :: ids)).widen (List.Subset.refl _) fun i new => ?_
      exact .inl (List.mem_cons.2 (.inl (List.mem_singleton.1 new)))
    exact ⟨[g.size], forest_addNode, added, fun is => absurd is (Nat.ne_of_gt here)⟩

end Decision

abbrev Rewriting := String → Parameters → Decision

/-- A pass that leaves nodes as it is decided for them. Any call may fail. -/
def Pass.Decides (pass : Pass) (rule : Rewriting) : Prop :=
  ∀ g id made, pass.leave g id = .ok made →
    made = (rule (g.operator id) (g.parameters id)).make g id

def Pass.Fails (pass : Pass) (g : QueryGraph) (e : QueryError) : Call → Prop
  | .enter id => pass.enter g id = .error e
  | .leave id => pass.leave g id = .error e

mutual

/-- What a query becomes if all its nodes are decided, those of the children first. -/
def Query.folded (rule : Rewriting) : Query → Query
  | .node operator parameters children =>
    (rule operator parameters).apply (.node operator parameters (foldedAll rule children))

def Query.foldedAll (rule : Rewriting) : List Query → List Query
  | [] => []
  | q :: rest => q.folded rule :: foldedAll rule rest

end

theorem Query.foldedAll_eq (rule : Rewriting) (qs : List Query) :
    foldedAll rule qs = qs.map (folded rule) := by
  induction qs with
  | nil => rfl
  | cons q rest ih => rw [foldedAll, ih, List.map_cons]

namespace NumberedQuery

def folded (rule : Rewriting) (decided : List NodeId) : NumberedQuery → Query :=
  fold fun id operator parameters below =>
    if id ∈ decided then (rule operator parameters).apply (.node operator parameters below)
    else .node operator parameters below

variable {rule : Rewriting} {decided decided' : List NodeId}

theorem folded_node (id : NodeId) (operator : String) (parameters : Parameters)
    (children : List NumberedQuery) : (node id operator parameters children).folded rule decided =
      if id ∈ decided then (rule operator parameters).apply
        (.node operator parameters (children.map (folded rule decided)))
      else .node operator parameters (children.map (folded rule decided)) := fold_node _ _ _ _ _

theorem folded_congr {q : NumberedQuery}
    (same : ∀ i ∈ q.numbers, i ∈ decided ↔ i ∈ decided') :
    q.folded rule decided = q.folded rule decided' := by
  induction q with
  | node id operator parameters children ih =>
    rw [numbers_node, List.forall_mem_cons] at same
    have below : children.map (folded rule decided) = children.map (folded rule decided') := by
      refine List.map_congr_left fun child member => ih child member fun i inside => ?_
      exact same.2 i (List.mem_flatMap.2 ⟨child, member, inside⟩)
    simp only [folded_node, below, same.1]

theorem folded_nil (q : NumberedQuery) : q.folded rule [] = q.query := by
  induction q with
  | node id operator parameters children ih =>
    rw [folded_node, if_neg List.not_mem_nil, List.map_congr_left ih, query_node]

theorem folded_of_subset {q : NumberedQuery} (all : q.numbers ⊆ decided) :
    q.folded rule decided = q.query.folded rule := by
  induction q with
  | node id operator parameters children ih =>
    rw [numbers_node, List.cons_subset] at all
    have below : children.map (folded rule decided) =
        children.map fun child => child.query.folded rule := by
      refine List.map_congr_left fun child member => ih child member fun i inside => ?_
      exact all.2 (List.mem_flatMap.2 ⟨child, member, inside⟩)
    rw [folded_node, if_pos all.1, below, query_node, Query.folded, Query.foldedAll_eq,
      List.map_map]
    rfl

theorem map_folded_append {qs : List NumberedQuery} {calls calls' : List Call}
    (apart : (Call.leaves calls).Disjoint (qs.flatMap numbers)) :
    qs.map (folded rule (Call.leaves (calls ++ calls'))) =
      qs.map (folded rule (Call.leaves calls')) := by
  refine List.map_congr_left fun q member => folded_congr fun i inside => ?_
  have away : i ∉ Call.leaves calls := fun left =>
    apart left (List.mem_flatMap.2 ⟨q, member, inside⟩)
  rw [Call.leaves_append, List.mem_append, or_iff_right away]

/-- Once all nodes are decided later calls change nothing. -/
theorem folded_calls_append (q : NumberedQuery) (calls : List Call) :
    q.folded rule (Call.leaves (q.calls ++ calls)) = q.folded rule (Call.leaves q.calls) := by
  refine folded_congr fun i inside => ?_
  have left : i ∈ Call.leaves q.calls := by rwa [leaves_calls, mem_postorder_iff]
  rw [Call.leaves_append, List.mem_append, or_iff_left_of_imp fun _ => left]

/-- A node that is left is decided over what has become of the nodes below it. -/
theorem folded_node_calls {id : NodeId} {operator : String} {parameters : Parameters}
    {children : List NumberedQuery} (fresh : id ∉ children.flatMap numbers) :
    (node id operator parameters children).folded rule
        (Call.leaves (node id operator parameters children).calls) =
      (rule operator parameters).apply (.node operator parameters
        (children.map (folded rule (Call.leaves (children.flatMap calls))))) := by
  have left : Call.leaves (node id operator parameters children).calls =
      Call.leaves (children.flatMap calls) ++ [id] := by simp
  have last : id ∈ Call.leaves (children.flatMap calls) ++ [id] :=
    List.mem_append_right _ (List.mem_singleton_self id)
  have below : children.map (folded rule (Call.leaves (children.flatMap calls) ++ [id])) =
      children.map (folded rule (Call.leaves (children.flatMap calls))) := by
    refine List.map_congr_left fun child member => folded_congr fun i inside => ?_
    have other : i ≠ id := fun is => fresh (is ▸ List.mem_flatMap.2 ⟨child, member, inside⟩)
    rw [List.mem_append, List.mem_singleton, or_iff_left other]
  rw [folded_node, left, if_pos last, below]

end NumberedQuery

namespace Pass

open QueryGraph

structure Called (calls : List Call) (t t' : Trail) : Prop where
  entered : t'.entered = (Call.enters calls).reverse ++ t.entered
  left : t'.left = (Call.leaves calls).reverse ++ t.left

theorem Called.append {calls more : List Call} {t t' t'' : Trail} (h : Called calls t t')
    (h' : Called more t' t'') : Called (calls ++ more) t t'' where
  entered := by
    rw [h'.entered, h.entered, Call.enters_append, List.reverse_append, List.append_assoc]
  left := by rw [h'.left, h.left, Call.leaves_append, List.reverse_append, List.append_assoc]

/-- A walk makes its calls in order. If one fails it is the last, and the graph is as the calls
before have made it. -/
def Goes {β : Type} (pass : Pass) (calls : List Call) (t : Trail)
    (after : Option β → List Call → QueryGraph → Prop) : EStateM.Result QueryError Trail β → Prop
  | .ok b t' => Called calls t t' ∧ after (some b) calls t'.graph
  | .error e t' => ∃ before call rest, calls = before ++ call :: rest ∧
      Called (before ++ [call]) t t' ∧ pass.Fails t'.graph e call ∧ after none before t'.graph

theorem Goes.prepend {β : Type} {pass : Pass} {calls calls' : List Call} {t t' : Trail}
    {after after' : Option β → List Call → QueryGraph → Prop}
    {r : EStateM.Result QueryError Trail β} (h : pass.Goes calls' t' after' r)
    (called : Called calls t t')
    (carry : ∀ b made g, after' b made g → after b (calls ++ made) g) :
    pass.Goes (calls ++ calls') t after r := by
  cases r with
  | ok b t'' => exact ⟨called.append h.1, carry _ _ _ h.2⟩
  | error e t'' =>
    obtain ⟨before, call, rest, split, called', fails, done⟩ := h
    refine ⟨calls ++ before, call, rest, ?_, ?_, fails, carry _ _ _ done⟩
    · rw [split, List.append_assoc]
    · rw [List.append_assoc]
      exact called.append called'

/-- The tree of a node after some calls: the nodes that have been left are decided, all others are
still there. -/
def Stage (rule : Rewriting) (q : NumberedQuery) (g : QueryGraph) (place : Option NodeId)
    (calls : List Call) (g' : QueryGraph) : Prop :=
  ∃ ids, Forest g' [place.getD q.first] [q.folded rule (Call.leaves calls)] ids ∧
    Rebuilt q.numbers ids g g' ∧
    (place.getD q.first = q.first → g'.parent q.first = g.parent q.first) ∧
    ∀ i ∈ q.numbers, i ∉ Call.leaves calls → i ∈ ids

def StageBelow (rule : Rewriting) (parent : NodeId) (above : List Query → Query)
    (qs : List Query) (ids : List NodeId) (rest : List NumberedQuery) (g : QueryGraph)
    (calls : List Call) (g' : QueryGraph) : Prop :=
  ∃ below, Forest g' [parent]
      [above (qs ++ rest.map (NumberedQuery.folded rule (Call.leaves calls)))]
      (parent :: (ids ++ below)) ∧
    Rebuilt (parent :: (ids ++ rest.flatMap NumberedQuery.numbers)) (parent :: (ids ++ below)) g g' ∧
    g'.parent parent = g.parent parent ∧
    ∀ i ∈ rest.flatMap NumberedQuery.numbers, i ∉ Call.leaves calls → i ∈ below

section Reread

/-- The children of a node, visited by their positions in a list that is read again each time. -/
def rereadEach (visit : NodeId → Walk NodeId) (parent : NodeId) : Nat → Nat → Walk Unit
  | 0, _ => pure ()
  | more + 1, position => do
    match ((← get).graph.children parent)[position]? with
    | none => pure ()
    | some child => do
      let replacement ← visit child
      if replacement ≠ child then
        modify fun t => { t with graph := t.graph.replaceChildAt parent position replacement }
      rereadEach visit parent more (position + 1)

def reread (pass : Pass) : Nat → NodeId → Walk NodeId
  | 0, id => pure id
  | depth + 1, id => do
    pass.enterNode id
    rereadEach (pass.reread depth) id (depth + 1) 0
    pass.leaveNode id

variable {visit : NodeId → Walk NodeId} {parent : NodeId} {more position : Nat} {t : Trail}

theorem rereadEach_none (done : (t.graph.children parent)[position]? = none) :
    rereadEach visit parent (more + 1) position t = .ok () t := by
  simp only [rereadEach, bind, EStateM.bind, get_eq, done]
  rfl

theorem rereadEach_some {child : NodeId}
    (listed : (t.graph.children parent)[position]? = some child) :
    rereadEach visit parent (more + 1) position t =
      match visit child t with
      | .ok id t' => rereadEach visit parent more (position + 1)
          { t' with graph := t'.graph.linkIn parent position child id }
      | .error e t' => .error e t' := by
  simp only [rereadEach, bind, EStateM.bind, get_eq, listed]
  cases visit child t with
  | error e t' => rfl
  | ok id t' =>
    simp only [linkIn]
    split <;> rfl

end Reread

section Visits

variable {pass : Pass} {rule : Rewriting}

def VisitsAlike (pass : Pass) (rule : Rewriting) (depth : Nat) (visit visit' : NodeId → Walk NodeId) :
    Prop :=
  ∀ {t : Trail} {q : NumberedQuery}, Forest t.graph [q.first] [q.query] q.numbers →
    q.query.size ≤ depth →
    visit' q.first t = visit q.first t ∧
      pass.Goes q.calls t (Stage rule q t.graph) (visit q.first t)

theorem sizeAll_append (qs qs' : List Query) :
    Query.sizeAll (qs ++ qs') = Query.sizeAll qs + Query.sizeAll qs' := by
  induction qs with
  | nil => rw [List.nil_append, Query.sizeAll, Nat.zero_add]
  | cons q rest ih => rw [List.cons_append, Query.sizeAll, Query.sizeAll, ih, Nat.add_assoc]

structure Midway (parent : NodeId) (operator : String) (parameters : Parameters)
    (placed : List NodeId) (qs : List Query) (ids : List NodeId) (rest : List NumberedQuery)
    (g : QueryGraph) : Prop where
  tree : Forest g [parent] [.node operator parameters (qs ++ rest.map NumberedQuery.query)]
    (parent :: (ids ++ rest.flatMap NumberedQuery.numbers))
  listed : g.children parent = placed ++ rest.map NumberedQuery.first
  same : qs.length = placed.length
  length : ids.length = Query.sizeAll qs

section Midway

variable {parent : NodeId} {operator : String} {parameters : Parameters} {placed ids : List NodeId}
  {qs : List Query} {q : NumberedQuery} {rest : List NumberedQuery} {g g' : QueryGraph}

theorem Midway.getElem?_children
    (h : Midway parent operator parameters placed qs ids (q :: rest) g) :
    (g.children parent)[placed.length]? = some q.first := by
  rw [h.listed, List.map_cons, List.getElem?_append_right (Nat.le_refl _), Nat.sub_self,
    List.getElem?_cons_zero]

theorem Midway.done (h : Midway parent operator parameters placed qs ids [] g) :
    (g.children parent)[placed.length]? = none ∧
      StageBelow rule parent (.node operator parameters) qs ids [] g [] g := by
  constructor
  · rw [h.listed, List.map_nil, List.append_nil]
    exact List.getElem?_eq_none (Nat.le_refl _)
  · exact ⟨[], h.tree, .refl _ _, rfl, List.forall_mem_nil _⟩

/-- While the calls for a child are made, the trees of those after it are as they were. -/
theorem Midway.stopped (h : Midway parent operator parameters placed qs ids (q :: rest) g)
    {before after : List Call} (split : q.calls = before ++ after)
    (stage : Stage rule q g none before g') :
    StageBelow rule parent (.node operator parameters) qs ids (q :: rest) g before g' := by
  obtain ⟨_, apart, around⟩ := Forest.numbered_around h.tree h.listed h.same h.length
  obtain ⟨within, tree, rebuilt, top, kept⟩ := stage
  rw [Option.getD_none] at tree top
  obtain ⟨whole, changed, top', _⟩ := around tree rebuilt top
  rw [linkIn_self] at whole changed top'
  have others : rest.map (NumberedQuery.folded rule (Call.leaves (before ++ []))) =
      rest.map (NumberedQuery.folded rule (Call.leaves [])) :=
    NumberedQuery.map_folded_append fun i left inside =>
      apart (NumberedQuery.leaves_subset split left) inside
  have unchanged : rest.map (NumberedQuery.folded rule []) = rest.map NumberedQuery.query :=
    List.map_congr_left fun q _ => q.folded_nil
  rw [List.append_nil, Call.leaves_nil, unchanged] at others
  refine ⟨within ++ rest.flatMap NumberedQuery.numbers, ?_, changed, top', ?_⟩
  · rw [List.map_cons, others]
    exact whole
  · rw [List.flatMap_cons, List.forall_mem_append]
    exact ⟨fun i inside notLeft => List.mem_append_left _ (kept i inside notLeft),
      fun i inside _ => List.mem_append_right _ inside⟩

/-- When all calls for a child have been made, its tree is put in its place. What becomes of the
parent by the calls for the children after it is then the same as by all of the calls. -/
theorem Midway.next (h : Midway parent operator parameters placed qs ids (q :: rest) g)
    {id : NodeId} (stage : Stage rule q g (some id) q.calls g') :
    ∃ within, Midway parent operator parameters (placed ++ [id])
        (qs ++ [q.folded rule (Call.leaves q.calls)]) (ids ++ within) rest
        (g'.linkIn parent placed.length q.first id) ∧
      ∀ {calls : List Call} {g'' : QueryGraph},
        StageBelow rule parent (.node operator parameters)
            (qs ++ [q.folded rule (Call.leaves q.calls)]) (ids ++ within) rest
            (g'.linkIn parent placed.length q.first id) calls g'' →
          StageBelow rule parent (.node operator parameters) qs ids (q :: rest) g
            (q.calls ++ calls) g'' := by
  obtain ⟨_, apart, around⟩ := Forest.numbered_around h.tree h.listed h.same h.length
  obtain ⟨within, tree, rebuilt, top, _⟩ := stage
  rw [Option.getD_some] at tree top
  obtain ⟨whole, changed, top', list⟩ := around tree rebuilt top
  rw [List.append_cons, ← List.append_assoc ids] at whole
  rw [List.append_cons] at list
  refine ⟨within, ⟨whole, list, ?_, ?_⟩, fun {calls g''} below => ?_⟩
  -- the calls for this child tell of its numbers alone, and those to come of the numbers after it
  · rw [List.length_append, List.length_append, h.same]
    rfl
  · rw [List.length_append, h.length, tree.length_eq, sizeAll_append]
  · obtain ⟨within', tree', rebuilt', top'', kept⟩ := below
    rw [List.append_assoc ids, List.append_assoc ids] at rebuilt'
    have others : rest.map (NumberedQuery.folded rule (Call.leaves (q.calls ++ calls))) =
        rest.map (NumberedQuery.folded rule (Call.leaves calls)) :=
      NumberedQuery.map_folded_append fun i left inside =>
        apart (NumberedQuery.leaves_subset (List.append_nil _).symm left) inside
    refine ⟨within ++ within', ?_, changed.trans rebuilt', top''.trans top', ?_⟩
    · rw [List.map_cons, NumberedQuery.folded_calls_append, others, List.append_cons,
        ← List.append_assoc ids]
      exact tree'
    · rw [List.flatMap_cons, List.forall_mem_append]
      refine ⟨fun i inside notLeft => ?_, fun i inside notLeft => ?_⟩
      · rw [Call.leaves_append, NumberedQuery.leaves_calls] at notLeft
        exact absurd (List.mem_append_left _ (NumberedQuery.mem_postorder_iff.2 inside)) notLeft
      · rw [Call.leaves_append] at notLeft
        exact List.mem_append_right _
          (kept i inside fun left => notLeft (List.mem_append_right _ left))

end Midway

/-- Visits to the last of a node's children. -/
theorem goes_visitEach {depth : Nat} {visit visit' : NodeId → Walk NodeId}
    (visits : VisitsAlike pass rule depth visit visit') {t : Trail} {parent : NodeId}
    {operator : String} {parameters : Parameters} {placed ids : List NodeId} {qs : List Query}
    {rest : List NumberedQuery} {more : Nat}
    (midway : Midway parent operator parameters placed qs ids rest t.graph)
    (deep : Query.sizeAll (rest.map NumberedQuery.query) ≤ depth) (enough : rest.length < more) :
    rereadEach visit' parent more placed.length t =
        visitEach visit parent (rest.map NumberedQuery.first) placed.length t ∧
      pass.Goes (rest.flatMap NumberedQuery.calls) t
        (fun _ => StageBelow rule parent (.node operator parameters) qs ids rest t.graph)
        (visitEach visit parent (rest.map NumberedQuery.first) placed.length t) := by
  obtain ⟨more, rfl⟩ : ∃ more', more = more' + 1 := ⟨more - 1, by omega⟩
  induction rest generalizing t placed ids qs more with
  | nil =>
    obtain ⟨last, stage⟩ := midway.done
    exact ⟨rereadEach_none last, ⟨rfl, rfl⟩, stage⟩
  | cons q rest ih =>
    have middle := (Forest.numbered_around midway.tree midway.listed midway.same midway.length).1
    rw [List.map_cons, Query.sizeAll] at deep
    obtain ⟨alike, visited⟩ := visits middle (by omega)
    rw [rereadEach_some midway.getElem?_children, List.map_cons, visitEach_cons, alike]
    cases result : visit q.first t with
    | error e t' =>
      -- the calls stop here, and those for the children after it stay uncalled
      rw [result] at visited
      obtain ⟨before, call, after, split, called, fails, stage⟩ := visited
      refine ⟨rfl, before, call, after ++ rest.flatMap NumberedQuery.calls, ?_, called, fails,
        midway.stopped split stage⟩
      rw [List.flatMap_cons, split, List.append_assoc, List.cons_append]
    | ok id t' =>
      rw [result] at visited
      obtain ⟨called, stage⟩ := visited
      obtain ⟨within, midway', carry⟩ := midway.next stage
      rw [List.length_cons] at enough
      obtain ⟨more, rfl⟩ : ∃ more', more = more' + 1 := ⟨more - 1, by omega⟩
      have next := ih (t := { t' with graph := t'.graph.linkIn parent placed.length q.first id })
        midway' (by omega) more (by omega)
      rw [List.length_append, List.length_singleton] at next
      exact ⟨next.1, next.2.prepend ⟨called.entered, called.left⟩ fun _ _ _ below => carry below⟩

theorem reread_eq (pass : Pass) (depth : Nat) (id : NodeId) (t : Trail) :
    pass.reread (depth + 1) id t =
      match pass.enter t.graph id with
      | .error e => .error e { t with entered := id :: t.entered }
      | .ok () =>
        match rereadEach (pass.reread depth) id (depth + 1) 0
            { t with entered := id :: t.entered } with
        | .ok _ t' => pass.leaveNode id t'
        | .error e t' => .error e t' := by
  simp only [reread, enterNode, bind, EStateM.bind, modify_eq, get_eq]
  cases pass.enter t.graph id with
  | error e => rfl
  | ok _ =>
    simp only [pure, EStateM.pure]
    cases rereadEach (pass.reread depth) id (depth + 1) 0
      { t with entered := id :: t.entered } <;> rfl

theorem stage_nil {q : NumberedQuery} {g : QueryGraph}
    (tree : Forest g [q.first] [q.query] q.numbers) : Stage rule q g none [] g := by
  refine ⟨q.numbers, ?_, .refl _ _, fun _ => rfl, fun i inside _ => inside⟩
  rw [Call.leaves_nil, NumberedQuery.folded_nil]
  exact tree

theorem StageBelow.content {parent : NodeId} {operator : String} {parameters : Parameters}
    {qs : List Query} {ids : List NodeId} {rest : List NumberedQuery} {g g' : QueryGraph}
    {calls : List Call}
    (below : StageBelow rule parent (.node operator parameters) qs ids rest g calls g') :
    g'.operator parent = operator ∧ g'.parameters parent = parameters := by
  obtain ⟨_, tree, _⟩ := below
  obtain ⟨_, _, is, _⟩ := tree.root_cases
  rw [Query.node.injEq] at is
  exact ⟨is.1.symm, is.2.1.symm⟩

/-- A node that has not been left stays, over what has become of its children. -/
theorem StageBelow.stage {id : NodeId} {operator : String} {parameters : Parameters}
    {children : List NumberedQuery} {g g' : QueryGraph} {before : List Call}
    (below : StageBelow rule id (.node operator parameters) [] [] children g before g')
    (fresh : id ∉ Call.leaves before) :
    Stage rule (.node id operator parameters children) g none (.enter id :: before) g' := by
  obtain ⟨ids, tree, rebuilt, top, kept⟩ := below
  rw [Stage, NumberedQuery.folded_node, NumberedQuery.numbers_node, Call.leaves_enter,
    if_neg fresh]
  refine ⟨id :: ids, tree, rebuilt, fun _ => top, List.forall_mem_cons.2 ⟨fun _ => ?_, ?_⟩⟩
  · exact List.mem_cons_self
  · exact fun i inside notLeft => List.mem_cons_of_mem _ (kept i inside notLeft)

/-- A node whose children have all been visited becomes what is decided for it. -/
theorem StageBelow.stage_make {id : NodeId} {operator : String} {parameters : Parameters}
    {children : List NumberedQuery} {g g' : QueryGraph}
    (below : StageBelow rule id (.node operator parameters) [] [] children g
      (children.flatMap NumberedQuery.calls) g')
    (fresh : id ∉ children.flatMap NumberedQuery.numbers) :
    Stage rule (.node id operator parameters children) g
      (some ((rule operator parameters).make g' id).2)
      (NumberedQuery.node id operator parameters children).calls
      ((rule operator parameters).make g' id).1 := by
  obtain ⟨ids, tree, rebuilt, top, _⟩ := below
  obtain ⟨ids', tree', changed, held⟩ := (rule operator parameters).forest_make tree
  have outside : (NumberedQuery.node id operator parameters children).numbers =
      id :: ([] ++ children.flatMap NumberedQuery.numbers) := NumberedQuery.numbers_node _ _ _ _
  rw [Stage, Option.getD_some, NumberedQuery.folded_node_calls fresh]
  refine ⟨ids', tree', ?_, fun is => (held is).trans top, fun i inside notLeft => ?_⟩
  · rw [outside]
    exact rebuilt.trans changed
  · rw [NumberedQuery.leaves_calls, NumberedQuery.mem_postorder_iff] at notLeft
    exact absurd inside notLeft

/-- The last call for a tree, when all calls for the children have been made. -/
theorem StageBelow.goes_leaveNode (decides : pass.Decides rule) {id : NodeId} {operator : String}
    {parameters : Parameters} {children : List NumberedQuery} {t t' : Trail}
    (below : StageBelow rule id (.node operator parameters) [] [] children t.graph
      (children.flatMap NumberedQuery.calls) t'.graph)
    (fresh : id ∉ children.flatMap NumberedQuery.numbers)
    (called : Called (.enter id :: children.flatMap NumberedQuery.calls) t t') :
    pass.Goes (NumberedQuery.node id operator parameters children).calls t
      (Stage rule (.node id operator parameters children) t.graph) (pass.leaveNode id t') := by
  have notLeft : id ∉ Call.leaves (children.flatMap NumberedQuery.calls) := fun left =>
    fresh (NumberedQuery.leaves_subset_flatMap (List.append_nil _).symm left)
  have left : Called [.leave id] t' { t' with left := id :: t'.left } := ⟨rfl, rfl⟩
  have stage := below.stage_make fresh
  rw [leaveNode_eq]
  cases leaving : pass.leave t'.graph id with
  | error e =>
    exact ⟨.enter id :: children.flatMap NumberedQuery.calls, .leave id, [],
      NumberedQuery.calls_node _ _ _ _, called.append left, leaving, below.stage notLeft⟩
  | ok made =>
    obtain ⟨graph, place⟩ := made
    have decided := decides _ _ _ leaving
    rw [below.content.1, below.content.2] at decided
    rw [← decided] at stage
    refine ⟨?_, stage⟩
    rw [NumberedQuery.calls_node]
    exact ⟨(called.append left).entered, (called.append left).left⟩

theorem length_le_sizeAll (qs : List Query) : qs.length ≤ Query.sizeAll qs := by
  induction qs with
  | nil => exact Nat.le_refl 0
  | cons q rest ih =>
    cases q with
    | node operator parameters children =>
      rw [List.length_cons, Query.sizeAll, Query.size]
      omega

/-- A visit makes the calls for a tree, and of the tree what is decided for it. -/
theorem visitsAlike (decides : pass.Decides rule) (depth : Nat) :
    VisitsAlike pass rule depth (pass.visit depth) (pass.reread depth) := by
  induction depth with
  | zero =>
    intro t q _ deep
    cases q with
    | node id operator parameters children =>
      rw [NumberedQuery.query_node, Query.size] at deep
      omega
  | succ depth ih =>
    intro t q tree deep
    cases q with
    | node id operator parameters children =>
      change Forest t.graph [id] _ _ at tree
      change pass.reread (depth + 1) id t = pass.visit (depth + 1) id t ∧
        pass.Goes _ t _ (pass.visit (depth + 1) id t)
      obtain ⟨_, _, listed, _, fresh⟩ := tree.numbered_cases
      rw [NumberedQuery.query_node, Query.size] at deep
      have few : children.length < depth + 1 := by
        have := length_le_sizeAll (children.map NumberedQuery.query)
        rw [List.length_map] at this
        omega
      have midway : Midway id operator parameters [] [] [] children t.graph := by
        rw [NumberedQuery.query_node, NumberedQuery.numbers_node] at tree
        exact ⟨tree, listed, rfl, rfl⟩
      obtain ⟨alike, each⟩ := goes_visitEach ih (t := { t with entered := id :: t.entered })
        midway (by omega) few
      have entered : Called [.enter id] t { t with entered := id :: t.entered } := ⟨rfl, rfl⟩
      rw [visit_eq, reread_eq, listed]
      cases entering : pass.enter t.graph id with
      | error e =>
        exact ⟨rfl, [], .enter id, _, NumberedQuery.calls_node _ _ _ _, entered, entering,
          stage_nil tree⟩
      | ok _ =>
        rw [List.length_nil] at alike each
        dsimp only
        rw [alike]
        cases result : visitEach (pass.visit depth) id (children.map NumberedQuery.first) 0
            { t with entered := id :: t.entered } with
        | error e t' =>
          rw [result] at each
          obtain ⟨before, call, rest, split, called, fails, below⟩ := each
          refine ⟨rfl, .enter id :: before, call, rest ++ [.leave id], ?_, entered.append called,
            fails, below.stage fun left => fresh (NumberedQuery.leaves_subset_flatMap split left)⟩
          rw [NumberedQuery.calls_node, split, List.append_assoc, List.cons_append,
            List.cons_append]
        | ok _ t' =>
          rw [result] at each
          obtain ⟨called, below⟩ := each
          exact ⟨rfl, below.goes_leaveNode (t := t) decides fresh (entered.append called)⟩

end Visits

section Runs

variable {pass : Pass} {rule : Rewriting} {g : QueryGraph}

theorem Called.entered_begin {calls : List Call} {t : Trail} (h : Called calls (.begin g) t) :
    t.entered.reverse = Call.enters calls := by
  rw [h.entered, Trail.begin, List.append_nil, List.reverse_reverse]

theorem Called.left_begin {calls : List Call} {t : Trail} (h : Called calls (.begin g) t) :
    t.left.reverse = Call.leaves calls := by
  rw [h.left, Trail.begin, List.append_nil, List.reverse_reverse]

/-- All calls have been made: every node has been entered once and left once, and every node is
decided over what has become of its children. -/
structure Completed (rule : Rewriting) (g : QueryGraph) (outcome : Outcome) : Prop where
  entered : outcome.entered = g.preorder
  left : outcome.left = g.numbered.postorder
  linked : ∃ q, outcome.graph.Holds q
  query : outcome.graph.toQuery = g.toQuery.folded rule

/-- A call has failed: the nodes left before are decided, all others are still there. -/
structure Stopped (pass : Pass) (rule : Rewriting) (g : QueryGraph) (outcome : Outcome)
    (e : QueryError) (before : List Call) (call : Call) : Prop where
  entered : outcome.entered = Call.enters (before ++ [call])
  left : outcome.left = Call.leaves (before ++ [call])
  fails : pass.Fails outcome.graph e call
  linked : ∃ q, outcome.graph.Holds q
  root : outcome.graph.root = g.root
  query : outcome.graph.toQuery = g.numbered.folded rule (Call.leaves before)
  kept : ∀ i ∈ g.preorder, i ∉ Call.leaves before → i ∈ outcome.graph.preorder

theorem calls_inside {q : Query} (holds : g.Holds q) {before after : List Call}
    (split : g.numbered.calls = before ++ after) :
    ∀ id ∈ Call.enters before ++ Call.leaves before, id < g.size := by
  have old : ∀ i ∈ g.numbered.numbers, i < g.size := holds.forest_numbered.lt_size
  rw [List.forall_mem_append]
  constructor
  · intro i member
    refine old i ?_
    rw [← NumberedQuery.enters_calls, split, Call.enters_append]
    exact List.mem_append_left _ member
  · exact fun i member => old i (NumberedQuery.leaves_subset split member)

theorem Completed.old {outcome : Outcome} (h : Completed rule g outcome) {q : Query}
    (holds : g.Holds q) : ∀ id ∈ outcome.entered ++ outcome.left, id < g.size := by
  rw [h.entered, h.left, ← numbers_numbered, ← NumberedQuery.enters_calls,
    ← NumberedQuery.leaves_calls]
  exact calls_inside holds (List.append_nil _).symm

theorem Stopped.old {outcome : Outcome} {e : QueryError} {before after : List Call} {call : Call}
    (h : Stopped pass rule g outcome e before call) {q : Query} (holds : g.Holds q)
    (split : g.numbered.calls = before ++ call :: after) :
    ∀ id ∈ outcome.entered ++ outcome.left, id < g.size := by
  have made : g.numbered.calls = (before ++ [call]) ++ after := by
    rw [split, List.append_assoc, List.singleton_append]
  rw [h.entered, h.left]
  exact calls_inside holds made

theorem completed_of_goes {q : Query} (holds : g.Holds q) {id : NodeId} {t : Trail}
    (goes : pass.Goes g.numbered.calls (.begin g) (Stage rule g.numbered g) (.ok id t)) :
    Completed rule g
      { graph := if id ≠ g.root then t.graph.setRoot id else t.graph
        entered := t.entered.reverse
        left := t.left.reverse
        failure := none } := by
  obtain ⟨called, ids, tree, rebuilt, top, _⟩ := goes
  have all : g.numbered.numbers ⊆ Call.leaves g.numbered.calls := fun i inside => by
    rwa [NumberedQuery.leaves_calls, NumberedQuery.mem_postorder_iff]
  rw [Option.getD_some, NumberedQuery.folded_of_subset all, query_numbered] at tree
  rw [Option.getD_some, first_numbered] at top
  have spelled : (if id ≠ g.root then t.graph.setRoot id else t.graph).Holds
      (g.toQuery.folded rule) := by
    by_cases same : id = g.root
    · rw [if_neg (not_not.2 same)]
      have root : t.graph.root = id := rebuilt.root.trans same.symm
      exact ⟨by rw [root, same, top same, holds.top], ids, root.symm ▸ tree⟩
    · rw [if_pos same]
      obtain ⟨tree', orphan⟩ := tree.setRoot
      exact ⟨orphan, ids, tree'⟩
  refine ⟨?_, ?_, ⟨_, spelled⟩, spelled.toQuery_eq⟩
  · change t.entered.reverse = g.preorder
    rw [called.entered_begin, NumberedQuery.enters_calls, numbers_numbered]
  · change t.left.reverse = g.numbered.postorder
    rw [called.left_begin, NumberedQuery.leaves_calls]

theorem stopped_of_goes {q : Query} (holds : g.Holds q) {e : QueryError} {t : Trail}
    (goes : pass.Goes g.numbered.calls (.begin g) (Stage rule g.numbered g) (.error e t)) :
    ∃ before call after, g.numbered.calls = before ++ call :: after ∧
      Stopped pass rule g
        { graph := t.graph
          entered := t.entered.reverse
          left := t.left.reverse
          failure := some e } e before call := by
  obtain ⟨before, call, after, split, called, fails, ids, tree, rebuilt, top, kept⟩ := goes
  rw [Option.getD_none, first_numbered] at tree top
  have spelled : t.graph.Holds (g.numbered.folded rule (Call.leaves before)) := by
    refine ⟨?_, ids, rebuilt.root.symm ▸ tree⟩
    rw [rebuilt.root, top rfl, holds.top]
  refine ⟨before, call, after, split, called.entered_begin, called.left_begin, fails,
    ⟨_, spelled⟩, rebuilt.root, spelled.toQuery_eq, fun i inside notLeft => ?_⟩
  have order : t.graph.preorder = ids := by
    have tree' : Forest t.graph [t.graph.root] _ ids := rebuilt.root.symm ▸ tree
    exact tree'.preorder_eq
  rw [order]
  exact kept i (numbers_numbered g ▸ inside) notLeft

/-- A walk over a graph whose links agree calls for each of its nodes once to enter it, a node
before those below it, and once to leave it, a node after those below it, and never for a node that
is new. The query that the graph holds afterwards is what the recursion makes of it that decides at
each node, over what has become of the children. If a call fails, all calls before it have been
made: the nodes that were left before have become what is decided for them and stand in their
places, and the node of the failing call and all others are still there. In both cases the links
agree. It makes no difference whether the walk reads the list of children once or again before each
child. -/
theorem folds_run (pass : Pass) (rule : Rewriting) (decides : pass.Decides rule)
    (g : QueryGraph) (inside : g.root < g.size) (linked : g.checkLinks = true) :
    g.preorder.Nodup ∧ g.numbered.postorder.Perm g.preorder ∧
      (∀ id ∈ (pass.run g).entered ++ (pass.run g).left, id < g.size) ∧
      (pass.run g).graph.checkLinks = true ∧
      pass.reread g.size g.root (.begin g) = pass.visit g.size g.root (.begin g) ∧
      match (pass.run g).failure with
      | none => Completed rule g (pass.run g)
      | some e => ∃ before call after, g.numbered.calls = before ++ call :: after ∧
        Stopped pass rule g (pass.run g) e before call := by
  obtain ⟨q, holds⟩ := (checkLinks_iff_holds inside).1 linked
  have forest := holds.forest_numbered
  have deep := forest.sizeAll_le
  rw [Query.sizeAll, Query.sizeAll, Nat.add_zero] at deep
  obtain ⟨alike, goes⟩ := visitsAlike decides g.size (t := .begin g) forest deep
  have once : g.numbered.postorder.Perm g.preorder :=
    numbers_numbered g ▸ g.numbered.postorder_perm
  rw [first_numbered] at alike goes
  refine ⟨holds.forest.nodup, once, ?_⟩
  rw [run_eq_outcome]
  cases result : pass.visit g.size g.root (.begin g) with
  | ok id t =>
    rw [result] at goes alike
    have completed := completed_of_goes holds goes
    obtain ⟨_, after⟩ := completed.linked
    exact ⟨completed.old holds, (checkLinks_iff_holds after.inside).2 completed.linked, alike,
      completed⟩
  | error e t =>
    rw [result] at goes alike
    obtain ⟨before, call, after, split, stopped⟩ := stopped_of_goes holds goes
    obtain ⟨_, left⟩ := stopped.linked
    exact ⟨stopped.old holds split, (checkLinks_iff_holds left.inside).2 stopped.linked, alike,
      before, call, after, split, stopped⟩

section Example

/-- Terms become the only synonyms of themselves, and lengths are read instead of priors. -/
def alone : Rewriting := fun operator parameters =>
  if operator = "extents" then .wrap "syn" .empty
  else if operator = "prior" then .replace "lengths" parameters
  else .keep

def refusing (rule : Rewriting) (refused : NodeId) : Pass :=
  onLeave "rewrite" fun g id =>
    if id = refused then .error (.unknownOperator (g.operator id))
    else .ok ((rule (g.operator id) (g.parameters id)).make g id)

theorem decides_refusing (rule : Rewriting) (refused : NodeId) :
    (refusing rule refused).Decides rule := by
  intro g id made left
  change (if id = refused then _ else _) = _ at left
  split at left
  · cases left
  · cases left
    rfl

def logOfTerm : Query :=
  .node "combine" .empty
    [.node "log" .empty [.node "extents" (.single "term" (.string "a")) []],
      .node "prior" (.single "name" (.string "x")) []]

/-- If all nodes are left the term is wrapped and the prior replaced. If the logarithm is not, the
term is wrapped below it, and the walk does not come to the prior. -/
theorem folds_run_logOfTerm :
    (ofQuery logOfTerm).root < (ofQuery logOfTerm).size ∧
      (ofQuery logOfTerm).checkLinks = true ∧
      ((refusing alone 4).run (ofQuery logOfTerm)).graph.toQuery =
        .node "combine" .empty
          [.node "log" .empty
            [.node "syn" .empty [.node "extents" (.single "term" (.string "a")) []]],
            .node "lengths" (.single "name" (.string "x")) []] ∧
      ((refusing alone 1).run (ofQuery logOfTerm)).left = [2, 1] ∧
      ((refusing alone 1).run (ofQuery logOfTerm)).graph.checkLinks = true ∧
      ((refusing alone 1).run (ofQuery logOfTerm)).graph.toQuery =
        .node "combine" .empty
          [.node "log" .empty
            [.node "syn" .empty [.node "extents" (.single "term" (.string "a")) []]],
            .node "prior" (.single "name" (.string "x")) []] := by
  have inside : (ofQuery logOfTerm).root < (ofQuery logOfTerm).size := by decide +kernel
  have linked : (ofQuery logOfTerm).checkLinks = true := by decide +kernel
  have done : ((refusing alone 4).run (ofQuery logOfTerm)).failure.isNone = true := by
    decide +kernel
  have failed : ((refusing alone 1).run (ofQuery logOfTerm)).failure.isSome = true := by
    decide +kernel
  have left : ((refusing alone 1).run (ofQuery logOfTerm)).left = [2, 1] := by decide +kernel
  obtain ⟨_, _, _, _, _, completed⟩ :=
    folds_run (refusing alone 4) alone (decides_refusing alone 4) (ofQuery logOfTerm) inside linked
  obtain ⟨_, _, _, linked', _, stopped⟩ :=
    folds_run (refusing alone 1) alone (decides_refusing alone 1) (ofQuery logOfTerm) inside linked
  obtain ⟨e, is⟩ := Option.isSome_iff_exists.1 failed
  rw [Option.isNone_iff_eq_none.1 done] at completed
  rw [is] at stopped
  obtain ⟨before, call, after, _, stop⟩ := stopped
  have decided : Call.leaves before = [2] := by
    cases call with
    | enter id => nomatch stop.fails
    | leave id =>
      have leaves := stop.left
      rw [left, Call.leaves_append] at leaves
      have leaves : [2] ++ [1] = Call.leaves before ++ [id] := leaves
      exact (List.append_inj' leaves rfl).1.symm
  refine ⟨inside, linked, ?_, left, linked', ?_⟩
  · rw [completed.query, (holds_ofQuery logOfTerm).toQuery_eq]
    rfl
  · rw [stop.query, decided]
    rfl

end Example

end Runs

end Pass

end RankedRetrieval
