import RankedRetrieval.Proofs.Graph.Rebuilt

set_option autoImplicit false

namespace RankedRetrieval

inductive NumberedQuery where
  | node (id : NodeId) (operator : String) (parameters : Parameters)
      (children : List NumberedQuery)

inductive Call where
  | enter (id : NodeId)
  | leave (id : NodeId)

namespace Call

def enters (calls : List Call) : List NodeId :=
  calls.filterMap fun
    | enter id => some id
    | leave _ => none

def leaves (calls : List Call) : List NodeId :=
  calls.filterMap fun
    | enter _ => none
    | leave id => some id

variable (calls more : List Call) (id : NodeId)

@[simp] theorem enters_nil : enters [] = [] := rfl

@[simp] theorem leaves_nil : leaves [] = [] := rfl

@[simp] theorem enters_append : enters (calls ++ more) = enters calls ++ enters more :=
  List.filterMap_append

@[simp] theorem leaves_append : leaves (calls ++ more) = leaves calls ++ leaves more :=
  List.filterMap_append

@[simp] theorem enters_enter : enters (enter id :: calls) = id :: enters calls := rfl

@[simp] theorem enters_leave : enters (leave id :: calls) = enters calls := rfl

@[simp] theorem leaves_enter : leaves (enter id :: calls) = leaves calls := rfl

@[simp] theorem leaves_leave : leaves (leave id :: calls) = id :: leaves calls := rfl

variable {calls} in
theorem leaves_subset {before after : List Call} (split : calls = before ++ after) :
    leaves before ⊆ leaves calls := by
  rw [split, leaves_append]
  exact List.subset_append_left _ _

end Call

namespace NumberedQuery

section Fold

variable {β : Type} (f : NodeId → String → Parameters → List β → β)

mutual

def fold : NumberedQuery → β
  | node id operator parameters children => f id operator parameters (foldAll children)

def foldAll : List NumberedQuery → List β
  | [] => []
  | q :: rest => fold q :: foldAll rest

end

theorem fold_node (id : NodeId) (operator : String) (parameters : Parameters)
    (children : List NumberedQuery) :
    fold f (node id operator parameters children) =
      f id operator parameters (children.map (fold f)) := by
  have each (qs : List NumberedQuery) : foldAll f qs = qs.map (fold f) := by
    induction qs with
    | nil => rfl
    | cons q rest ih => rw [foldAll, ih, List.map_cons]
  rw [fold, each]

end Fold

def first : NumberedQuery → NodeId
  | node id _ _ _ => id

def query : NumberedQuery → Query := fold fun _ operator parameters below =>
  .node operator parameters below

def numbers : NumberedQuery → List NodeId := fold fun id _ _ below => id :: below.flatten

def postorder : NumberedQuery → List NodeId := fold fun id _ _ below => below.flatten ++ [id]

def calls : NumberedQuery → List Call :=
  fold fun id _ _ below => .enter id :: (below.flatten ++ [.leave id])

section Node

variable (id : NodeId) (operator : String) (parameters : Parameters)
  (children : List NumberedQuery)

@[simp] theorem query_node : (node id operator parameters children).query =
    .node operator parameters (children.map query) := fold_node _ _ _ _ _

@[simp] theorem numbers_node : (node id operator parameters children).numbers =
    id :: children.flatMap numbers := by
  rw [numbers, fold_node, List.flatMap_def]

@[simp] theorem postorder_node : (node id operator parameters children).postorder =
    children.flatMap postorder ++ [id] := by
  rw [postorder, fold_node, List.flatMap_def]

@[simp] theorem calls_node : (node id operator parameters children).calls =
    .enter id :: (children.flatMap calls ++ [.leave id]) := by
  rw [calls, fold_node, List.flatMap_def]

end Node

@[elab_as_elim, induction_eliminator]
theorem induct {motive : NumberedQuery → Prop}
    (node : ∀ id operator parameters children, (∀ child ∈ children, motive child) →
      motive (.node id operator parameters children)) : (q : NumberedQuery) → motive q
  | .node id operator parameters children =>
    node id operator parameters children fun child _ => induct node child

theorem enters_flatMap {qs : List NumberedQuery}
    (each : ∀ q ∈ qs, Call.enters q.calls = q.numbers) :
    Call.enters (qs.flatMap calls) = qs.flatMap numbers := by
  induction qs with
  | nil => rfl
  | cons q rest ih =>
    obtain ⟨here, others⟩ := List.forall_mem_cons.1 each
    rw [List.flatMap_cons, List.flatMap_cons, Call.enters_append, here, ih others]

theorem leaves_flatMap {qs : List NumberedQuery}
    (each : ∀ q ∈ qs, Call.leaves q.calls = q.postorder) :
    Call.leaves (qs.flatMap calls) = qs.flatMap postorder := by
  induction qs with
  | nil => rfl
  | cons q rest ih =>
    obtain ⟨here, others⟩ := List.forall_mem_cons.1 each
    rw [List.flatMap_cons, List.flatMap_cons, Call.leaves_append, here, ih others]

@[simp] theorem enters_calls (q : NumberedQuery) : Call.enters q.calls = q.numbers := by
  induction q with
  | node id operator parameters children ih => simp [enters_flatMap ih]

@[simp] theorem leaves_calls (q : NumberedQuery) : Call.leaves q.calls = q.postorder := by
  induction q with
  | node id operator parameters children ih => simp [leaves_flatMap ih]

/-- The nodes that are left are those that are entered. -/
theorem postorder_perm (q : NumberedQuery) : q.postorder.Perm q.numbers := by
  induction q with
  | node id operator parameters children ih =>
    have below : (children.flatMap postorder).Perm (children.flatMap numbers) :=
      List.Perm.flatMap_left children ih
    rw [postorder_node, numbers_node]
    exact (List.perm_append_singleton id _).trans (below.cons id)

theorem mem_postorder_iff {q : NumberedQuery} {i : NodeId} :
    i ∈ q.postorder ↔ i ∈ q.numbers := q.postorder_perm.mem_iff

theorem leaves_subset {q : NumberedQuery} {before after : List Call}
    (split : q.calls = before ++ after) : Call.leaves before ⊆ q.numbers := by
  intro i member
  have found := Call.leaves_subset split member
  rw [leaves_calls] at found
  exact mem_postorder_iff.1 found

theorem leaves_subset_flatMap {qs : List NumberedQuery} {before after : List Call}
    (split : qs.flatMap calls = before ++ after) : Call.leaves before ⊆ qs.flatMap numbers := by
  intro i member
  have found := Call.leaves_subset split member
  rw [leaves_flatMap fun q _ => q.leaves_calls] at found
  obtain ⟨q, listed, inside⟩ := List.mem_flatMap.1 found
  exact List.mem_flatMap.2 ⟨q, listed, mem_postorder_iff.1 inside⟩

theorem length_numbers (q : NumberedQuery) : q.numbers.length = q.query.size := by
  induction q with
  | node id operator parameters children ih =>
    have below : (children.flatMap numbers).length = Query.sizeAll (children.map query) := by
      induction children with
      | nil => rfl
      | cons q rest ih' =>
        obtain ⟨here, others⟩ := List.forall_mem_cons.1 ih
        rw [List.flatMap_cons, List.length_append, here, ih' others, List.map_cons,
          Query.sizeAll]
    rw [numbers_node, query_node, List.length_cons, below, Query.size]

theorem first_mem_numbers (q : NumberedQuery) : q.first ∈ q.numbers := by
  cases q with
  | node id operator parameters children =>
    rw [numbers_node]
    exact List.mem_cons_self

end NumberedQuery

namespace QueryGraph

variable {g : QueryGraph} {roots : List NodeId}

def numberedTo (g : QueryGraph) : Nat → NodeId → NumberedQuery
  | 0, id => .node id (g.operator id) (g.parameters id) []
  | depth + 1, id =>
    .node id (g.operator id) (g.parameters id) ((g.children id).map (g.numberedTo depth))

def numbered (g : QueryGraph) : NumberedQuery := g.numberedTo g.size g.root

theorem first_numbered (g : QueryGraph) : g.numbered.first = g.root := by
  unfold numbered
  cases g.size <;> rfl

theorem query_numbered (g : QueryGraph) : g.numbered.query = g.toQuery := by
  have read (depth : Nat) (id : NodeId) : (g.numberedTo depth id).query = g.queryTo depth id := by
    induction depth generalizing id with
    | zero => rfl
    | succ depth ih =>
      rw [numberedTo, NumberedQuery.query_node, List.map_map, queryTo]
      congr 1
      exact List.map_congr_left fun child _ => ih child
  exact read g.size g.root

theorem numbers_numbered (g : QueryGraph) : g.numbered.numbers = g.preorder := by
  have read (depth : Nat) (id : NodeId) :
      (g.numberedTo depth id).numbers = g.orderTo depth id := by
    induction depth generalizing id with
    | zero => rfl
    | succ depth ih =>
      rw [numberedTo, NumberedQuery.numbers_node, List.flatMap_map, orderTo]
      congr 1
      exact List.flatMap_congr fun child _ => ih child
  exact read g.size g.root

/-- A graph has the nodes of its query in their order. -/
theorem Holds.forest_numbered {q : Query} (h : g.Holds q) :
    Forest g [g.numbered.first] [g.numbered.query] g.numbered.numbers := by
  rw [first_numbered, query_numbered, numbers_numbered, h.toQuery_eq]
  exact h.forest

namespace Forest

theorem parts {first : List NodeId} {qs qs' : List Query} {ids ids' : List NodeId}
    (h : Forest g (first ++ roots) (qs ++ qs') (ids ++ ids')) (same : qs.length = first.length)
    (length : ids.length = Query.sizeAll qs) : Forest g first qs ids ∧ Forest g roots qs' ids' := by
  obtain ⟨qs₁, qs₂, ids₁, ids₂, both, all, same', left, right, _⟩ := h.split
  obtain ⟨here, there⟩ := List.append_inj both (same.trans same'.symm)
  subst here there
  obtain ⟨before, after⟩ := List.append_inj all (length.trans left.length_eq.symm)
  subst before after
  exact ⟨left, right⟩

theorem roots_eq {qs : List NumberedQuery}
    (h : Forest g roots (qs.map NumberedQuery.query)
      (qs.flatMap NumberedQuery.numbers)) : roots = qs.map NumberedQuery.first := by
  induction qs generalizing roots with
  | nil =>
    cases roots with
    | nil => rfl
    | cons => nomatch h
  | cons q rest ih =>
    cases roots with
    | nil => nomatch h
    | cons first roots =>
      have split : Forest g ([first] ++ roots) ([q.query] ++ rest.map NumberedQuery.query)
          (q.numbers ++ rest.flatMap NumberedQuery.numbers) := h
      obtain ⟨one, others⟩ := split.parts rfl
        (by rw [NumberedQuery.length_numbers, Query.sizeAll, Query.sizeAll, Nat.add_zero])
      obtain ⟨_, below, _, there, _⟩ := one.root_cases
      cases q with
      | node id operator parameters children =>
        rw [NumberedQuery.numbers_node, List.cons.injEq] at there
        rw [ih others, List.map_cons, ← there.1]
        rfl

theorem numbered_cases {id : NodeId} {operator : String} {parameters : Parameters}
    {children : List NumberedQuery}
    (h : Forest g [id] [(NumberedQuery.node id operator parameters children).query]
      (NumberedQuery.node id operator parameters children).numbers) :
    g.operator id = operator ∧ g.parameters id = parameters ∧
      g.children id = children.map NumberedQuery.first ∧
      Forest g (g.children id) (children.map NumberedQuery.query)
        (children.flatMap NumberedQuery.numbers) ∧
      id ∉ children.flatMap NumberedQuery.numbers := by
  rw [NumberedQuery.query_node, NumberedQuery.numbers_node] at h
  obtain ⟨qs, below, same, ids, _, _, tree, fresh⟩ := h.root_cases
  rw [List.cons.injEq] at ids
  rw [Query.node.injEq] at same
  rw [← ids.2, ← same.2.2] at tree
  rw [← ids.2] at fresh
  exact ⟨same.1.symm, same.2.1.symm, tree.roots_eq, tree, fresh⟩

section Around

variable {parent : NodeId} {operator : String} {parameters : Parameters}
  {placed ids : List NodeId} {qs : List Query} {q : NumberedQuery} {rest : List NumberedQuery}

/-- The tree of a child with the numbered ones after it, and what becomes of the parent's tree if
another tree takes the child's place. -/
theorem numbered_around
    (tree : Forest g [parent]
      [.node operator parameters (qs ++ (q :: rest).map NumberedQuery.query)]
      (parent :: (ids ++ (q :: rest).flatMap NumberedQuery.numbers)))
    (listed : g.children parent = placed ++ (q :: rest).map NumberedQuery.first)
    (same : qs.length = placed.length) (length : ids.length = Query.sizeAll qs) :
    Forest g [q.first] [q.query] q.numbers ∧
      q.numbers.Disjoint (rest.flatMap NumberedQuery.numbers) ∧
      ∀ {g' : QueryGraph} {id : NodeId} {q' : Query} {within : List NodeId},
        Forest g' [id] [q'] within → Rebuilt q.numbers within g g' →
        (id = q.first → g'.parent q.first = g.parent q.first) →
        Forest (g'.linkIn parent placed.length q.first id) [parent]
            [.node operator parameters (qs ++ q' :: rest.map NumberedQuery.query)]
            (parent :: (ids ++ (within ++ rest.flatMap NumberedQuery.numbers))) ∧
          Rebuilt (parent :: (ids ++ (q :: rest).flatMap NumberedQuery.numbers))
            (parent :: (ids ++ (within ++ rest.flatMap NumberedQuery.numbers))) g
            (g'.linkIn parent placed.length q.first id) ∧
          (g'.linkIn parent placed.length q.first id).parent parent = g.parent parent ∧
          (g'.linkIn parent placed.length q.first id).children parent =
            placed ++ id :: rest.map NumberedQuery.first := by
  obtain ⟨all, below, is, numbers, inside, owns, forest, _⟩ := tree.root_cases
  rw [Query.node.injEq] at is
  rw [List.cons.injEq] at numbers
  rw [← is.2.2, ← numbers.2, listed] at forest
  obtain ⟨before, others⟩ := forest.parts same length
  have others : Forest g ([q.first] ++ rest.map NumberedQuery.first)
      ([q.query] ++ rest.map NumberedQuery.query)
      (q.numbers ++ rest.flatMap NumberedQuery.numbers) := others
  obtain ⟨middle, after⟩ := others.parts rfl
    (by rw [NumberedQuery.length_numbers, Query.sizeAll, Query.sizeAll, Nat.add_zero])
  have distinct : (parent :: (ids ++ (q.numbers ++
      rest.flatMap NumberedQuery.numbers))).Nodup := tree.nodup
  have apart := (List.nodup_append'.1 (List.nodup_append'.1 (List.nodup_cons.1 distinct).2).2.1).2.2
  refine ⟨middle, apart, fun tree' rebuilt held => ?_⟩
  rw [is.1, is.2.1]
  exact regrow inside listed owns before q.first_mem_numbers after distinct tree' rebuilt held

end Around

end Forest

end QueryGraph

end RankedRetrieval
