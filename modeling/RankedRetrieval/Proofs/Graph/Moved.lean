import RankedRetrieval.Proofs.Graph.Reached

set_option autoImplicit false

/-!
# Moving a subtree

A node that is appended to a parent leaves the list of the parent that it had. Where the links agree
and the new parent is not below the node, they agree afterwards, and the node has come to its new
place with all that is below it (`appendChild_moves`).
-/

namespace RankedRetrieval.QueryGraph

variable {g g' : QueryGraph} {old parent id i j child : NodeId}

/-- A node has gone from the list of one parent to the end of the list of another one. -/
structure Moved (g g' : QueryGraph) (old parent id : NodeId) : Prop where
  root : g'.root = g.root
  size : g'.size = g.size
  operator : ∀ i, g'.operator i = g.operator i
  parameters : ∀ i, g'.parameters i = g.parameters i
  children : ∀ i, g'.children i =
    (if i = old then (g.children i).filter (· ≠ id) else g.children i) ++
      if i = parent then [id] else []
  parent : ∀ i, g'.parent i = if i = id then some parent else g.parent i

theorem node_relist (f : List NodeId → List NodeId) (inside : id < g.size) (i : NodeId) :
    (g.modify id fun n => { n with children := f n.children }).node i =
      { g.node i with children := if i = id then f (g.children i) else g.children i } := by
  rw [node_modify _ _ _ _ inside]
  split
  · subst i
    rfl
  · rfl

theorem node_reparent (inside : id < g.size) (parent : Option NodeId) (i : NodeId) :
    (g.setParent id parent).node i =
      { g.node i with parent := if i = id then parent else g.parent i } := by
  rw [node_setParent inside]
  split
  · subst i
    rfl
  · rfl

theorem size_detach (g : QueryGraph) (id : NodeId) : (g.detach id).size = g.size := by
  unfold detach setParent
  split
  · rfl
  · rw [size_modify, size_modify]

theorem node_detach (here : id < g.size) (inside : old < g.size) (held : g.parent id = some old)
    (i : NodeId) :
    (g.detach id).node i =
      { g.node i with
        children := if i = old then (g.children i).filter (· ≠ id) else g.children i
        parent := if i = id then none else g.parent i } := by
  have size : (g.setParent id none).size = g.size := size_modify g id _
  unfold detach
  rw [held]
  dsimp only
  rw [node_relist (·.filter (· ≠ id)) (size ▸ inside), QueryGraph.children, node_reparent here]
  rfl

theorem moved_appendChild (here : id < g.size) (inside : old < g.size) (room : parent < g.size)
    (held : g.parent id = some old) : Moved g (g.appendChild parent id) old parent id := by
  have size := size_detach g id
  have listed := node_detach here inside held
  have each (i : NodeId) : (g.appendChild parent id).node i =
      { g.node i with
        children :=
          if i = parent then (g.detach id).children i ++ [id] else (g.detach id).children i
        parent := if i = id then some parent else (g.detach id).parent i } := by
    rw [appendChild, node_reparent (by rw [size_modify, size]; exact here), QueryGraph.parent,
      node_relist (· ++ [id]) (size ▸ room)]
    simp only [QueryGraph.parent, QueryGraph.children, listed]
  refine ⟨?_, ?_, fun i => ?_, fun i => ?_, fun i => ?_, fun i => ?_⟩
  · rw [appendChild, detach, held]
    rfl
  · rw [appendChild, setParent, size_modify, size_modify, size]
  · rw [QueryGraph.operator, each]
    rfl
  · rw [QueryGraph.parameters, each]
    rfl
  · rw [QueryGraph.children, each, QueryGraph.children, listed]
    by_cases last : i = parent
    · simp only [if_pos last]
    · simp only [if_neg last, List.append_nil]
  · rw [QueryGraph.parent, each, QueryGraph.parent, listed]
    by_cases same : i = id
    · simp only [if_pos same]
    · simp only [if_neg same]

/-- A node that is reached below a parent, and another parent for it that is not below it. -/
structure Movable (g : QueryGraph) (old parent id : NodeId) : Prop where
  rooted : g.Rooted g.root
  toOld : g.Reaches g.root old
  listed : id ∈ g.children old
  toParent : g.Reaches g.root parent
  apart : ¬ g.Reaches id parent

namespace Movable

variable (movable : Movable g old parent id)

include movable

theorem reached : g.Reaches g.root id := movable.toOld.tail movable.listed

theorem held : g.parent id = some old :=
  movable.rooted.owns old movable.toOld id movable.listed

theorem ne_root : id ≠ g.root := fun same =>
  movable.rooted.top old movable.toOld (same ▸ movable.listed)

theorem eq_old (reached : g.Reaches g.root i) (listed : id ∈ g.children i) : i = old :=
  movable.rooted.eq_of_listed reached movable.toOld listed movable.listed

theorem moved : Moved g (g.appendChild parent id) old parent id :=
  moved_appendChild (movable.rooted.reached movable.reached).inside
    (movable.rooted.reached movable.toOld).inside (movable.rooted.reached movable.toParent).inside
    movable.held

end Movable

namespace Moved

variable (moved : Moved g g' old parent id) (movable : Movable g old parent id)

include moved movable

theorem mem_children_iff (reached : g.Reaches g.root i) :
    child ∈ g'.children i ↔ if child = id then i = parent else child ∈ g.children i := by
  rw [moved.children, List.mem_append]
  by_cases same : child = id
  · subst same
    have listed := movable.eq_old reached
    by_cases first : i = old <;> by_cases second : i = parent <;> simp_all
  · by_cases first : i = old <;> by_cases second : i = parent <;> simp_all

theorem nodup_children (reached : g.Reaches g.root i) : (g'.children i).Nodup := by
  have once := movable.rooted.once i reached
  rw [moved.children]
  refine List.nodup_append'.2 ⟨?_, ?_, fun c before last => ?_⟩
  · split
    · exact once.filter _
    · exact once
  · split
    · exact List.nodup_singleton id
    · exact List.nodup_nil
  · split at last
    · obtain rfl := List.mem_singleton.1 last
      split at before
      · exact absurd rfl (of_decide_eq_true (List.mem_filter.1 before).2)
      · rename_i other
        exact other (movable.eq_old reached before)
    · exact List.not_mem_nil last

theorem reaches_or (reached : g.Reaches g.root i) (reaches : g.Reaches i j) :
    g'.Reaches i j ∨ g.Reaches id j := by
  induction reaches with
  | refl => exact .inl .refl
  | @tail k child toK listed ih =>
    rcases ih with without | through
    · by_cases same : child = id
      · exact .inr (same ▸ .refl)
      · refine .inl (without.tail ((moved.mem_children_iff movable (reached.trans toK)).2 ?_))
        rw [if_neg same]
        exact listed
    · exact .inr (through.tail listed)

theorem children_eq (below : g.Reaches id i) : g'.children i = g.children i := by
  have fresh : id ∉ g.children i := (movable.rooted.reached movable.reached).top i below
  have notParent : i ≠ parent := fun same => movable.apart (same ▸ below)
  have all : (g.children i).filter (· ≠ id) = g.children i := by
    refine List.filter_eq_self.2 fun child listed => decide_eq_true ?_
    exact fun same => fresh (same ▸ listed)
  rw [moved.children, all, ite_self, if_neg notParent, List.append_nil]

theorem reaches_below_iff : g'.Reaches id i ↔ g.Reaches id i := by
  constructor
  · intro reaches
    induction reaches with
    | refl => exact .refl
    | tail _ listed ih =>
      rw [moved.children_eq movable ih] at listed
      exact ih.tail listed
  · intro reaches
    induction reaches with
    | refl => exact .refl
    | tail below listed ih =>
      rw [← moved.children_eq movable below] at listed
      exact ih.tail listed

theorem reaches_root_iff : g'.Reaches g.root i ↔ g.Reaches g.root i := by
  constructor
  · intro reaches
    induction reaches with
    | refl => exact .refl
    | @tail k child _ listed ih =>
      have before := (moved.mem_children_iff movable ih).1 listed
      by_cases same : child = id
      · exact same ▸ movable.reached
      · rw [if_neg same] at before
        exact ih.tail before
  · intro reaches
    -- the way to the new parent does not lead through the node, so the node is still reached
    rcases moved.reaches_or movable .refl reaches with without | through
    · exact without
    · have toParent := (moved.reaches_or movable .refl movable.toParent).resolve_right movable.apart
      have last : id ∈ g'.children parent := by
        rw [moved.mem_children_iff movable movable.toParent, if_pos rfl]
      exact (toParent.tail last).trans ((moved.reaches_below_iff movable).2 through)

theorem rooted : g'.Rooted g.root where
  inside := moved.size ▸ movable.rooted.inside
  once i reaches := moved.nodup_children movable ((moved.reaches_root_iff movable).1 reaches)
  owns i reaches child listed := by
    have before := (moved.reaches_root_iff movable).1 reaches
    have kept := (moved.mem_children_iff movable before).1 listed
    rw [moved.parent]
    by_cases same : child = id
    · rw [if_pos same] at kept ⊢
      rw [kept]
    · rw [if_neg same] at kept ⊢
      exact movable.rooted.owns i before child kept
  top i reaches listed := by
    have before := (moved.reaches_root_iff movable).1 reaches
    have kept := (moved.mem_children_iff movable before).1 listed
    rw [if_neg movable.ne_root.symm] at kept
    exact movable.rooted.top i before kept

theorem queryAt_eq : g'.queryAt id = g.queryAt id := by
  obtain ⟨q, ids, tree⟩ := (movable.rooted.reached movable.reached).exists_forest
  have stays : Forest g' [id] [q] ids := by
    refine tree.congr (Nat.le_of_eq moved.size.symm) (fun i member => ?_) fun i _ below => ?_
    · exact ⟨moved.operator i, moved.parameters i,
        moved.children_eq movable (tree.mem_iff_reaches.1 member)⟩
    · rw [moved.parent, if_neg fun same => below (List.mem_singleton.2 same)]
  rw [stays.queryAt_eq, tree.queryAt_eq]

end Moved

/-- Appending a node to a parent that is not below it moves its subtree: the links agree afterwards,
the same nodes are reached, the node is the last child of the parent, with the subtree that it had,
and its old parent's list has lost it. No other list changes. -/
theorem appendChild_moves (inside : g.root < g.size) (agree : g.checkLinks = true)
    (toParent : g.Reaches g.root parent) (reached : g.Reaches g.root id) (other : id ≠ g.root)
    (apart : ¬ g.Reaches id parent) :
    (g.appendChild parent id).checkLinks = true ∧
      (∀ i, (g.appendChild parent id).Reaches (g.appendChild parent id).root i ↔
        g.Reaches g.root i) ∧
      (∃ before, (g.appendChild parent id).children parent = before ++ [id] ∧ id ∉ before) ∧
      (g.appendChild parent id).queryAt id = g.queryAt id ∧
      (∀ i, (g.appendChild parent id).Reaches id i ↔ g.Reaches id i) ∧
      (∀ i, g.Reaches id i → (g.appendChild parent id).children i = g.children i) ∧
      ∃ old, g.parent id = some old ∧ id ∈ g.children old ∧
        Moved g (g.appendChild parent id) old parent id := by
  obtain ⟨top, rooted⟩ := (checkLinks_iff_rooted inside).1 agree
  obtain ⟨old, toOld, listed⟩ := reached.cases_tail.resolve_left other
  have movable : Movable g old parent id := ⟨rooted, toOld, listed, toParent, apart⟩
  have moved := movable.moved
  have rooted' := moved.rooted movable
  refine ⟨?_, ?_, ?_, moved.queryAt_eq movable, fun i => moved.reaches_below_iff movable,
    fun i => moved.children_eq movable, old, movable.held, listed, moved⟩
  · rw [checkLinks_iff_rooted (moved.root ▸ rooted'.inside), moved.root, moved.parent,
      if_neg other.symm]
    exact ⟨top, rooted'⟩
  · rw [moved.root]
    exact fun i => moved.reaches_root_iff movable
  · have once := moved.nodup_children movable toParent
    rw [moved.children, if_pos rfl] at once ⊢
    exact ⟨_, rfl, fun before =>
      (List.nodup_append'.1 once).2.2 before (List.mem_singleton_self id)⟩

def termAndWindow : Query :=
  let text (term : String) : Query := .node "text" (.single "term" (.string term)) []
  .node "combine" .empty
    [text "a", .node "log" .empty [.node "od" .empty [text "b", text "c"]]]

/-- The window is moved from the logarithm to the sum, and then the term, which was first there, to
the end. -/
theorem appendChild_moves_window :
    (ofQuery termAndWindow).checkLinks = true ∧
      (ofQuery termAndWindow).Reaches 0 0 ∧ (ofQuery termAndWindow).Reaches 0 3 ∧
      ¬ (ofQuery termAndWindow).Reaches 3 0 ∧
      ((ofQuery termAndWindow).appendChild 0 3).checkLinks = true ∧
      ((ofQuery termAndWindow).appendChild 0 3).children 0 = [1, 2, 3] ∧
      ((ofQuery termAndWindow).appendChild 0 3).children 2 = [] ∧
      (((ofQuery termAndWindow).appendChild 0 3).appendChild 0 1).checkLinks = true ∧
      (((ofQuery termAndWindow).appendChild 0 3).appendChild 0 1).children 0 = [2, 3, 1] := by
  have inside : (ofQuery termAndWindow).root < (ofQuery termAndWindow).size := by decide
  have agree : (ofQuery termAndWindow).checkLinks = true := by decide
  have rooted := ((checkLinks_iff_rooted inside).1 agree).2
  have reached : (ofQuery termAndWindow).Reaches 0 3 := (mem_orderTo_iff rooted).1 (by decide)
  have apart : ¬ (ofQuery termAndWindow).Reaches 3 0 := fun back =>
    absurd ((mem_orderTo_iff (rooted.reached reached)).2 back) (by decide)
  have once := (appendChild_moves inside agree .refl reached (by decide) apart).1
  have rooted' := ((checkLinks_iff_rooted (by decide)).1 once).2
  have reached' : ((ofQuery termAndWindow).appendChild 0 3).Reaches 0 1 :=
    (mem_orderTo_iff rooted').1 (by decide)
  have apart' : ¬ ((ofQuery termAndWindow).appendChild 0 3).Reaches 1 0 := fun back =>
    absurd ((mem_orderTo_iff (rooted'.reached reached')).2 back) (by decide)
  have twice := (appendChild_moves (by decide) once .refl reached' (by decide) apart').1
  exact ⟨agree, .refl, reached, apart, once, by decide, by decide, twice, by decide⟩

end RankedRetrieval.QueryGraph
