import RankedRetrieval.Preparation.Pass
import RankedRetrieval.Proofs.Graph.Rebuilt

set_option autoImplicit false

namespace RankedRetrieval

open QueryGraph

abbrev Leaving := Option Query → Query → Except QueryError Query

namespace Query

mutual

/-- The query with the nodes remade from the leaves up. `above` is the parent around it. -/
def remade (leave : Leaving) (above : Option (Query → Query)) : Query → Except QueryError Query
  | .node operator parameters children => do
    let q := Query.node operator parameters
      (← remadeFrom leave (.node operator parameters) [] children)
    leave (above.map fun parent => parent q) q

def remadeFrom (leave : Leaving) (parent : List Query → Query) (done : List Query) :
    List Query → Except QueryError (List Query)
  | [] => .ok done
  | q :: rest => do
    let q ← q.remade leave (some fun q => parent (done ++ q :: rest))
    remadeFrom leave parent (done ++ [q]) rest

end

def remadeBy : List Leaving → Query → Except QueryError Query
  | [], q => .ok q
  | leave :: rest, q => do remadeBy rest (← q.remade leave none)

end Query

namespace Pass

/-- Whether leaving a node ends as it should: with a tree of the expected query and all else as it
was, or with the expected failure. -/
def Leaves (g : QueryGraph) (id : NodeId) (ids : List NodeId) :
    Except QueryError Query → Except QueryError (QueryGraph × NodeId) → Prop
  | .ok q, .ok (g', id') =>
    ∃ ids', Forest g' [id'] [q] ids' ∧ Rebuilt ids ids' g g' ∧
      (id' = id → g'.parent id = g.parent id)
  | .error e, .error e' => e' = e
  | _, _ => False

structure Follows (pass : Pass) (leave : Leaving) : Prop where
  enter : ∀ g id, pass.enter g id = .ok ()
  leave : ∀ {g : QueryGraph} {id : NodeId} {q : Query} {ids : List NodeId}, Forest g [id] [q] ids →
    Leaves g id ids (leave ((g.parent id).map g.queryAt) q) (pass.leave g id)

/-- Whether a visit to a node ends as it should. After a failure the node has a tree, too. -/
def Ends {β : Type} (place : β → NodeId) (g : QueryGraph) (id : NodeId) (ids : List NodeId) :
    Except QueryError Query → EStateM.Result QueryError Trail β → Prop
  | .ok q, .ok b t =>
    ∃ ids', Forest t.graph [place b] [q] ids' ∧ Rebuilt ids ids' g t.graph ∧
      (place b = id → t.graph.parent id = g.parent id)
  | .error e, .error e' t =>
    e' = e ∧ ∃ q ids', Forest t.graph [id] [q] ids' ∧ Rebuilt ids ids' g t.graph ∧
      t.graph.parent id = g.parent id
  | _, _ => False

theorem Ends.of_ok {β : Type} {place : β → NodeId} {g : QueryGraph} {id : NodeId}
    {ids : List NodeId} {q : Query} {r : EStateM.Result QueryError Trail β}
    (h : Ends place g id ids (.ok q) r) :
    ∃ b t ids', r = .ok b t ∧ Forest t.graph [place b] [q] ids' ∧ Rebuilt ids ids' g t.graph ∧
      (place b = id → t.graph.parent id = g.parent id) := by
  cases r with
  | ok b t =>
    obtain ⟨ids', tree, rebuilt, held⟩ := h
    exact ⟨b, t, ids', rfl, tree, rebuilt, held⟩
  | error e t => exact h.elim

theorem Ends.of_error {β : Type} {place : β → NodeId} {g : QueryGraph} {id : NodeId}
    {ids : List NodeId} {e : QueryError} {r : EStateM.Result QueryError Trail β}
    (h : Ends place g id ids (.error e) r) :
    ∃ t q ids', r = .error e t ∧ Forest t.graph [id] [q] ids' ∧ Rebuilt ids ids' g t.graph ∧
      t.graph.parent id = g.parent id := by
  cases r with
  | ok b t => exact h.elim
  | error e' t =>
    obtain ⟨rfl, q, ids', tree, rebuilt, top⟩ := h
    exact ⟨t, q, ids', rfl, tree, rebuilt, top⟩

section Steps

variable (visit : NodeId → Walk NodeId)

theorem visitEach_cons (parent child : NodeId) (rest : List NodeId) (position : Nat) (t : Trail) :
    visitEach visit parent (child :: rest) position t =
      match visit child t with
      | .ok id t' => visitEach visit parent rest (position + 1)
          { t' with graph := t'.graph.linkIn parent position child id }
      | .error e t' => .error e t' := by
  simp only [visitEach, bind, EStateM.bind]
  cases visit child t with
  | error e t' => rfl
  | ok id t' =>
    simp only [linkIn]
    split <;> rfl

theorem get_eq (t : Trail) : (get : Walk Trail) t = .ok t t := rfl

theorem modify_eq (change : Trail → Trail) (t : Trail) :
    (modify change : Walk Unit) t = .ok () (change t) :=
  rfl

theorem leaveNode_eq (pass : Pass) (id : NodeId) (t : Trail) :
    pass.leaveNode id t =
      match pass.leave t.graph id with
      | .ok (graph, id') => .ok id' { t with graph, left := id :: t.left }
      | .error e => .error e { t with left := id :: t.left } := by
  change (match pass.leave t.graph id with
    | .ok (graph, id') =>
      (modify fun t : Trail => { t with graph }) >>= fun _ => (pure id' : Walk NodeId)
    | .error e => throw e) { t with left := id :: t.left } = _
  cases pass.leave t.graph id with
  | error e => rfl
  | ok left => rfl

theorem visit_eq (pass : Pass) (depth : Nat) (id : NodeId) (t : Trail) :
    pass.visit (depth + 1) id t =
      match pass.enter t.graph id with
      | .error e => .error e { t with entered := id :: t.entered }
      | .ok () =>
        match visitEach (pass.visit depth) id (t.graph.children id) 0
            { t with entered := id :: t.entered } with
        | .ok _ t' => pass.leaveNode id t'
        | .error e t' => .error e t' := by
  simp only [visit, enterNode, bind, EStateM.bind, modify_eq, get_eq]
  cases pass.enter t.graph id with
  | error e => rfl
  | ok _ =>
    simp only [pure, EStateM.pure]
    cases visitEach (pass.visit depth) id (t.graph.children id) 0
      { t with entered := id :: t.entered } <;> rfl

theorem visit_succ {pass : Pass} (quiet : ∀ g id, pass.enter g id = .ok ()) (depth : Nat)
    (id : NodeId) (t : Trail) :
    pass.visit (depth + 1) id t =
      match visitEach (pass.visit depth) id (t.graph.children id) 0
          { t with entered := id :: t.entered } with
      | .ok _ t' => pass.leaveNode id t'
      | .error e t' => .error e t' := by
  rw [visit_eq, quiet]

end Steps

section Trees

variable {pass : Pass} {leave : Leaving}

def Visits (leave : Leaving) (depth : Nat) (visit : NodeId → Walk NodeId) : Prop :=
  ∀ {t : Trail} {id : NodeId} {q : Query} {ids : List NodeId} {above : Option (Query → Query)},
    Forest t.graph [id] [q] ids → q.size ≤ depth →
    (∀ g' q' ids', Forest g' [id] [q'] ids' → Rebuilt ids ids' t.graph g' →
      g'.parent id = t.graph.parent id →
      (g'.parent id).map g'.queryAt = above.map fun parent => parent q') →
    Ends (fun id => id) t.graph id ids (q.remade leave above) (visit id t)

theorem Ends.after {β : Type} {place : β → NodeId} {g g' : QueryGraph} {id : NodeId}
    {ids ids' : List NodeId} (rebuilt : Rebuilt ids ids' g g') (top : g'.parent id = g.parent id)
    {expected : Except QueryError Query} {r : EStateM.Result QueryError Trail β}
    (h : Ends place g' id ids' expected r) : Ends place g id ids expected r := by
  cases expected with
  | error e =>
    cases r with
    | ok b t => exact h
    | error e' t =>
      obtain ⟨same, q, ids'', tree, rebuilt', top'⟩ := h
      exact ⟨same, q, ids'', tree, rebuilt.trans rebuilt', top'.trans top⟩
  | ok q =>
    cases r with
    | error e t => exact h
    | ok b t =>
      obtain ⟨ids'', tree, rebuilt', held⟩ := h
      exact ⟨ids'', tree, rebuilt.trans rebuilt', fun same => (held same).trans top⟩

theorem ends_visitEach {depth : Nat} {visit : NodeId → Walk NodeId}
    (visits : Visits leave depth visit) {t : Trail} {parent : NodeId} {done rest : List NodeId}
    {qsDone qsRest : List Query} {below : List NodeId}
    (tree : Forest t.graph [parent]
      [.node (t.graph.operator parent) (t.graph.parameters parent) (qsDone ++ qsRest)]
      (parent :: below))
    (listed : t.graph.children parent = done ++ rest) (same : qsDone.length = done.length)
    (deep : Query.sizeAll qsRest ≤ depth) :
    Ends (fun () => parent) t.graph parent (parent :: below)
      ((Query.remadeFrom leave (.node (t.graph.operator parent) (t.graph.parameters parent)) qsDone
        qsRest).map (.node (t.graph.operator parent) (t.graph.parameters parent)))
      (visitEach visit parent rest done.length t) := by
  induction rest generalizing t done qsDone qsRest below with
  | nil =>
    obtain ⟨qs, below', is, there, inside, owns, children, fresh⟩ := tree.root_cases
    obtain ⟨_, _, rfl⟩ := Query.node.inj is
    have length := congrArg List.length children.map_queryAt_eq
    rw [listed, List.append_nil, List.length_map, List.length_append, same] at length
    obtain rfl : qsRest = [] := List.length_eq_zero_iff.1 (by omega)
    rw [List.append_nil] at tree
    exact ⟨_, tree, .refl _ _, fun _ => rfl⟩
  | cons child rest ih =>
    -- whatever tree comes to stand in the child's place, the parent has a tree around it
    obtain ⟨q, qsDone', qsRest, within, is, length, middle, _, regrown⟩ := tree.around listed
    obtain ⟨_, _, both⟩ := Query.node.inj is
    obtain ⟨rfl, rfl⟩ := List.append_inj both (same.trans length.symm)
    rw [Query.sizeAll] at deep
    let around : Option (Query → Query) := some fun q =>
      .node (t.graph.operator parent) (t.graph.parameters parent) (qsDone ++ q :: qsRest)
    have visited : Ends (fun id => id) t.graph child within (q.remade leave around)
        (visit child t) := visits middle (by omega) ?_
    · rw [visitEach_cons, Query.remadeFrom]
      cases remade : q.remade leave (some fun q =>
          .node (t.graph.operator parent) (t.graph.parameters parent) (qsDone ++ q :: qsRest)) with
      | error e =>
        rw [remade] at visited
        obtain ⟨t', q', within', result, tree', rebuilt, top⟩ := visited.of_error
        obtain ⟨_, whole, changed, top', _⟩ := regrown tree' rebuilt fun _ => top
        rw [linkIn_self] at whole changed top'
        rw [result]
        exact ⟨rfl, _, _, whole, changed, top'⟩
      | ok q' =>
        rw [remade] at visited
        obtain ⟨id, t', within', result, tree', rebuilt, held⟩ := visited.of_ok
        obtain ⟨_, whole, changed, top, list⟩ := regrown tree' rebuilt held
        obtain ⟨_, _, is, _⟩ := whole.root_cases
        obtain ⟨operator, parameters, _⟩ := Query.node.inj is
        rw [operator, parameters, List.append_cons] at whole
        rw [List.append_cons] at list
        have next := ih (t := { t' with graph := t'.graph.linkIn parent done.length child id })
          whole list (by rw [List.length_append, List.length_append, same]; rfl) (by omega)
        rw [← operator, ← parameters, List.length_append] at next
        rw [result]
        exact next.after changed top
    · intro g' q' within' tree' rebuilt top
      obtain ⟨_, whole, _, _, _⟩ := regrown tree' rebuilt fun _ => top
      rw [linkIn_self] at whole
      have member : child ∈ t.graph.children parent := listed ▸ by simp
      rw [top, (tree.child_mem List.mem_cons_self member).2, Option.map_some, whole.queryAt_eq]
      rfl

theorem Leaves.ends {g : QueryGraph} {id : NodeId} {ids : List NodeId}
    (tree : ∃ q, Forest g [id] [q] ids) {expected : Except QueryError Query} {t : Trail}
    (same : t.graph = g) (h : Leaves g id ids expected (pass.leave t.graph id)) :
    Ends (fun id => id) g id ids expected (pass.leaveNode id t) := by
  rw [leaveNode_eq]
  subst same
  cases expected with
  | error e =>
    cases left : pass.leave t.graph id with
    | ok made =>
      rw [left] at h
      exact h.elim
    | error e' =>
      rw [left] at h
      obtain ⟨q, there⟩ := tree
      exact ⟨h, q, ids, there, .refl _ _, rfl⟩
  | ok q =>
    cases left : pass.leave t.graph id with
    | error e =>
      rw [left] at h
      exact h.elim
    | ok made =>
      rw [left] at h
      exact h

/-- A visit does to the tree of a node what the recursion does to its query. -/
theorem visits (follows : pass.Follows leave) (depth : Nat) :
    Visits leave depth (pass.visit depth) := by
  induction depth with
  | zero =>
    intro t id q ids above tree deep _
    cases q with
    | node operator parameters children =>
      rw [Query.size] at deep
      omega
  | succ depth ih =>
    intro t id q ids above tree deep sees
    obtain ⟨children, below, rfl, rfl, _⟩ := tree.root_cases
    rw [Query.size] at deep
    have each : Ends (fun _ => id) t.graph id (id :: below) _
        (visitEach (pass.visit depth) id (t.graph.children id) 0
          { t with entered := id :: t.entered }) :=
      ends_visitEach (t := { t with entered := id :: t.entered }) ih tree (List.nil_append _).symm
        List.length_nil (by omega)
    rw [visit_succ follows.enter, Query.remade]
    cases remade : Query.remadeFrom leave (.node (t.graph.operator id) (t.graph.parameters id)) []
        children with
    | error e =>
      rw [remade] at each
      obtain ⟨t', q, ids', result, tree', rebuilt, top⟩ := each.of_error
      rw [result]
      exact ⟨rfl, q, ids', tree', rebuilt, top⟩
    | ok qs =>
      rw [remade] at each
      obtain ⟨_, t', ids', result, tree', rebuilt, top⟩ := each.of_ok
      have left := follows.leave tree'
      rw [sees _ _ _ tree' rebuilt (top rfl)] at left
      rw [result]
      exact (left.ends ⟨_, tree'⟩ rfl).after rebuilt (top rfl)

end Trees

section Runs

variable {pass : Pass} {leave : Leaving} {passes : List Pass} {leaves : List Leaving}

def Finishes (expected : Except QueryError Query) (g : QueryGraph) (failure : Option QueryError) :
    Prop :=
  match expected with
  | .ok q => g.Holds q ∧ failure = none
  | .error e => (∃ q, g.Holds q) ∧ failure = some e

def Trail.begin (g : QueryGraph) : Trail := { graph := g, entered := [], left := [] }

theorem run_eq_outcome (pass : Pass) (g : QueryGraph) :
    pass.run g =
      match pass.visit g.size g.root (.begin g) with
      | .ok id t =>
        { graph := if id ≠ g.root then t.graph.setRoot id else t.graph
          entered := t.entered.reverse
          left := t.left.reverse
          failure := none }
      | .error e t =>
        { graph := t.graph
          entered := t.entered.reverse
          left := t.left.reverse
          failure := some e } := by
  simp only [run, walk, EStateM.run, bind, EStateM.bind, get_eq, Trail.begin]
  cases pass.visit g.size g.root { graph := g, entered := [], left := [] } with
  | error e t => rfl
  | ok id t =>
    by_cases same : id = g.root
    · simp only [same, ne_eq, not_true_eq_false, if_false]
      rfl
    · simp only [ne_eq, same, not_false_eq_true, if_true]
      rfl

theorem run_eq (pass : Pass) (g : QueryGraph) :
    ((pass.run g).graph, (pass.run g).failure) =
      match pass.visit g.size g.root (.begin g) with
      | .ok id t => (if id ≠ g.root then t.graph.setRoot id else t.graph, none)
      | .error e t => (t.graph, some e) := by
  rw [run_eq_outcome]
  cases pass.visit g.size g.root (.begin g) <;> rfl

theorem finishes_run (follows : pass.Follows leave) {g : QueryGraph} {q : Query}
    (holds : g.Holds q) :
    Finishes (q.remade leave none) (pass.run g).graph (pass.run g).failure := by
  obtain ⟨ids, tree⟩ := holds.tree
  have deep := tree.sizeAll_le
  rw [Query.sizeAll, Query.sizeAll, Nat.add_zero] at deep
  have visited : Ends (fun id => id) g g.root ids (q.remade leave none)
      (pass.visit g.size g.root (.begin g)) := by
    refine visits follows g.size tree deep fun g' q' ids' _ _ same => ?_
    rw [same]
    exact congrArg _ holds.top
  have ran := run_eq pass g
  cases remade : q.remade leave none with
  | error e =>
    rw [remade] at visited
    obtain ⟨t, q', ids', result, tree', rebuilt, same⟩ := visited.of_error
    rw [result] at ran
    obtain ⟨graph, failure⟩ := Prod.mk.inj ran
    rw [graph, failure]
    exact ⟨⟨q', rebuilt.root ▸ same.trans holds.top, ids', rebuilt.root ▸ tree'⟩, rfl⟩
  | ok q' =>
    rw [remade] at visited
    obtain ⟨id, t, ids', result, tree', rebuilt, held⟩ := visited.of_ok
    rw [result] at ran
    obtain ⟨graph, failure⟩ := Prod.mk.inj ran
    rw [graph, failure]
    by_cases same : id = g.root
    · subst same
      rw [if_neg (not_not.2 rfl)]
      exact ⟨⟨rebuilt.root ▸ (held rfl).trans holds.top, ids', rebuilt.root ▸ tree'⟩, rfl⟩
    · rw [if_pos same]
      obtain ⟨tree'', top⟩ := tree'.setRoot
      exact ⟨⟨top, ids', tree''⟩, rfl⟩

/-- Passes one after the other do to a graph what their recursions do to the query it holds, one
after the other. -/
theorem finishes_runAll (follow : List.Forall₂ Pass.Follows passes leaves) {g : QueryGraph}
    {q : Query} (holds : g.Holds q) :
    Finishes (q.remadeBy leaves) (runAll passes g).1 (runAll passes g).2 := by
  induction follow generalizing g q with
  | nil => exact ⟨holds, rfl⟩
  | @cons pass leave passes leaves follows _ ih =>
    have first := finishes_run follows holds
    rw [runAll, Query.remadeBy]
    cases remade : q.remade leave none with
    | error e =>
      rw [remade] at first
      obtain ⟨there, failure⟩ := first
      simp only [failure]
      exact ⟨there, rfl⟩
    | ok q' =>
      rw [remade] at first
      obtain ⟨there, failure⟩ := first
      simp only [failure]
      exact ih there

/-- The links agree after the passes, also after a failure. -/
theorem exists_holds_runAll (follow : List.Forall₂ Pass.Follows passes leaves) {g : QueryGraph}
    {q : Query} (holds : g.Holds q) : ∃ q', (runAll passes g).1.Holds q' := by
  have finished := finishes_runAll follow holds
  unfold Finishes at finished
  split at finished
  · exact ⟨_, finished.1⟩
  · exact finished.1

end Runs

end Pass

end RankedRetrieval
