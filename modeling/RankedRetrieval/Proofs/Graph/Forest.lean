import Mathlib.Data.List.Nodup
import Mathlib.Data.List.Perm.Subperm
import RankedRetrieval.Graph.Links

set_option autoImplicit false

namespace RankedRetrieval.QueryGraph

/-- The queries below some nodes, and the nodes met there, those of a root before those of the
next. Every node is a child of its parent; of the parents of the roots nothing is said. -/
inductive Forest (g : QueryGraph) : List NodeId → List Query → List NodeId → Prop
  | nil : Forest g [] [] []
  | cons {id : NodeId} {roots below beside : List NodeId} {children others : List Query}
      (inside : id < g.size) (owns : ∀ child ∈ g.children id, g.parent child = some id)
      (tree : Forest g (g.children id) children below) (fresh : id ∉ below)
      (rest : Forest g roots others beside) (apart : (id :: below).Disjoint beside) :
      Forest g (id :: roots) (.node (g.operator id) (g.parameters id) children :: others)
        (id :: below ++ beside)

variable {g g' : QueryGraph} {roots roots' ids ids' : List NodeId} {qs qs' : List Query}

namespace Forest

theorem subset (h : Forest g roots qs ids) : roots ⊆ ids := by
  induction h with
  | nil => exact List.Subset.refl []
  | cons _ _ _ _ _ _ _ ih =>
    refine List.cons_subset.2 ⟨List.mem_cons_self, fun i member => ?_⟩
    exact List.mem_append_right _ (ih member)

theorem lt_size (h : Forest g roots qs ids) : ∀ i ∈ ids, i < g.size := by
  induction h with
  | nil => exact List.forall_mem_nil _
  | cons inside _ _ _ _ _ ih ih' =>
    exact List.forall_mem_append.2 ⟨List.forall_mem_cons.2 ⟨inside, ih⟩, ih'⟩

theorem root_lt (h : Forest g roots qs ids) : ∀ i ∈ roots, i < g.size := fun i member =>
  h.lt_size i (h.subset member)

theorem disjoint_size (h : Forest g roots qs ids) : ids.Disjoint [g.size] := by
  intro i old new
  rw [List.mem_singleton.1 new] at old
  exact Nat.lt_irrefl _ (h.lt_size _ old)

theorem nodup (h : Forest g roots qs ids) : ids.Nodup := by
  induction h with
  | nil => exact List.nodup_nil
  | cons _ _ _ fresh _ apart ih ih' =>
    exact List.nodup_append'.2 ⟨List.nodup_cons.2 ⟨fresh, ih⟩, ih', apart⟩

theorem length_eq (h : Forest g roots qs ids) : ids.length = Query.sizeAll qs := by
  induction h with
  | nil => rfl
  | cons _ _ _ _ _ _ ih ih' =>
    rw [List.length_append, List.length_cons, ih, ih', Query.sizeAll, Query.size]

theorem sizeAll_le (h : Forest g roots qs ids) : Query.sizeAll qs ≤ g.size := by
  have within : ids ⊆ List.range g.size := fun i member => List.mem_range.2 (h.lt_size i member)
  have short := (h.nodup.subperm within).length_le
  rw [List.length_range, h.length_eq] at short
  exact short

theorem append (h : Forest g roots qs ids) (h' : Forest g roots' qs' ids')
    (apart : ids.Disjoint ids') : Forest g (roots ++ roots') (qs ++ qs') (ids ++ ids') := by
  induction h with
  | nil => exact h'
  | @cons id roots below beside children others inside owns tree fresh _ apartHere _ ih =>
    obtain ⟨far, near⟩ := List.disjoint_append_left.1 apart
    rw [List.append_assoc]
    exact .cons inside owns tree fresh (ih near) (List.disjoint_append_right.2 ⟨apartHere, far⟩)

theorem split {first : List NodeId} (h : Forest g (first ++ roots) qs ids) :
    ∃ qs₁ qs₂ ids₁ ids₂, qs = qs₁ ++ qs₂ ∧ ids = ids₁ ++ ids₂ ∧ qs₁.length = first.length ∧
      Forest g first qs₁ ids₁ ∧ Forest g roots qs₂ ids₂ ∧ ids₁.Disjoint ids₂ := by
  induction first generalizing qs ids with
  | nil => exact ⟨[], qs, [], ids, rfl, rfl, rfl, .nil, h, List.disjoint_nil_left _⟩
  | cons id first ih =>
    rw [List.cons_append] at h
    cases h with
    | @cons _ _ below beside children others inside owns tree fresh rest apart =>
      obtain ⟨qs₁, qs₂, ids₁, ids₂, rfl, rfl, same, left, right, apart'⟩ := ih rest
      obtain ⟨near, far⟩ := List.disjoint_append_right.1 apart
      refine ⟨_ :: qs₁, qs₂, id :: below ++ ids₁, ids₂, rfl, (List.append_assoc _ _ _).symm,
        congrArg Nat.succ same, .cons inside owns tree fresh left near, right, ?_⟩
      exact List.disjoint_append_left.2 ⟨far, apart'⟩

theorem reverse (h : Forest g roots qs ids) :
    ∃ ids', ids'.Perm ids ∧ Forest g roots.reverse qs.reverse ids' := by
  induction h with
  | nil => exact ⟨[], .refl [], .nil⟩
  | @cons id roots below beside children others inside owns tree fresh _ apart _ ih =>
    obtain ⟨turned, same, rest⟩ := ih
    have one := Forest.cons inside owns tree fresh .nil (List.disjoint_nil_right _)
    refine ⟨turned ++ (id :: below ++ []), ?_, ?_⟩
    · rw [List.append_nil]
      exact (List.perm_append_comm).trans (same.append_left _)
    · rw [List.reverse_cons, List.reverse_cons]
      refine rest.append one fun i member member' => ?_
      rw [List.append_nil] at member'
      exact apart member' (same.mem_iff.1 member)

end Forest

structure Alike (g g' : QueryGraph) (i : NodeId) : Prop where
  operator : g'.operator i = g.operator i
  parameters : g'.parameters i = g.parameters i
  children : g'.children i = g.children i

theorem alike_of_node_eq {i : NodeId} (same : g'.node i = g.node i) : Alike g g' i :=
  ⟨congrArg Node.operator same, congrArg Node.parameters same, congrArg Node.children same⟩

namespace Forest

theorem congr (h : Forest g roots qs ids) (grown : g.size ≤ g'.size)
    (alike : ∀ i ∈ ids, Alike g g' i)
    (kept : ∀ i ∈ ids, i ∉ roots → g'.parent i = g.parent i) : Forest g' roots qs ids := by
  induction h with
  | nil => exact .nil
  | @cons id roots below beside children others inside owns tree fresh rest apart ih ih' =>
    obtain ⟨here, alikeBelow⟩ := List.forall_mem_cons.1 (List.forall_mem_append.1 alike).1
    obtain ⟨keptHere, keptBeside⟩ := List.forall_mem_append.1 kept
    have foreign {i : NodeId} (member : i ∈ below) : i ∉ id :: roots := by
      intro root
      rcases List.mem_cons.1 root with rfl | root
      · exact fresh member
      · exact apart (List.mem_cons_of_mem _ member) (rest.subset root)
    have keptBelow {i : NodeId} (member : i ∈ below) : g'.parent i = g.parent i :=
      keptHere i (List.mem_cons_of_mem _ member) (foreign member)
    have tree' := ih alikeBelow fun i member _ => keptBelow member
    rw [← here.children] at tree'
    rw [← here.operator, ← here.parameters]
    refine .cons (Nat.lt_of_lt_of_le inside grown) ?_ tree' fresh ?_ apart
    · intro child member
      rw [here.children] at member
      rw [keptBelow (tree.subset member)]
      exact owns child member
    · refine ih' (List.forall_mem_append.1 alike).2 fun i member other => ?_
      refine keptBeside i member fun root => ?_
      rcases List.mem_cons.1 root with rfl | root
      · exact apart List.mem_cons_self member
      · exact other root

theorem congr_node (h : Forest g roots qs ids) (grown : g.size ≤ g'.size)
    (same : ∀ i ∈ ids, g'.node i = g.node i) : Forest g' roots qs ids :=
  h.congr grown (fun i member => alike_of_node_eq (same i member))
    fun i member _ => congrArg Node.parent (same i member)

/-- A node below a root is a child of another node of the forest, which is its parent. -/
theorem exists_owner (h : Forest g roots qs ids) {i : NodeId} (member : i ∈ ids)
    (other : i ∉ roots) : ∃ parent ∈ ids, i ∈ g.children parent ∧ g.parent i = some parent := by
  induction h with
  | nil => exact absurd member List.not_mem_nil
  | @cons id roots below beside children others inside owns tree fresh rest apart ih ih' =>
    rcases List.mem_append.1 member with here | there
    · rcases List.mem_cons.1 here with rfl | deeper
      · exact absurd List.mem_cons_self other
      · by_cases child : i ∈ g.children id
        · exact ⟨id, by simp, child, owns i child⟩
        · obtain ⟨parent, found, is⟩ := ih deeper child
          exact ⟨parent, by simp [found], is⟩
    · obtain ⟨parent, found, is⟩ := ih' there fun root => other (List.mem_cons_of_mem _ root)
      exact ⟨parent, by simp [found], is⟩

/-- The children of a node of the forest are there, too, and have it as their parent. -/
theorem child_mem (h : Forest g roots qs ids) {i child : NodeId} (member : i ∈ ids)
    (listed : child ∈ g.children i) : child ∈ ids ∧ g.parent child = some i := by
  induction h with
  | nil => exact absurd member List.not_mem_nil
  | @cons id roots below beside children others inside owns tree fresh rest apart ih ih' =>
    rcases List.mem_append.1 member with here | there
    · rcases List.mem_cons.1 here with rfl | deeper
      · exact ⟨by simp [tree.subset listed], owns child listed⟩
      · obtain ⟨found, is⟩ := ih deeper
        exact ⟨by simp [found], is⟩
    · obtain ⟨found, is⟩ := ih' there
      exact ⟨by simp [found], is⟩

/-- Each node of a forest has a tree there. What passes from queries to their children holds of its
query if it holds of those of the roots. -/
theorem subtree (h : Forest g roots qs ids) {P : Query → Prop}
    (passes : ∀ q, P q → ∀ child ∈ q.children, P child) (holds : ∀ q ∈ qs, P q) {i : NodeId}
    (member : i ∈ ids) : ∃ q below, Forest g [i] [q] below ∧ below ⊆ ids ∧ P q := by
  induction h with
  | nil => exact absurd member List.not_mem_nil
  | @cons id roots below beside children others inside owns tree fresh rest apart ih ih' =>
    obtain ⟨here, holds⟩ := List.forall_mem_cons.1 holds
    rcases List.mem_append.1 member with first | there
    · rcases List.mem_cons.1 first with rfl | deeper
      · have one := Forest.cons inside owns tree fresh .nil (List.disjoint_nil_right _)
        rw [List.append_nil] at one
        exact ⟨_, _, one, List.subset_append_left _ _, here⟩
      · obtain ⟨q, ids, found, within, is⟩ := ih (passes _ here) deeper
        exact ⟨q, ids, found, fun j inner => by simp [within inner], is⟩
    · obtain ⟨q, ids, found, within, is⟩ := ih' holds there
      exact ⟨q, ids, found, fun j inner => by simp [within inner], is⟩

theorem orderTo_eq (h : Forest g roots qs ids) {depth : Nat} (deep : Query.sizeAll qs ≤ depth) :
    roots.flatMap (g.orderTo depth) = ids := by
  induction h generalizing depth with
  | nil => rfl
  | cons _ _ _ _ _ _ ih ih' =>
    rw [Query.sizeAll, Query.size] at deep
    obtain ⟨below, rfl⟩ : ∃ below, depth = below + 1 := ⟨depth - 1, by omega⟩
    rw [List.flatMap_cons, orderTo, ih (by omega), ih' (by omega)]

theorem queryTo_eq (h : Forest g roots qs ids) {depth : Nat}
    (deep : Query.sizeAll qs ≤ depth) : roots.map (g.queryTo depth) = qs := by
  induction h generalizing depth with
  | nil => rfl
  | cons _ _ _ _ _ _ ih ih' =>
    rw [Query.sizeAll, Query.size] at deep
    obtain ⟨below, rfl⟩ : ∃ below, depth = below + 1 := ⟨depth - 1, by omega⟩
    rw [List.map_cons, queryTo, ih (by omega), ih' (by omega)]

theorem queryAt_eq {id : NodeId} {q : Query} (h : Forest g [id] [q] ids) : g.queryAt id = q := by
  have read := h.queryTo_eq h.sizeAll_le
  exact (List.cons_eq_cons.1 read).1

theorem exists_tree (h : Forest g roots qs ids) {i : NodeId} (member : i ∈ ids) :
    ∃ below, Forest g [i] [g.queryAt i] below := by
  obtain ⟨q, below, tree, _, _⟩ := h.subtree (P := fun _ => True) (fun _ _ _ _ => trivial)
    (fun _ _ => trivial) member
  exact ⟨below, tree.queryAt_eq.symm ▸ tree⟩

theorem map_queryAt_eq (h : Forest g roots qs ids) : roots.map g.queryAt = qs :=
  h.queryTo_eq h.sizeAll_le

theorem preorder_eq {q : Query} (h : Forest g [g.root] [q] ids) : g.preorder = ids := by
  have order := h.orderTo_eq h.sizeAll_le
  rw [List.flatMap_singleton] at order
  exact order

theorem unique (h : Forest g roots qs ids) (h' : Forest g roots qs' ids') : qs' = qs ∧ ids' = ids :=
  ⟨h'.map_queryAt_eq.symm.trans h.map_queryAt_eq,
    (h'.orderTo_eq h'.sizeAll_le).symm.trans (h.orderTo_eq h.sizeAll_le)⟩

theorem root_cases {id : NodeId} {q : Query} (h : Forest g [id] [q] ids) :
    ∃ children below, q = .node (g.operator id) (g.parameters id) children ∧ ids = id :: below ∧
      id < g.size ∧ (∀ child ∈ g.children id, g.parent child = some id) ∧
      Forest g (g.children id) children below ∧ id ∉ below := by
  cases h with
  | @cons _ _ below _ children _ inside owns tree fresh rest _ =>
    cases rest
    exact ⟨children, below, rfl, List.append_nil _, inside, owns, tree, fresh⟩

theorem of_root {id : NodeId} {children : List Query} {below : List NodeId} (inside : id < g.size)
    (owns : ∀ child ∈ g.children id, g.parent child = some id)
    (tree : Forest g (g.children id) children below) (fresh : id ∉ below) :
    Forest g [id] [.node (g.operator id) (g.parameters id) children] (id :: below) := by
  have one := Forest.cons inside owns tree fresh .nil (List.disjoint_nil_right _)
  rw [List.append_nil] at one
  exact one

end Forest

section Search

theorem lt_size_of_parent {i parent : NodeId} (h : g.parent i = some parent) : i < g.size := by
  by_cases inside : i < g.size
  · exact inside
  · have outside : g.nodes[i]? = none := Array.getElem?_eq_none (Nat.not_lt.1 inside)
    rw [QueryGraph.parent, node, outside] at h
    cases h

theorem ownsChildren_iff {id : NodeId} :
    g.ownsChildren id = true ↔ ∀ child ∈ g.children id, g.parent child = some id := by
  rw [ownsChildren, List.all_eq_true]
  exact forall₂_congr fun child _ => beq_iff_eq

/-- A forest with one root more is one in which the children of that root stand in its place. -/
theorem exists_forest_cons_iff {fuel : Nat} {seen stack : List NodeId} {id : NodeId}
    (here : id < g.size) :
    (∃ qs ids, Forest g (id :: stack) qs ids ∧ ids.Disjoint seen ∧ ids.length ≤ fuel + 1) ↔
      (id ∉ seen ∧ ∀ child ∈ g.children id, g.parent child = some id) ∧
        ∃ qs ids, Forest g ((g.children id).reverse ++ stack) qs ids ∧
          ids.Disjoint (id :: seen) ∧ ids.length ≤ fuel := by
  constructor
  · rintro ⟨qs, ids, forest, clear, short⟩
    cases forest with
    | @cons _ _ below beside children _ _ owns tree fresh rest apart =>
      obtain ⟨turned, same, reversed⟩ := tree.reverse
      obtain ⟨clearHere, clearBeside⟩ := List.disjoint_append_left.1 clear
      obtain ⟨unseen, clearBelow⟩ := List.disjoint_cons_left.1 clearHere
      obtain ⟨aside, apart⟩ := List.disjoint_cons_left.1 apart
      refine ⟨⟨unseen, owns⟩, _, _, reversed.append rest ?_, ?_, ?_⟩
      · exact fun i member => apart (same.mem_iff.1 member)
      · refine List.disjoint_cons_right.2 ⟨fun member => ?_, ?_⟩
        · rcases List.mem_append.1 member with member | member
          · exact fresh (same.mem_iff.1 member)
          · exact aside member
        · refine List.disjoint_append_left.2 ⟨?_, clearBeside⟩
          exact fun i member => clearBelow (same.mem_iff.1 member)
      · rw [List.length_append, List.length_cons] at short
        rw [List.length_append, same.length_eq]
        omega
  · rintro ⟨⟨unseen, owns⟩, qs, ids, forest, clear, short⟩
    obtain ⟨qs₁, qs₂, ids₁, ids₂, rfl, rfl, _, turned, rest, apart⟩ := forest.split
    obtain ⟨below, same, tree⟩ := turned.reverse
    rw [List.reverse_reverse] at tree
    obtain ⟨fresh, clear⟩ := List.disjoint_cons_right.1 clear
    obtain ⟨clear₁, clear₂⟩ := List.disjoint_append_left.1 clear
    have freshBelow : id ∉ below := fun member =>
      fresh (List.mem_append_left _ (same.mem_iff.1 member))
    refine ⟨_, _, .cons here owns tree freshBelow rest ?_, ?_, ?_⟩
    · refine List.disjoint_cons_left.2 ⟨fun member => fresh (List.mem_append_right _ member), ?_⟩
      exact fun i member => apart (same.mem_iff.1 member)
    · refine List.disjoint_append_left.2 ⟨?_, clear₂⟩
      exact List.disjoint_cons_left.2 ⟨unseen, fun i member => clear₁ (same.mem_iff.1 member)⟩
    · rw [List.length_append] at short ⊢
      rw [List.length_cons, same.length_eq]
      omega

/-- The search succeeds if and only if the nodes still to look at are the roots of a forest of
nodes not seen, for which the fuel suffices. -/
theorem searchLinks_iff {fuel : Nat} {seen stack : List NodeId}
    (inside : ∀ id ∈ stack, id < g.size) :
    g.searchLinks fuel seen stack = true ↔
      ∃ qs ids, Forest g stack qs ids ∧ ids.Disjoint seen ∧ ids.length ≤ fuel := by
  induction fuel generalizing seen stack with
  | zero =>
    cases stack with
    | nil => exact iff_of_true rfl ⟨[], [], .nil, List.disjoint_nil_left _, Nat.le_refl 0⟩
    | cons id stack =>
      refine iff_of_false Bool.false_ne_true ?_
      rintro ⟨qs, ids, forest, _, short⟩
      have member := forest.subset List.mem_cons_self
      rw [List.length_eq_zero_iff.1 (Nat.le_zero.1 short)] at member
      exact List.not_mem_nil member
  | succ fuel ih =>
    cases stack with
    | nil => exact iff_of_true rfl ⟨[], [], .nil, List.disjoint_nil_left _, Nat.zero_le _⟩
    | cons id stack =>
      obtain ⟨here, others⟩ := List.forall_mem_cons.1 inside
      rw [searchLinks, Bool.and_eq_true, Bool.and_eq_true, ownsChildren_iff, Bool.not_eq_true',
        List.contains_eq_mem, decide_eq_false_iff_not, exists_forest_cons_iff here]
      refine and_congr_right fun ⟨_, owns⟩ => ih ?_
      refine List.forall_mem_append.2 ⟨fun i member => ?_, others⟩
      exact lt_size_of_parent (owns i (List.mem_reverse.1 member))

/-- The links agree if and only if the root has no parent and spells out a query. -/
theorem checkLinks_iff (inside : g.root < g.size) :
    g.checkLinks = true ↔ g.parent g.root = none ∧ ∃ q ids, Forest g [g.root] [q] ids := by
  have only : ∀ id ∈ [g.root], id < g.size := List.forall_mem_singleton.2 inside
  rw [checkLinks, Bool.and_eq_true, Option.isNone_iff_eq_none, searchLinks_iff only]
  refine and_congr_right fun _ => ⟨?_, ?_⟩
  · rintro ⟨qs, ids, forest, _, _⟩
    have one := congrArg List.length forest.map_queryAt_eq
    obtain ⟨q, rfl⟩ := List.length_eq_one_iff.1 one.symm
    exact ⟨q, ids, forest⟩
  · rintro ⟨q, ids, forest⟩
    refine ⟨[q], ids, forest, List.disjoint_nil_right _, ?_⟩
    rw [forest.length_eq]
    exact forest.sizeAll_le

end Search

section Layout

variable (g)

mutual

/-- A query laid out in a graph is a tree there, on neighbouring nodes. -/
theorem forest_layout (parent : Option NodeId) (first : Nat) (q : Query)
    (inside : first + q.size ≤ g.size)
    (there : ∀ i (h : i < (layout parent first q).length),
      g.node (first + i) = (layout parent first q)[i]) :
    Forest g [first] [q] (List.range' first q.size) ∧ g.parent first = parent := by
  cases q with
  | node operator parameters children =>
    have here := there 0 (by simp [layout])
    simp only [layout, List.getElem_cons_zero, Nat.add_zero] at here
    rw [Query.size] at inside
    obtain ⟨tree, owns⟩ := forest_layoutAll first (first + 1) children (by omega) fun i h => by
      have next := there (i + 1) (by simpa [layout] using h)
      simpa [layout, Nat.add_comm, Nat.add_left_comm] using next
    have listed : g.children first = QueryGraph.roots (first + 1) children :=
      congrArg Node.children here
    have within : first < g.size := by omega
    have fresh : first ∉ List.range' (first + 1) (Query.sizeAll children) := by
      rw [List.mem_range'_1]
      omega
    have one := Forest.of_root within (listed ▸ owns) (listed ▸ tree) fresh
    rw [QueryGraph.operator, QueryGraph.parameters, here] at one
    refine ⟨?_, congrArg Node.parent here⟩
    rw [Query.size, List.range'_succ]
    exact one

theorem forest_layoutAll (parent first : Nat) (qs : List Query)
    (inside : first + Query.sizeAll qs ≤ g.size)
    (there : ∀ i (h : i < (layoutAll parent first qs).length),
      g.node (first + i) = (layoutAll parent first qs)[i]) :
    Forest g (QueryGraph.roots first qs) qs (List.range' first (Query.sizeAll qs)) ∧
      ∀ child ∈ QueryGraph.roots first qs, g.parent child = some parent := by
  cases qs with
  | nil => exact ⟨.nil, List.forall_mem_nil _⟩
  | cons q rest =>
    rw [Query.sizeAll] at inside
    have length := length_layout (some parent) first q
    obtain ⟨tree, owned⟩ := forest_layout (some parent) first q (by omega) fun i h => by
      have next := there i (by rw [layoutAll, List.length_append]; omega)
      simpa [layoutAll, List.getElem_append_left h] using next
    obtain ⟨others, owns⟩ := forest_layoutAll parent (first + q.size) rest (by omega) fun i h => by
      have next := there (q.size + i) (by rw [layoutAll, List.length_append]; omega)
      simpa [layoutAll, List.getElem_append_right, length, Nat.add_assoc] using next
    refine ⟨?_, List.forall_mem_cons.2 ⟨owned, owns⟩⟩
    rw [Query.sizeAll, ← List.range'_append_1]
    refine tree.append others fun i member member' => ?_
    rw [List.mem_range'_1] at member member'
    omega

end

end Layout

theorem forest_ofQuery (q : Query) :
    Forest (ofQuery q) [0] [q] (List.range' 0 q.size) ∧ (ofQuery q).parent 0 = none := by
  refine forest_layout (ofQuery q) none 0 q ?_ fun i h => ?_
  · simp [ofQuery, size, length_layout]
  · simp [ofQuery, node, h]

end RankedRetrieval.QueryGraph
