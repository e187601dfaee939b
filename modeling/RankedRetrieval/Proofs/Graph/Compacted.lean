import RankedRetrieval.Proofs.Graph.Reached

set_option autoImplicit false

/-!
# Graphs made of a query

The graph of a query can be made one node at a time, each put on the list of its parent once
everything below it is there. It has the nodes of the query, in order, and no others. Where the
links of a graph agree, compaction leaves such a graph, whatever else there was (`compact_packed`).
-/

namespace RankedRetrieval.QueryGraph

variable {g : QueryGraph} {id : NodeId} {q : Query}

def adopt (more : List NodeId) (n : Node) : Node := { n with children := n.children ++ more }

mutual

def insert (g : QueryGraph) (parent : Option NodeId) : Query → QueryGraph
  | .node operator parameters children =>
    ((g.addNode operator parameters).setParent g.size parent).insertAll g.size children

def insertAll (g : QueryGraph) (parent : NodeId) : List Query → QueryGraph
  | [] => g
  | q :: rest =>
    ((g.insert (some parent) q).modify parent (adopt [g.size])).insertAll parent rest

end

def extend (g : QueryGraph) (more : List Node) : QueryGraph :=
  { g with nodes := g.nodes ++ more.toArray }

section Extend

variable (g) (more more' : List Node)

@[simp] theorem size_extend : (g.extend more).size = g.size + more.length := by
  simp [extend, size]

@[simp] theorem extend_nil : g.extend [] = g := by
  simp [extend]

@[simp] theorem extend_extend : (g.extend more).extend more' = g.extend (more ++ more') := by
  simp [extend]

theorem modify_extend (f : Node → Node) (inside : id < g.size) :
    (g.extend more).modify id f = (g.modify id f).extend more := by
  have same : (g.nodes ++ more.toArray).modify id f = g.nodes.modify id f ++ more.toArray := by
    ext i
    · simp
    · grind [size]
  rw [modify, extend, same]
  rfl

theorem modify_extend_singleton (f : Node → Node) (n : Node) :
    (g.extend [n]).modify g.size f = g.extend [f n] := by
  have same : (g.nodes.push n).modify g.nodes.size f = g.nodes.push (f n) := by
    ext i
    · simp
    · grind
  simp [modify, extend, size, same]

theorem addNode_eq (operator : String) (parameters : Parameters) :
    g.addNode operator parameters =
      g.extend [{ operator, parameters, children := [], parent := none }] := by
  simp [addNode, extend]

end Extend

section Insert

theorem modify_adopt_nil (g : QueryGraph) (id : NodeId) : g.modify id (adopt []) = g := by
  have same : g.nodes.modify id (adopt []) = g.nodes := by
    ext i
    · simp
    · simp [Array.getElem_modify, adopt]
  rw [modify, same]

theorem modify_adopt_adopt (g : QueryGraph) (id : NodeId) (more more' : List NodeId) :
    (g.modify id (adopt more)).modify id (adopt more') = g.modify id (adopt (more ++ more')) := by
  have same : (g.nodes.modify id (adopt more)).modify id (adopt more') =
      g.nodes.modify id (adopt (more ++ more')) := by
    ext i
    · simp
    · grind [adopt]
  rw [modify, modify, modify, same]

mutual

theorem insert_eq (g : QueryGraph) (parent : Option NodeId) (q : Query) :
    g.insert parent q = g.extend (layout parent g.size q) := by
  cases q with
  | node operator parameters children =>
    rw [insert, setParent, addNode_eq, modify_extend_singleton, insertAll_eq _ _ children (by simp),
      modify_extend_singleton, extend_extend, size_extend]
    rfl

theorem insertAll_eq (g : QueryGraph) (parent : NodeId) (qs : List Query)
    (inside : parent < g.size) :
    g.insertAll parent qs =
      (g.modify parent (adopt (roots g.size qs))).extend (layoutAll parent g.size qs) := by
  cases qs with
  | nil => rw [insertAll, roots, layoutAll, modify_adopt_nil, extend_nil]
  | cons q rest =>
    -- the nodes below `q` come to the end, so the parent is still among those before them
    have grown : parent <
        ((g.modify parent (adopt [g.size])).extend (layout (some parent) g.size q)).size := by
      rw [size_extend, size_modify]
      exact Nat.lt_add_right _ inside
    calc
      g.insertAll parent (q :: rest)
          = ((g.insert (some parent) q).modify parent (adopt [g.size])).insertAll parent rest := rfl
      _ = ((g.modify parent (adopt [g.size])).extend
            (layout (some parent) g.size q)).insertAll parent rest := by
          rw [insert_eq g (some parent) q, modify_extend _ _ _ inside]
      _ = (((g.modify parent (adopt [g.size])).modify parent
            (adopt (roots (g.size + q.size) rest))).extend (layout (some parent) g.size q)).extend
              (layoutAll parent (g.size + q.size) rest) := by
          rw [insertAll_eq _ _ rest grown, modify_extend _ _ _ (by rwa [size_modify]), size_extend,
            size_modify, length_layout]
      _ = _ := by rw [modify_adopt_adopt, extend_extend]; rfl

end

theorem insert_empty (q : Query) : insert { nodes := #[], root := 0 } none q = ofQuery q := by
  simp [insert_eq, extend, ofQuery, size]

end Insert

/-- A graph holds a query and no other nodes. Its links agree, its nodes are numbered in order
without gaps, and both ways to go through it, from a node to its children and with a stack, end. -/
structure Packed (g : QueryGraph) (q : Query) : Prop where
  links : g.checkLinks = true
  read : g.toQuery = q
  spells : ∀ q', g.Spells g.root q' ↔ q' = q
  size : g.size = q.size
  order : g.preorder = List.range q.size
  visits : ∀ order, g.Visits [g.root] order ↔ order = List.range q.size

theorem packed_ofQuery (q : Query) : (ofQuery q).Packed q := by
  obtain ⟨forest, top⟩ := forest_ofQuery q
  rw [← List.range_eq_range'] at forest
  have size : (ofQuery q).size = q.size := by simp [ofQuery, QueryGraph.size, length_layout]
  have inside : (ofQuery q).root < (ofQuery q).size := forest.root_lt 0 (by simp)
  exact ⟨(checkLinks_iff inside).2 ⟨top, q, _, forest⟩, forest.queryAt_eq, forest.spells_iff, size,
    forest.preorder_eq, forest.visits_iff⟩

theorem nodeCount_eq_size (inside : g.root < g.size) (agree : g.checkLinks = true) :
    g.nodeCount = g.toQuery.size := by
  obtain ⟨_, q, ids, forest⟩ := (checkLinks_iff inside).1 agree
  have length := forest.length_eq
  rw [Query.sizeAll, Query.sizeAll, Nat.add_zero] at length
  rw [nodeCount, forest.preorder_eq, toQuery, forest.queryAt_eq, length]

/-- The graph of a query is packed, and making it one node at a time gives the same graph. Whatever
else a graph holds, compaction leaves what is reached from the root, packed, and changes nothing the
second time. -/
theorem compact_packed :
    (∀ q : Query, (ofQuery q).Packed q ∧ insert { nodes := #[], root := 0 } none q = ofQuery q) ∧
      ∀ g : QueryGraph, g.root < g.size → g.checkLinks = true →
        g.Spells g.root g.toQuery ∧ g.Visits [g.root] g.preorder ∧ g.compact.Packed g.toQuery ∧
          g.compact.size = g.nodeCount ∧ g.compact.nodeCount = g.nodeCount ∧
          g.compact.preorder = List.range g.nodeCount ∧ g.compact.compact = g.compact := by
  refine ⟨fun q => ⟨packed_ofQuery q, insert_empty q⟩, fun g inside agree => ?_⟩
  obtain ⟨_, q, ids, forest⟩ := (checkLinks_iff inside).1 agree
  have spells := (forest.spells_iff _).2 forest.queryAt_eq
  have visits := (forest.visits_iff _).2 forest.preorder_eq
  have packed : g.compact.Packed g.toQuery := packed_ofQuery g.toQuery
  have count := nodeCount_eq_size inside agree
  refine ⟨spells, visits, packed, packed.size.trans count.symm, ?_, count ▸ packed.order, ?_⟩
  · rw [nodeCount, packed.order, List.length_range, count]
  · rw [compact, packed.read]
    rfl

/-- A term that was wrapped twice. The first wrapper is not reached anymore, but it still lists the
term and has the sum as its parent. -/
def rewrapped : QueryGraph :=
  let g := ofQuery (.node "combine" .empty [.node "text" (.single "term" (.string "a")) []])
  ((g.wrap 1 "log" .empty).wrap 1 "scale" .empty).replaceChildAt 0 0 3

theorem compact_packed_rewrapped :
    rewrapped.root < rewrapped.size ∧ rewrapped.checkLinks = true ∧
      rewrapped.preorder = [0, 3, 1] ∧ rewrapped.children 2 = [1] ∧ rewrapped.parent 2 = some 0 ∧
      rewrapped.compact.size = 3 ∧ rewrapped.compact.checkLinks = true ∧
      rewrapped.compact.toQuery = rewrapped.toQuery ∧
      rewrapped.compact.preorder = [0, 1, 2] ∧
      rewrapped.compact.compact = rewrapped.compact := by
  have inside : rewrapped.root < rewrapped.size := by decide
  have agree : rewrapped.checkLinks = true := by decide
  have count : rewrapped.nodeCount = 3 := by decide
  obtain ⟨_, _, packed, size, _, order, again⟩ := compact_packed.2 rewrapped inside agree
  rw [count] at size order
  exact ⟨inside, agree, by decide, by decide, by decide, size, packed.links, packed.read, order,
    again⟩

end RankedRetrieval.QueryGraph
