import RankedRetrieval.Proofs.Graph.Forest

set_option autoImplicit false

namespace RankedRetrieval.QueryGraph

variable {g g' g'' : QueryGraph} {roots ids ids' ids'' : List NodeId} {qs : List Query}

/-- Some nodes may have been changed and new ones added, all others are as they were. -/
structure Rebuilt (ids ids' : List NodeId) (g g' : QueryGraph) : Prop where
  root : g'.root = g.root
  grown : g.size ≤ g'.size
  kept : ∀ i < g.size, i ∉ ids → g'.node i = g.node i
  /-- The nodes in question afterwards are among those before, or new. -/
  known : ∀ i ∈ ids', i ∈ ids ∨ g.size ≤ i

namespace Rebuilt

theorem refl (g : QueryGraph) (ids : List NodeId) : Rebuilt ids ids g g :=
  ⟨rfl, Nat.le_refl _, fun _ _ _ => rfl, fun _ => .inl⟩

theorem trans (h : Rebuilt ids ids' g g') (h' : Rebuilt ids' ids'' g' g'') :
    Rebuilt ids ids'' g g'' where
  root := h'.root.trans h.root
  grown := Nat.le_trans h.grown h'.grown
  kept i inside outside := by
    have outside' : i ∉ ids' := fun member =>
      (h.known i member).elim outside (Nat.not_le.2 inside)
    rw [h'.kept i (Nat.lt_of_lt_of_le inside h.grown) outside', h.kept i inside outside]
  known i member := by
    rcases h'.known i member with old | new
    · exact h.known i old
    · exact .inr (Nat.le_trans h.grown new)

theorem widen (h : Rebuilt ids ids' g g') {more more' : List NodeId} (sub : ids ⊆ more)
    (sub' : ∀ i ∈ more', i ∈ ids' ∨ i ∈ more) : Rebuilt more more' g g' where
  root := h.root
  grown := h.grown
  kept i inside outside := h.kept i inside fun member => outside (sub member)
  known i member := by
    rcases sub' i member with new | old
    · exact (h.known i new).imp_left fun old => sub old
    · exact .inl old

theorem apart (h : Rebuilt ids ids' g g') {others : List NodeId} (inside : ∀ i ∈ others, i < g.size)
    (far : ids.Disjoint others) : ids'.Disjoint others := by
  intro i member other
  rcases h.known i member with old | new
  · exact far old other
  · exact absurd (inside i other) (Nat.not_lt.2 new)

theorem forest (h : Rebuilt ids ids' g g') {others : List NodeId} (there : Forest g roots qs others)
    (far : ids.Disjoint others) : Forest g' roots qs others :=
  there.congr_node h.grown fun i member =>
    h.kept i (there.lt_size i member) fun old => far old member

end Rebuilt

theorem Alike.trans {i : NodeId} (h : Alike g g' i) (h' : Alike g' g'' i) : Alike g g'' i where
  operator := h'.operator.trans h.operator
  parameters := h'.parameters.trans h.parameters
  children := h'.children.trans h.children

theorem Alike.node_eq {i : NodeId} (h : Alike g g' i) (parent : g'.parent i = g.parent i) :
    g'.node i = g.node i := by
  obtain ⟨operator, parameters, children⟩ := h
  unfold QueryGraph.operator at operator
  unfold QueryGraph.parameters at parameters
  unfold QueryGraph.children at children
  unfold QueryGraph.parent at parent
  cases there : g'.node i
  cases here : g.node i
  simp_all

structure Reparented (g g' : QueryGraph) : Prop where
  root : g'.root = g.root
  size : g'.size = g.size
  alike : ∀ i, Alike g g' i

theorem Reparented.refl (g : QueryGraph) : Reparented g g := ⟨rfl, rfl, fun _ => ⟨rfl, rfl, rfl⟩⟩

theorem Reparented.trans (h : Reparented g g') (h' : Reparented g' g'') : Reparented g g'' :=
  ⟨h'.root.trans h.root, h'.size.trans h.size, fun i => (h.alike i).trans (h'.alike i)⟩

section Parents

theorem node_setParent {id : NodeId} (inside : id < g.size) (parent : Option NodeId) (i : NodeId) :
    (g.setParent id parent).node i = if i = id then { g.node id with parent } else g.node i :=
  node_modify g id i _ inside

theorem parent_setParent {id : NodeId} (inside : id < g.size) (parent : Option NodeId)
    (i : NodeId) : (g.setParent id parent).parent i = if i = id then parent else g.parent i := by
  rw [QueryGraph.parent, node_setParent inside]
  split <;> rfl

theorem reparented_setParent {id : NodeId} (inside : id < g.size) (parent : Option NodeId) :
    Reparented g (g.setParent id parent) := by
  refine ⟨rfl, size_modify g id _, fun i => ?_⟩
  by_cases same : i = id
  · subst same
    have changed := node_setParent inside parent i
    rw [if_pos rfl] at changed
    refine ⟨?_, ?_, ?_⟩
    · rw [QueryGraph.operator, changed, QueryGraph.operator]
    · rw [QueryGraph.parameters, changed, QueryGraph.parameters]
    · rw [QueryGraph.children, changed, QueryGraph.children]
  · have kept := node_setParent inside parent i
    rw [if_neg same] at kept
    exact alike_of_node_eq kept

theorem reparented_orphan (g : QueryGraph) (parent id : NodeId) :
    Reparented g (g.orphan parent id) := by
  unfold orphan
  split
  · exact reparented_setParent (lt_size_of_parent ‹_›) none
  · exact .refl g

theorem parent_orphan (g : QueryGraph) (parent id i : NodeId) :
    (g.orphan parent id).parent i =
      if i = id ∧ g.parent i = some parent then none else g.parent i := by
  unfold orphan
  split
  · rename_i held
    rw [parent_setParent (lt_size_of_parent held)]
    grind
  · grind

def orphanAll (g : QueryGraph) (parent : NodeId) (ids : List NodeId) : QueryGraph :=
  ids.foldl (fun g id => g.orphan parent id) g

theorem reparented_orphanAll (g : QueryGraph) (parent : NodeId) (ids : List NodeId) :
    Reparented g (g.orphanAll parent ids) := by
  induction ids generalizing g with
  | nil => exact .refl g
  | cons id ids ih => exact (reparented_orphan g parent id).trans (ih _)

theorem parent_orphanAll (g : QueryGraph) (parent : NodeId) (ids : List NodeId) (i : NodeId) :
    (g.orphanAll parent ids).parent i =
      if i ∈ ids ∧ g.parent i = some parent then none else g.parent i := by
  induction ids generalizing g with
  | nil => simp [orphanAll]
  | cons id ids ih =>
    have rest := ih (g.orphan parent id)
    rw [parent_orphan] at rest
    rw [orphanAll, List.foldl_cons, ← orphanAll, rest]
    grind

def adoptAll (g : QueryGraph) (parent : NodeId) (ids : List NodeId) : QueryGraph :=
  ids.foldl (fun g id => g.setParent id (some parent)) g

theorem reparented_adoptAll {parent : NodeId} {ids : List NodeId} (inside : ∀ i ∈ ids, i < g.size) :
    Reparented g (g.adoptAll parent ids) := by
  induction ids generalizing g with
  | nil => exact .refl g
  | cons id ids ih =>
    obtain ⟨here, others⟩ := List.forall_mem_cons.1 inside
    have first := reparented_setParent here (some parent)
    exact first.trans (ih fun i member => first.size ▸ others i member)

theorem parent_adoptAll (parent : NodeId) {ids : List NodeId} (inside : ∀ i ∈ ids, i < g.size)
    (i : NodeId) :
    (g.adoptAll parent ids).parent i = if i ∈ ids then some parent else g.parent i := by
  induction ids generalizing g with
  | nil => rfl
  | cons id ids ih =>
    obtain ⟨here, others⟩ := List.forall_mem_cons.1 inside
    have first := reparented_setParent here (some parent)
    have rest := ih (g := g.setParent id (some parent)) fun i member =>
      first.size ▸ others i member
    rw [parent_setParent here] at rest
    rw [adoptAll, List.foldl_cons, ← adoptAll, rest]
    grind

end Parents

section SetChildren

variable {parent : NodeId} {children : List NodeId}

theorem setChildren_eq (g : QueryGraph) (parent : NodeId) (children : List NodeId) :
    g.setChildren parent children =
      ((g.orphanAll parent (g.children parent)).adoptAll parent children).modify parent
        fun n => { n with children } := rfl

theorem reparented_setChildren (parent : NodeId) (inside : ∀ i ∈ children, i < g.size) :
    Reparented g ((g.orphanAll parent (g.children parent)).adoptAll parent children) := by
  have freed := reparented_orphanAll g parent (g.children parent)
  exact freed.trans (reparented_adoptAll fun i member => freed.size ▸ inside i member)

theorem node_setChildren (here : parent < g.size) (inside : ∀ i ∈ children, i < g.size)
    (i : NodeId) :
    (g.setChildren parent children).node i =
      { operator := g.operator i
        parameters := g.parameters i
        children := if i = parent then children else g.children i
        parent :=
          if i ∈ children then some parent
          else if i ∈ g.children parent ∧ g.parent i = some parent then none
          else g.parent i } := by
  have linked := reparented_setChildren parent inside
  have freed := reparented_orphanAll g parent (g.children parent)
  have inside' : ∀ i ∈ children, i < (g.orphanAll parent (g.children parent)).size :=
    fun i member => freed.size ▸ inside i member
  have parents := parent_adoptAll parent inside' i
  rw [parent_orphanAll] at parents
  obtain ⟨operator, parameters, list⟩ := linked.alike i
  rw [setChildren_eq, node_modify _ _ _ _ (linked.size ▸ here), ← operator, ← parameters, ← list,
    ← parents]
  split
  · subst i
    rfl
  · rfl

theorem alike_setChildren (here : parent < g.size) (inside : ∀ i ∈ children, i < g.size)
    {i : NodeId} (other : i ≠ parent) : Alike g (g.setChildren parent children) i := by
  refine ⟨?_, ?_, ?_⟩
  · rw [QueryGraph.operator, node_setChildren here inside]
  · rw [QueryGraph.parameters, node_setChildren here inside]
  · rw [QueryGraph.children, node_setChildren here inside]
    exact if_neg other

theorem operator_setChildren (here : parent < g.size) (inside : ∀ i ∈ children, i < g.size)
    (i : NodeId) : (g.setChildren parent children).operator i = g.operator i := by
  rw [QueryGraph.operator, node_setChildren here inside]

theorem parameters_setChildren (here : parent < g.size) (inside : ∀ i ∈ children, i < g.size)
    (i : NodeId) : (g.setChildren parent children).parameters i = g.parameters i := by
  rw [QueryGraph.parameters, node_setChildren here inside]

theorem children_setChildren (here : parent < g.size) (inside : ∀ i ∈ children, i < g.size)
    (i : NodeId) : (g.setChildren parent children).children i =
      if i = parent then children else g.children i := by
  rw [QueryGraph.children, node_setChildren here inside]

theorem parent_setChildren (here : parent < g.size) (inside : ∀ i ∈ children, i < g.size)
    (i : NodeId) : (g.setChildren parent children).parent i =
      if i ∈ children then some parent
      else if i ∈ g.children parent ∧ g.parent i = some parent then none
      else g.parent i := by
  rw [QueryGraph.parent, node_setChildren here inside]

theorem size_setChildren (parent : NodeId) (inside : ∀ i ∈ children, i < g.size) :
    (g.setChildren parent children).size = g.size := by
  rw [setChildren_eq, size_modify]
  exact (reparented_setChildren parent inside).size

theorem root_setChildren (inside : ∀ i ∈ children, i < g.size) :
    (g.setChildren parent children).root = g.root :=
  (reparented_setChildren parent inside).root

/-- A node whose new children are the roots of a forest becomes the root of a tree. Children that
it gives up must not be in the forest. -/
theorem Forest.setChildren {below : List NodeId} (here : parent < g.size)
    (forest : Forest g children qs below) (fresh : parent ∉ below)
    (freed : ∀ child ∈ g.children parent, child ∈ children ∨ child ∉ below) :
    Forest (g.setChildren parent children) [parent]
      [.node (g.operator parent) (g.parameters parent) qs] (parent :: below) := by
  have inside : ∀ i ∈ children, i < g.size := forest.root_lt
  have size := size_setChildren parent inside
  have kept : Forest (g.setChildren parent children) children qs below := by
    refine forest.congr (Nat.le_of_eq size.symm) ?_ ?_
    · exact fun i member => alike_setChildren here inside fun same => fresh (same ▸ member)
    · intro i member other
      rw [parent_setChildren here inside, if_neg other, if_neg]
      exact fun both => (freed i both.1).elim other fun away => away member
  have listed : (g.setChildren parent children).children parent = children := by
    rw [children_setChildren here inside, if_pos rfl]
  rw [← operator_setChildren here inside, ← parameters_setChildren here inside]
  refine .of_root (size.symm ▸ here) ?_ (listed.symm ▸ kept) fresh
  intro child member
  rw [listed] at member
  rw [parent_setChildren here inside, if_pos member]

theorem rebuilt_setChildren (here : parent < g.size) (inside : ∀ i ∈ children, i < g.size)
    {ids' : List NodeId} (old : parent :: g.children parent ⊆ ids) (new : children ⊆ ids)
    (known : ids' ⊆ ids) : Rebuilt ids ids' g (g.setChildren parent children) where
  root := root_setChildren inside
  grown := Nat.le_of_eq (size_setChildren parent inside).symm
  kept i _ outside := by
    have notHere : i ≠ parent := fun same => outside (old (same ▸ List.mem_cons_self))
    have notOld : i ∉ g.children parent := fun member =>
      outside (old (List.mem_cons_of_mem _ member))
    have notNew : i ∉ children := fun member => outside (new member)
    rw [node_setChildren here inside, if_neg notHere, if_neg notNew,
      if_neg fun both => notOld both.1]
    rfl
  known i member := .inl (known member)

end SetChildren

section New

variable {id : NodeId} {operator : String} {parameters : Parameters}

theorem node_addNode_of_lt {i : NodeId} (old : i < g.size) :
    (g.addNode operator parameters).node i = g.node i := by
  have there : (g.nodes.push { operator, parameters, children := [], parent := none })[i]? =
      g.nodes[i]? := by
    rw [Array.getElem?_push_lt old, Array.getElem?_eq_getElem old]
  rw [node, addNode, there, node]

theorem node_addNode_size :
    (g.addNode operator parameters).node g.size =
      { operator, parameters, children := [], parent := none } := by
  have there : (g.nodes.push { operator, parameters, children := [], parent := none })[g.size]? =
      some { operator, parameters, children := [], parent := none } := Array.getElem?_push_size
  rw [node, addNode, there]
  rfl

theorem rebuilt_addNode (ids : List NodeId) :
    Rebuilt ids (g.size :: ids) g (g.addNode operator parameters) where
  root := rfl
  grown := by
    rw [size_addNode]
    exact Nat.le_succ _
  kept i old _ := node_addNode_of_lt old
  known i member := by
    rcases List.mem_cons.1 member with rfl | member
    · exact .inr (Nat.le_refl _)
    · exact .inl member

theorem forest_addNode :
    Forest (g.addNode operator parameters) [g.size] [.node operator parameters []] [g.size] := by
  have new : (g.addNode operator parameters).node g.size =
      { operator, parameters, children := [], parent := none } := node_addNode_size
  have inside : g.size < (g.addNode operator parameters).size := by simp
  have childless : (g.addNode operator parameters).children g.size = [] := by
    rw [QueryGraph.children, new]
  have bare : Forest (g.addNode operator parameters)
      ((g.addNode operator parameters).children g.size) [] [] := by
    rw [childless]
    exact .nil
  have one := Forest.of_root inside (childless.symm ▸ List.forall_mem_nil _) bare List.not_mem_nil
  rw [QueryGraph.operator, QueryGraph.parameters, new] at one
  exact one

theorem size_wrap (g : QueryGraph) (id : NodeId) (operator : String) (parameters : Parameters) :
    (g.wrap id operator parameters).size = g.size + 1 := by
  rw [wrap, setParent, size_modify, size_modify, size_addNode]

theorem node_wrap (here : id < g.size) (i : NodeId) :
    (g.wrap id operator parameters).node i =
      if i = id then { g.node id with parent := some g.size }
      else if i = g.size then
        { operator, parameters, children := [id], parent := g.parent id }
      else (g.addNode operator parameters).node i := by
  have old : id ≠ g.size := Nat.ne_of_lt here
  have new : g.size < (g.addNode operator parameters).size := by simp
  rw [wrap, node_setParent (by rw [size_modify]; exact Nat.lt_trans here new),
    node_modify _ _ _ _ new, node_modify _ _ _ _ new, if_neg old, node_addNode_of_lt here,
    node_addNode_size]

theorem rebuilt_wrap (here : id < g.size) (member : id ∈ ids) :
    Rebuilt ids (g.size :: ids) g (g.wrap id operator parameters) where
  root := rfl
  grown := by
    rw [size_wrap]
    exact Nat.le_succ _
  kept i old outside := by
    have other : i ≠ id := fun same => outside (same ▸ member)
    rw [node_wrap here, if_neg other, if_neg (Nat.ne_of_lt old), node_addNode_of_lt old]
  known :=
    (rebuilt_addNode ids : Rebuilt ids (g.size :: ids) g (g.addNode operator parameters)).known

theorem node_wrap_of_ne (here : id < g.size) {i : NodeId} (old : i < g.size) (other : i ≠ id) :
    (g.wrap id operator parameters).node i = g.node i := by
  rw [node_wrap here, if_neg other, if_neg (Nat.ne_of_lt old), node_addNode_of_lt old]

theorem node_wrap_size (here : id < g.size) :
    (g.wrap id operator parameters).node g.size =
      { operator, parameters, children := [id], parent := g.parent id } := by
  rw [node_wrap here, if_neg (Nat.ne_of_gt here), if_pos rfl]

theorem alike_wrap (here : id < g.size) {i : NodeId} (old : i < g.size) :
    Alike g (g.wrap id operator parameters) i := by
  by_cases same : i = id
  · subst same
    refine ⟨?_, ?_, ?_⟩
    · rw [QueryGraph.operator, node_wrap here, if_pos rfl, QueryGraph.operator]
    · rw [QueryGraph.parameters, node_wrap here, if_pos rfl, QueryGraph.parameters]
    · rw [QueryGraph.children, node_wrap here, if_pos rfl, QueryGraph.children]
  · exact alike_of_node_eq (node_wrap_of_ne here old same)

theorem Forest.under_wrap (here : id < g.size) (tree : Forest g [id] qs ids) :
    Forest (g.wrap id operator parameters) [id] qs ids := by
  have grown : g.size ≤ (g.wrap id operator parameters).size := by
    rw [size_wrap]
    exact Nat.le_succ _
  refine tree.congr grown (fun i member => alike_wrap here (tree.lt_size i member))
    fun i member other => congrArg Node.parent ?_
  exact node_wrap_of_ne here (tree.lt_size i member) fun same =>
    other (same ▸ List.mem_singleton_self _)

theorem Forest.wrap (tree : Forest g [id] qs ids) :
    Forest (g.wrap id operator parameters) [g.size] [.node operator parameters qs]
      (g.size :: ids) := by
  have here : id < g.size := tree.root_lt id (List.mem_singleton_self _)
  have under : Forest (g.wrap id operator parameters) [id] qs ids := tree.under_wrap here
  have new : (g.wrap id operator parameters).node g.size = _ := node_wrap_size here
  have inside : g.size < (g.wrap id operator parameters).size := by
    rw [size_wrap]
    exact Nat.lt_succ_self _
  have owns : ∀ child ∈ (g.wrap id operator parameters).children g.size,
      (g.wrap id operator parameters).parent child = some g.size := by
    intro child member
    rw [QueryGraph.children, new, List.mem_singleton] at member
    rw [member, QueryGraph.parent, node_wrap here, if_pos rfl]
  have listed : (g.wrap id operator parameters).children g.size = [id] := by
    rw [QueryGraph.children, new]
  have one := Forest.of_root inside owns (listed.symm ▸ under) fun member =>
    Nat.lt_irrefl _ (tree.lt_size _ member)
  rw [QueryGraph.operator, QueryGraph.parameters, new] at one
  exact one

end New

section Replacement

variable {parent old id : NodeId} {done rest : List NodeId}

def linkIn (g : QueryGraph) (parent : NodeId) (position : Nat) (old id : NodeId) : QueryGraph :=
  if id ≠ old then g.replaceChildAt parent position id else g

/-- What `replaceChildAt` does before it lets go of the old child. -/
def putChild (g : QueryGraph) (parent : NodeId) (position : Nat) (id : NodeId) : QueryGraph :=
  (g.modify parent fun n => { n with children := n.children.set position id }).setParent id
    (some parent)

theorem replaceChildAt_eq (listed : g.children parent = done ++ old :: rest) (other : id ≠ old) :
    g.replaceChildAt parent done.length id =
      (g.putChild parent done.length id).orphan parent old := by
  have there : (g.children parent)[done.length]? = some old := by
    rw [listed, List.getElem?_append_right (Nat.le_refl _), Nat.sub_self, List.getElem?_cons_zero]
  rw [replaceChildAt, there]
  exact if_neg (Ne.symm other)

theorem node_putChild (inside : parent < g.size) (here : id < g.size) (apart : id ≠ parent)
    (position : Nat) (i : NodeId) :
    (g.putChild parent position id).node i =
      if i = id then { g.node id with parent := some parent }
      else if i = parent then
        { g.node parent with children := (g.children parent).set position id }
      else g.node i := by
  rw [putChild, node_setParent (by rw [size_modify]; exact here), node_modify _ _ _ _ inside,
    node_modify _ _ _ _ inside, if_neg apart]
  rfl

theorem size_putChild (g : QueryGraph) (parent : NodeId) (position : Nat) (id : NodeId) :
    (g.putChild parent position id).size = g.size := by
  rw [putChild, setParent, size_modify, size_modify]

section

variable (listed : g.children parent = done ++ old :: rest) (other : id ≠ old)
  (inside : parent < g.size) (here : id < g.size) (apart : id ≠ parent)

include listed other inside here apart

theorem alike_replaceChildAt {i : NodeId} (outside : i ≠ parent) :
    Alike g (g.replaceChildAt parent done.length id) i := by
  rw [replaceChildAt_eq listed other]
  refine Alike.trans ?_ ((reparented_orphan _ parent old).alike i)
  have put := node_putChild inside here apart done.length i
  rw [if_neg outside] at put
  by_cases same : i = id
  · subst same
    rw [if_pos rfl] at put
    refine ⟨?_, ?_, ?_⟩
    · rw [QueryGraph.operator, put, QueryGraph.operator]
    · rw [QueryGraph.parameters, put, QueryGraph.parameters]
    · rw [QueryGraph.children, put, QueryGraph.children]
  · rw [if_neg same] at put
    exact alike_of_node_eq put

theorem parent_replaceChildAt (i : NodeId) :
    (g.replaceChildAt parent done.length id).parent i =
      if i = id then some parent
      else if i = old ∧ g.parent i = some parent then none
      else g.parent i := by
  have put : (g.putChild parent done.length id).parent i =
      if i = id then some parent else g.parent i := by
    rw [QueryGraph.parent, node_putChild inside here apart]
    split
    · rfl
    · split
      · subst i
        rfl
      · rfl
  rw [replaceChildAt_eq listed other, parent_orphan, put]
  grind

theorem content_replaceChildAt :
    (g.replaceChildAt parent done.length id).operator parent = g.operator parent ∧
      (g.replaceChildAt parent done.length id).parameters parent = g.parameters parent ∧
      (g.replaceChildAt parent done.length id).children parent = done ++ id :: rest := by
  obtain ⟨operator, parameters, list⟩ := (reparented_orphan
    (g.putChild parent done.length id) parent old).alike parent
  have put := node_putChild inside here apart done.length parent
  rw [if_neg (Ne.symm apart), if_pos rfl] at put
  rw [replaceChildAt_eq listed other, operator, parameters, list]
  refine ⟨?_, ?_, ?_⟩
  · rw [QueryGraph.operator, put, QueryGraph.operator]
  · rw [QueryGraph.parameters, put, QueryGraph.parameters]
  · rw [QueryGraph.children, put, listed, List.set_append_right _ _ (Nat.le_refl _), Nat.sub_self,
      List.set_cons_zero]

omit inside here apart in
theorem size_replaceChildAt : (g.replaceChildAt parent done.length id).size = g.size := by
  rw [replaceChildAt_eq listed other, (reparented_orphan _ _ _).size, size_putChild]

end

section

variable (listed : g.children parent = done ++ old :: rest) (inside : parent < g.size)
  (here : id < g.size) (apart : id ≠ parent)

include listed inside here apart

omit inside here apart in
theorem size_linkIn : (g.linkIn parent done.length old id).size = g.size := by
  unfold linkIn
  split
  · exact size_replaceChildAt listed ‹_›
  · rfl

theorem alike_linkIn {i : NodeId} (outside : i ≠ parent) :
    Alike g (g.linkIn parent done.length old id) i := by
  unfold linkIn
  split
  · exact alike_replaceChildAt listed ‹_› inside here apart outside
  · exact ⟨rfl, rfl, rfl⟩

/-- What replaces a child is linked in without changes to others than it, the child and the
parent. -/
theorem node_linkIn {i : NodeId} (outside : i ≠ parent) (notOld : i ≠ old) (notNew : i ≠ id) :
    (g.linkIn parent done.length old id).node i = g.node i := by
  refine (alike_linkIn listed inside here apart outside).node_eq ?_
  unfold linkIn
  split
  · rw [parent_replaceChildAt listed ‹_› inside here apart, if_neg notNew,
      if_neg fun both => notOld both.1]
  · rfl

theorem content_linkIn :
    (g.linkIn parent done.length old id).operator parent = g.operator parent ∧
      (g.linkIn parent done.length old id).parameters parent = g.parameters parent ∧
      (g.linkIn parent done.length old id).children parent = done ++ id :: rest := by
  unfold linkIn
  split
  · exact content_replaceChildAt listed ‹_› inside here apart
  · rename_i same
    rw [not_not] at same
    exact ⟨rfl, rfl, same ▸ listed⟩

end

/-- Nothing changes outside the parent and the tree of the child for which another tree is linked
in. -/
theorem Rebuilt.node_linkIn {within within' : List NodeId} {q : Query}
    (rebuilt : Rebuilt within within' g g') (tree : Forest g' [id] [q] within')
    (listed : g'.children parent = done ++ old :: rest) (inside : parent < g.size)
    (apart : parent ∉ within) (placed : old ∈ within) {i : NodeId} (small : i < g.size)
    (other : i ≠ parent) (outside : i ∉ within) :
    (g'.linkIn parent done.length old id).node i = g.node i := by
  have new : id ∈ within' := tree.subset (List.mem_singleton_self _)
  have foreign {i : NodeId} (small : i < g.size) (outside : i ∉ within) : i ≠ id := by
    rintro rfl
    exact (rebuilt.known i new).elim outside (Nat.not_le.2 small)
  have linked := QueryGraph.node_linkIn listed (Nat.lt_of_lt_of_le inside rebuilt.grown)
    (tree.lt_size id new) (foreign inside apart).symm other (fun is => outside (is ▸ placed))
    (foreign small outside)
  rw [linked, rebuilt.kept i small outside]

theorem mem_others {child : NodeId} (member : child ∈ done ++ id :: rest) (other : child ≠ id) :
    child ∈ done ++ rest := by
  rcases List.mem_append.1 member with member | member
  · exact List.mem_append_left _ member
  · exact List.mem_append_right _ ((List.mem_cons.1 member).resolve_left other)

theorem Forest.replaceChildAt (listed : g.children parent = done ++ old :: rest) (other : id ≠ old)
    (forest : Forest g (done ++ id :: rest) qs ids) (inside : parent < g.size)
    (fresh : parent ∉ ids) (owns : ∀ child ∈ done ++ rest, g.parent child = some parent)
    (once : old ∉ done ++ rest) :
    Forest (g.replaceChildAt parent done.length id) [parent]
      [.node (g.operator parent) (g.parameters parent) qs] (parent :: ids) := by
  have placed : id ∈ ids := forest.subset (by simp)
  have here : id < g.size := forest.lt_size id placed
  have outside : id ≠ parent := fun is => fresh (is ▸ placed)
  have parents := parent_replaceChildAt listed other inside here outside
  obtain ⟨operator, parameters, list⟩ := content_replaceChildAt listed other inside here outside
  have size : (g.replaceChildAt parent done.length id).size = g.size :=
    size_replaceChildAt listed other
  rw [← operator, ← parameters]
  refine .of_root (size.symm ▸ inside) ?_ ?_ fresh
  · intro child member
    rw [list] at member
    rw [parents]
    split
    · rfl
    · rename_i notNew
      have another := mem_others member notNew
      have notOld : child ≠ old := fun is => once (is ▸ another)
      rw [if_neg fun both => notOld both.1]
      exact owns child another
  · rw [list]
    refine forest.congr (Nat.le_of_eq size.symm) ?_ ?_
    · intro i member
      exact alike_replaceChildAt listed other inside here outside fun is => fresh (is ▸ member)
    -- a node below a root has its parent in the forest, so it is not a child of `parent`
    · intro i member deeper
      have notNew : i ≠ id := fun is => deeper (is ▸ by simp)
      obtain ⟨above, found, _, is⟩ := forest.exists_owner member deeper
      have notHere : g.parent i ≠ some parent := fun is' =>
        fresh (Option.some.inj (is.symm.trans is') ▸ found)
      rw [parents, if_neg notNew, if_neg fun both => notHere both.2]

theorem rebuilt_replaceChildAt (listed : g.children parent = done ++ old :: rest)
    (other : id ≠ old) (inside : parent < g.size) (here : id < g.size) (outside : id ≠ parent)
    (placed : id ∈ ids) :
    Rebuilt (parent :: old :: ids) (parent :: ids) g
      (g.replaceChildAt parent done.length id) where
  root := by
    rw [replaceChildAt_eq listed other, (reparented_orphan _ _ _).root]
    rfl
  grown := Nat.le_of_eq (size_replaceChildAt listed other).symm
  kept := by
    intro i _ away
    obtain ⟨notParent, away⟩ := not_or.1 fun is => away (List.mem_cons.2 is)
    obtain ⟨notOld, notIn⟩ := not_or.1 fun is => away (List.mem_cons.2 is)
    have notNew : i ≠ id := fun is => notIn (is ▸ placed)
    refine (alike_replaceChildAt listed other inside here outside notParent).node_eq ?_
    rw [parent_replaceChildAt listed other inside here outside, if_neg notNew,
      if_neg fun both => notOld both.1]
  known := by
    intro i member
    rcases List.mem_cons.1 member with rfl | member
    · exact .inl List.mem_cons_self
    · exact .inl (List.mem_cons_of_mem _ (List.mem_cons_of_mem _ member))

/-- Once what replaces a child is linked in, the parent has a tree again. -/
theorem Forest.linkIn (listed : g.children parent = done ++ old :: rest)
    (forest : Forest g (done ++ id :: rest) qs ids) (inside : parent < g.size)
    (fresh : parent ∉ ids) (owns : ∀ child ∈ done ++ rest, g.parent child = some parent)
    (held : id = old → g.parent old = some parent) (apart : old ≠ parent)
    (once : old ∉ done ++ rest) :
    Forest (g.linkIn parent done.length old id) [parent]
        [.node (g.operator parent) (g.parameters parent) qs] (parent :: ids) ∧
      Rebuilt (parent :: old :: ids) (parent :: ids) g (g.linkIn parent done.length old id) ∧
      (g.linkIn parent done.length old id).parent parent = g.parent parent ∧
      (g.linkIn parent done.length old id).children parent = done ++ id :: rest := by
  have placed : id ∈ ids := forest.subset (by simp)
  by_cases same : id = old
  · rw [QueryGraph.linkIn, if_neg (not_not.2 same)]
    subst same
    refine ⟨.of_root inside ?_ (listed.symm ▸ forest) fresh, ?_, rfl, listed⟩
    · intro child member
      rw [listed] at member
      by_cases new : child = id
      · rw [new]
        exact held rfl
      · exact owns child (mem_others member new)
    · exact (Rebuilt.refl g _).widen (List.Subset.refl _) fun i member => .inr (by grind)
  · have here : id < g.size := forest.lt_size id placed
    have outside : id ≠ parent := fun is => fresh (is ▸ placed)
    rw [QueryGraph.linkIn, if_pos same]
    refine ⟨forest.replaceChildAt listed same inside fresh owns once,
      rebuilt_replaceChildAt listed same inside here outside placed, ?_,
      (content_replaceChildAt listed same inside here outside).2.2⟩
    rw [parent_replaceChildAt listed same inside here outside, if_neg (Ne.symm outside)]
    exact if_neg fun both => apart both.1.symm

/-- The forest of the children, one of which has another tree. -/
theorem Rebuilt.joined {before within after within' : List NodeId} {q : Query}
    {qsBefore qsAfter : List Query} (rebuilt : Rebuilt within within' g g')
    (first : Forest g done qsBefore before) (tree : Forest g' [id] [q] within')
    (last : Forest g rest qsAfter after) (beforeWithin : before.Disjoint within)
    (beforeAfter : before.Disjoint after) (withinAfter : within.Disjoint after) :
    Forest g' (done ++ id :: rest) (qsBefore ++ q :: qsAfter) (before ++ (within' ++ after)) := by
  have first' := rebuilt.forest first (List.disjoint_symm beforeWithin)
  have last' := rebuilt.forest last withinAfter
  have apart := rebuilt.apart first.lt_size (List.disjoint_symm beforeWithin)
  have apart' := rebuilt.apart last.lt_size withinAfter
  refine first'.append (tree.append last' apart') ?_
  exact List.disjoint_append_right.2 ⟨List.disjoint_symm apart, beforeAfter⟩

theorem Rebuilt.around {before within after within' : List NodeId}
    (rebuilt : Rebuilt within within' g g') (placed : old ∈ within) :
    Rebuilt (parent :: (before ++ (within ++ after)))
      (parent :: old :: (before ++ (within' ++ after))) g g' := by
  refine rebuilt.widen (fun i member => by simp [member]) fun i member => ?_
  simp only [List.mem_cons, List.mem_append] at member ⊢
  rcases member with is | rfl | member | member | member
  · exact .inr (.inl is)
  · exact .inr (.inr (.inr (.inl placed)))
  · exact .inr (.inr (.inl member))
  · exact .inl member
  · exact .inr (.inr (.inr (.inr member)))

/-- A child's tree is put in the place of the child's: the parent has a tree again, and the rest of
the graph is as it was. -/
theorem Forest.regrow {before within after within' : List NodeId} {q : Query}
    {qsBefore qsAfter : List Query} (inside : parent < g.size)
    (listed : g.children parent = done ++ old :: rest)
    (owns : ∀ child ∈ g.children parent, g.parent child = some parent)
    (first : Forest g done qsBefore before) (placed : old ∈ within)
    (last : Forest g rest qsAfter after)
    (distinct : (parent :: (before ++ (within ++ after))).Nodup)
    (tree : Forest g' [id] [q] within') (rebuilt : Rebuilt within within' g g')
    (held : id = old → g'.parent old = g.parent old) :
    Forest (g'.linkIn parent done.length old id) [parent]
        [.node (g.operator parent) (g.parameters parent) (qsBefore ++ q :: qsAfter)]
        (parent :: (before ++ (within' ++ after))) ∧
      Rebuilt (parent :: (before ++ (within ++ after))) (parent :: (before ++ (within' ++ after))) g
        (g'.linkIn parent done.length old id) ∧
      (g'.linkIn parent done.length old id).parent parent = g.parent parent ∧
      (g'.linkIn parent done.length old id).children parent = done ++ id :: rest := by
  obtain ⟨fresh, distinct⟩ := List.nodup_cons.1 distinct
  obtain ⟨_, distinct, apartBefore⟩ := List.nodup_append'.1 distinct
  obtain ⟨_, _, withinAfter⟩ := List.nodup_append'.1 distinct
  obtain ⟨beforeWithin, beforeAfter⟩ := List.disjoint_append_right.1 apartBefore
  have notBefore : parent ∉ before := fun member => fresh (List.mem_append_left _ member)
  have notWithin : parent ∉ within := fun member =>
    fresh (List.mem_append_right _ (List.mem_append_left _ member))
  have notAfter : parent ∉ after := fun member =>
    fresh (List.mem_append_right _ (List.mem_append_right _ member))
  have notWithin' : parent ∉ within' := fun member =>
    (rebuilt.known parent member).elim notWithin (Nat.not_le.2 inside)
  have same : g'.node parent = g.node parent := rebuilt.kept parent inside notWithin
  have operator : g'.operator parent = g.operator parent := congrArg Node.operator same
  have parameters : g'.parameters parent = g.parameters parent := congrArg Node.parameters same
  have listed' : g'.children parent = done ++ old :: rest :=
    (congrArg Node.children same).trans listed
  have others {child : NodeId} (member : child ∈ done ++ rest) :
      child < g.size ∧ child ∉ within := by
    rcases List.mem_append.1 member with member | member
    · have known := first.subset member
      exact ⟨first.lt_size child known, fun is => beforeWithin known is⟩
    · have known := last.subset member
      exact ⟨last.lt_size child known, fun is => withinAfter is known⟩
  have owned {child : NodeId} (member : child ∈ done ++ old :: rest) :
      g.parent child = some parent := owns child (listed ▸ member)
  have owned' : ∀ child ∈ done ++ rest, g'.parent child = some parent := by
    intro child member
    obtain ⟨small, away⟩ := others member
    have kept : g'.parent child = g.parent child :=
      congrArg Node.parent (rebuilt.kept child small away)
    rw [kept]
    refine owned ?_
    rcases List.mem_append.1 member with member | member
    · exact List.mem_append_left _ member
    · exact List.mem_append_right _ (List.mem_cons_of_mem _ member)
  have joined := rebuilt.joined first tree last beforeWithin beforeAfter withinAfter
  obtain ⟨tree', rebuilt', top, list⟩ := Forest.linkIn listed' joined
    (Nat.lt_of_lt_of_le inside rebuilt.grown) (by simp [notBefore, notWithin', notAfter]) owned'
    (fun is => (held is).trans (owned (by simp))) (fun is => notWithin (is ▸ placed))
    (fun member => (others member).2 placed)
  rw [operator, parameters] at tree'
  exact ⟨tree', (rebuilt.around placed).trans rebuilt', top.trans (congrArg Node.parent same), list⟩

theorem linkIn_self (g : QueryGraph) (parent : NodeId) (position : Nat) (id : NodeId) :
    g.linkIn parent position id id = g := if_neg (not_not.2 rfl)

/-- The tree of a child, and what becomes of the parent's tree if another one takes its place. -/
theorem Forest.around {q₀ : Query} {below : List NodeId}
    (tree : Forest g [parent] [q₀] (parent :: below))
    (listed : g.children parent = done ++ old :: rest) :
    ∃ q qsDone qsRest within,
      q₀ = .node (g.operator parent) (g.parameters parent) (qsDone ++ q :: qsRest) ∧
      qsDone.length = done.length ∧ Forest g [old] [q] within ∧ within ⊆ below ∧
      ∀ {g' : QueryGraph} {id : NodeId} {q' : Query} {within' : List NodeId},
        Forest g' [id] [q'] within' → Rebuilt within within' g g' →
        (id = old → g'.parent old = g.parent old) →
        ∃ below', Forest (g'.linkIn parent done.length old id) [parent]
            [.node (g.operator parent) (g.parameters parent) (qsDone ++ q' :: qsRest)]
            (parent :: below') ∧
          Rebuilt (parent :: below) (parent :: below') g (g'.linkIn parent done.length old id) ∧
          (g'.linkIn parent done.length old id).parent parent = g.parent parent ∧
          (g'.linkIn parent done.length old id).children parent = done ++ id :: rest := by
  obtain ⟨qs, below, rfl, same, inside, owns, children, _⟩ := tree.root_cases
  obtain ⟨_, rfl⟩ := List.cons.inj same
  rw [listed] at children
  obtain ⟨qsDone, qsOthers, before, others, rfl, rfl, length, first, left, _⟩ := children.split
  rw [← List.singleton_append] at left
  obtain ⟨qsOne, qsRest, within, after, rfl, rfl, one, middle, last, _⟩ := left.split
  obtain ⟨q, rfl⟩ := List.length_eq_one_iff.1 one
  refine ⟨q, qsDone, qsRest, within, rfl, length, middle, fun i member => by simp [member], ?_⟩
  intro g' id q' within' tree' rebuilt held
  have placed : old ∈ within := middle.subset (List.mem_singleton_self old)
  exact ⟨_, Forest.regrow inside listed owns first placed last tree.nodup tree' rebuilt held⟩

end Replacement

/-- The graph holds a query: its links agree, and they spell out the query below the root. -/
structure Holds (g : QueryGraph) (q : Query) : Prop where
  top : g.parent g.root = none
  tree : ∃ ids, Forest g [g.root] [q] ids

theorem Holds.toQuery_eq {q : Query} (h : g.Holds q) : g.toQuery = q := by
  obtain ⟨ids, tree⟩ := h.tree
  exact tree.queryAt_eq

theorem Holds.forest {q : Query} (h : g.Holds q) : Forest g [g.root] [q] g.preorder := by
  obtain ⟨ids, tree⟩ := h.tree
  exact tree.preorder_eq ▸ tree

theorem Holds.parent_mem {q : Query} (h : g.Holds q) {i parent : NodeId} (member : i ∈ g.preorder)
    (is : g.parent i = some parent) : parent ∈ g.preorder := by
  have other : i ∉ [g.root] := by
    rw [List.mem_singleton]
    rintro rfl
    rw [h.top] at is
    cases is
  obtain ⟨owner, found, _, owns⟩ := h.forest.exists_owner member other
  exact Option.some.inj (owns.symm.trans is) ▸ found

theorem holds_ofQuery (q : Query) : (ofQuery q).Holds q := by
  obtain ⟨tree, top⟩ := forest_ofQuery q
  exact ⟨top, _, tree⟩

theorem Holds.inside {q : Query} (h : g.Holds q) : g.root < g.size := by
  obtain ⟨ids, tree⟩ := h.tree
  exact tree.root_lt _ (List.mem_singleton_self _)

theorem checkLinks_iff_holds (inside : g.root < g.size) :
    g.checkLinks = true ↔ ∃ q, g.Holds q := by
  rw [checkLinks_iff inside]
  constructor
  · rintro ⟨top, q, ids, tree⟩
    exact ⟨q, top, ids, tree⟩
  · rintro ⟨q, top, ids, tree⟩
    exact ⟨top, q, ids, tree⟩

theorem alike_setRoot {id : NodeId} (here : id < g.size) (i : NodeId) :
    Alike g (g.setRoot id) i := by
  obtain ⟨operator, parameters, list⟩ :=
    (reparented_setParent (g := { g with root := id }) here none).alike i
  exact ⟨operator, parameters, list⟩

theorem size_setRoot (g : QueryGraph) (id : NodeId) : (g.setRoot id).size = g.size :=
  size_modify _ id _

theorem Forest.setRoot {id : NodeId} (tree : Forest g [id] qs ids) :
    Forest (g.setRoot id) [id] qs ids ∧ (g.setRoot id).parent id = none := by
  have here : id < g.size := tree.root_lt id (List.mem_singleton_self _)
  have parents := parent_setParent (g := { g with root := id }) here none
  refine ⟨tree.congr (Nat.le_of_eq (size_setRoot g id).symm) (fun i _ => alike_setRoot here i) ?_,
    ?_⟩
  · intro i _ other
    refine (parents i).trans (if_neg fun same => other ?_)
    exact same ▸ List.mem_singleton_self _
  · exact (parents id).trans (if_pos rfl)

end RankedRetrieval.QueryGraph
