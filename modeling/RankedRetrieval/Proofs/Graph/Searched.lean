import RankedRetrieval.Proofs.Graph.Reached

set_option autoImplicit false

/-!
# The search of the links

The search from the root is followed without a limit on its steps. It ends on every graph, since it
sees a node only once before it stops, and it says whether the graph is a tree: whether each node
that is reached is reached by one path, below its parent (`checkLinks_decides`). The walk that lists
the nodes looks at no node twice then, though it does not remember which it has seen.
-/

namespace RankedRetrieval.QueryGraph

/-- How the search goes on from the nodes it has seen and those on its stack, to what it says. -/
inductive Searches (g : QueryGraph) : List NodeId → List NodeId → Bool → Prop
  | done {seen : List NodeId} : Searches g seen [] true
  | again {id : NodeId} {seen stack : List NodeId} (known : id ∈ seen) :
      Searches g seen (id :: stack) false
  | foreign {id : NodeId} {seen stack : List NodeId} (fresh : id ∉ seen)
      (foreign : g.ownsChildren id = false) : Searches g seen (id :: stack) false
  | next {id : NodeId} {seen stack : List NodeId} {answer : Bool} (fresh : id ∉ seen)
      (owns : g.ownsChildren id = true)
      (rest : Searches g (id :: seen) ((g.children id).reverse ++ stack) answer) :
      Searches g seen (id :: stack) answer

/-- What the check of a graph comes to. The search starts at a root without a parent only. -/
inductive Checks (g : QueryGraph) : Bool → Prop
  | parented (parent : g.parent g.root ≠ none) : Checks g false
  | searched {answer : Bool} (top : g.parent g.root = none)
      (search : g.Searches [] [g.root] answer) : Checks g answer

/-- The node at the end of a path, which takes the child at each place in turn. -/
def follow (g : QueryGraph) : NodeId → List Nat → Option NodeId
  | id, [] => some id
  | id, place :: path => ((g.children id)[place]?).bind fun child => g.follow child path

/-- One path leads to each node that the root reaches, and it passes through the node's parent. -/
structure Treelike (g : QueryGraph) : Prop where
  top : g.parent g.root = none
  single : ∀ i, g.Reaches g.root i → ∃! path, g.follow g.root path = some i
  linked : ∀ i, g.Reaches g.root i → ∀ child ∈ g.children i, child ≠ g.root →
    g.parent child = some i

variable {g : QueryGraph} {id i child : NodeId} {answer answer' : Bool}

section Search

variable {seen stack : List NodeId}

theorem Searches.unique (h : g.Searches seen stack answer) (h' : g.Searches seen stack answer') :
    answer' = answer := by
  induction h generalizing answer' with
  | done =>
    cases h'
    rfl
  | again known =>
    cases h' with
    | again => rfl
    | foreign => rfl
    | next fresh => exact absurd known fresh
  | foreign fresh foreign =>
    cases h' with
    | again => rfl
    | foreign => rfl
    | next _ owns =>
      rw [foreign] at owns
      cases owns
  | next fresh owns _ ih =>
    cases h' with
    | again known => exact absurd known fresh
    | foreign _ foreign =>
      rw [owns] at foreign
      cases foreign
    | next _ _ rest => exact ih rest

theorem mem_of_all_seen (distinct : seen.Nodup) (within : ∀ i ∈ seen, i < g.size)
    (all : g.size ≤ seen.length) (inside : id < g.size) : id ∈ seen := by
  have short : seen ⊆ List.range g.size := fun i member => List.mem_range.2 (within i member)
  have perm := (distinct.subperm short).perm_of_length_le (by rwa [List.length_range])
  exact perm.mem_iff.2 (List.mem_range.2 inside)

/-- The search ends within the steps it is given: with none left it has seen all nodes, so that it
meets one again. -/
theorem searches_searchLinks {fuel : Nat} (distinct : seen.Nodup) (within : ∀ i ∈ seen, i < g.size)
    (enough : g.size ≤ fuel + seen.length) (inside : ∀ i ∈ stack, i < g.size) :
    g.Searches seen stack (g.searchLinks fuel seen stack) := by
  fun_induction searchLinks g fuel seen stack with
  | case1 fuel seen => exact .done
  | case2 seen id stack =>
    refine .again (mem_of_all_seen distinct within ?_ (inside id List.mem_cons_self))
    rwa [Nat.zero_add] at enough
  | case3 fuel seen id stack ih =>
    obtain ⟨first, others⟩ := List.forall_mem_cons.1 inside
    by_cases known : id ∈ seen
    · have stops : (!seen.contains id) = false := by simp [known]
      rw [stops]
      exact .again known
    · have goes : (!seen.contains id) = true := by simp [known]
      rw [goes]
      cases owns : g.ownsChildren id with
      | false => exact .foreign known owns
      | true =>
        have children : ∀ child ∈ (g.children id).reverse ++ stack, child < g.size := by
          refine List.forall_mem_append.2 ⟨fun child listed => ?_, others⟩
          exact lt_size_of_parent (ownsChildren_iff.1 owns child (List.mem_reverse.1 listed))
        refine .next known owns (ih (List.nodup_cons.2 ⟨known, distinct⟩)
          (List.forall_mem_cons.2 ⟨first, within⟩) ?_ children)
        rw [List.length_cons]
        omega

theorem checks_iff (inside : g.root < g.size) : g.Checks answer ↔ g.checkLinks = answer := by
  have search : g.Searches [] [g.root] (g.searchLinks g.size [] [g.root]) :=
    searches_searchLinks List.nodup_nil (List.forall_mem_nil _) (Nat.le_add_right _ _)
      (List.forall_mem_singleton.2 inside)
  unfold checkLinks
  cases top : g.parent g.root with
  | none =>
    constructor
    · rintro (parent | ⟨_, search'⟩)
      · exact absurd top parent
      · exact (search.unique search').symm
    · rintro rfl
      exact .searched top search
  | some parent =>
    constructor
    · rintro (_ | ⟨none, _⟩)
      · rfl
      · rw [top] at none
        cases none
    · rintro rfl
      refine .parented ?_
      rw [top]
      exact Option.some_ne_none parent

end Search

section Path

variable {path path' : List Nat} {place : Nat}

theorem follow_append (id : NodeId) (path path' : List Nat) :
    g.follow id (path ++ path') = (g.follow id path).bind fun i => g.follow i path' := by
  induction path generalizing id with
  | nil => rfl
  | cons place path ih =>
    rw [List.cons_append, follow, follow, Option.bind_assoc]
    exact congrArg _ (funext ih)

theorem follow_concat (id : NodeId) (path : List Nat) (place : Nat) :
    g.follow id (path ++ [place]) = (g.follow id path).bind fun i => (g.children i)[place]? := by
  rw [follow_append]
  refine congrArg _ (funext fun i => ?_)
  cases at_ : (g.children i)[place]? <;> simp [follow, at_]

theorem follow_concat_eq_some :
    g.follow id (path ++ [place]) = some child ↔
      ∃ i, g.follow id path = some i ∧ (g.children i)[place]? = some child := by
  rw [follow_concat, Option.bind_eq_some_iff]

theorem reaches_of_follow (h : g.follow id path = some i) : g.Reaches id i := by
  induction path using List.reverseRecOn generalizing i with
  | nil =>
    obtain rfl := Option.some.inj h
    exact .refl
  | append_singleton path place ih =>
    obtain ⟨k, there, listed⟩ := follow_concat_eq_some.1 h
    exact (ih there).tail (List.mem_of_getElem? listed)

theorem exists_follow (h : g.Reaches id i) : ∃ path, g.follow id path = some i := by
  induction h with
  | refl => exact ⟨[], rfl⟩
  | tail _ listed ih =>
    obtain ⟨path, there⟩ := ih
    obtain ⟨place, at_⟩ := List.mem_iff_getElem?.1 listed
    exact ⟨path ++ [place], follow_concat_eq_some.2 ⟨_, there, at_⟩⟩

theorem Rooted.eq_of_follow (h : g.Rooted id) (left : g.follow id path = some i)
    (right : g.follow id path' = some i) : path = path' := by
  -- from the end, as it is the node at the end that has one parent
  induction path using List.reverseRecOn generalizing i path' with
  | nil =>
    obtain rfl := Option.some.inj left
    rcases List.eq_nil_or_concat path' with rfl | ⟨path', place, rfl⟩
    · rfl
    · rw [List.concat_eq_append] at right
      obtain ⟨k, there, listed⟩ := follow_concat_eq_some.1 right
      exact absurd (List.mem_of_getElem? listed) (h.top k (reaches_of_follow there))
  | append_singleton path place ih =>
    obtain ⟨k, there, listed⟩ := follow_concat_eq_some.1 left
    have reached := reaches_of_follow there
    rcases List.eq_nil_or_concat path' with rfl | ⟨path', place', rfl⟩
    · obtain rfl := Option.some.inj right
      exact absurd (List.mem_of_getElem? listed) (h.top k reached)
    · rw [List.concat_eq_append] at right ⊢
      obtain ⟨k', there', listed'⟩ := follow_concat_eq_some.1 right
      obtain rfl := h.eq_of_listed reached (reaches_of_follow there') (List.mem_of_getElem? listed)
        (List.mem_of_getElem? listed')
      have short := (List.getElem?_eq_some_iff.1 listed).1
      have same := (List.getElem?_inj short (h.once k reached)).1 (listed.trans listed'.symm)
      rw [ih there there', same]

end Path

namespace Treelike

theorem eq_of_follow (h : g.Treelike) {path path' : List Nat}
    (left : g.follow g.root path = some i) (right : g.follow g.root path' = some i) :
    path = path' :=
  (h.single i (reaches_of_follow left)).unique left right

theorem root_not_listed (h : g.Treelike) (reaches : g.Reaches g.root i) :
    g.root ∉ g.children i := by
  intro listed
  obtain ⟨path, there⟩ := exists_follow reaches
  obtain ⟨place, at_⟩ := List.mem_iff_getElem?.1 listed
  have back := follow_concat_eq_some.2 ⟨i, there, at_⟩
  have none : [] = path ++ [place] := h.eq_of_follow rfl back
  exact List.append_ne_nil_of_right_ne_nil path (List.cons_ne_nil place []) none.symm

theorem nodup_children (h : g.Treelike) (reaches : g.Reaches g.root i) : (g.children i).Nodup := by
  obtain ⟨path, there⟩ := exists_follow reaches
  refine List.nodup_iff_injective_getElem.2 fun a b (same : (g.children i)[a] = _) => ?_
  have left := follow_concat_eq_some.2 ⟨i, there, List.getElem?_eq_getElem a.isLt⟩
  have right := follow_concat_eq_some.2 ⟨i, there, List.getElem?_eq_getElem b.isLt⟩
  have paths := h.eq_of_follow (left.trans (congrArg some same)) right
  exact Fin.ext (List.singleton_inj.1 (List.append_cancel_left paths))

theorem rooted (h : g.Treelike) (inside : g.root < g.size) : g.Rooted g.root where
  inside := inside
  once _ reaches := h.nodup_children reaches
  owns i reaches child listed := by
    refine h.linked i reaches child listed ?_
    rintro rfl
    exact h.root_not_listed reaches listed
  top _ reaches := h.root_not_listed reaches

end Treelike

theorem Rooted.treelike (h : g.Rooted g.root) (top : g.parent g.root = none) : g.Treelike where
  top := top
  single i reaches := by
    obtain ⟨path, there⟩ := exists_follow reaches
    exact ⟨path, there, fun path' other => h.eq_of_follow other there⟩
  linked i reaches child listed _ := h.owns i reaches child listed

theorem treelike_iff (inside : g.root < g.size) :
    g.Treelike ↔ g.parent g.root = none ∧ g.Rooted g.root :=
  ⟨fun h => ⟨h.top, h.rooted inside⟩, fun ⟨top, h⟩ => h.treelike top⟩

theorem Forest.sublist_child {roots ids : List NodeId} {qs : List Query}
    (h : Forest g roots qs ids) (member : i ∈ ids) (listed : child ∈ g.children i) :
    [i, child].Sublist ids := by
  induction h with
  | nil => exact absurd member List.not_mem_nil
  | @cons id _ below beside _ _ _ _ tree _ _ _ ih ih' =>
    rcases List.mem_append.1 member with here | there
    · refine List.Sublist.trans ?_ (List.sublist_append_left (id :: below) beside)
      rcases List.mem_cons.1 here with rfl | deeper
      · exact (List.singleton_sublist.2 (tree.subset listed)).cons_cons i
      · exact (ih deeper).cons id
    · exact (ih' there).trans (List.sublist_append_right (id :: below) beside)

/-- The search ends on every graph, and finds exactly the graphs whose nodes are each reached by one
path, below their parents. The walk from the root then ends, and lists each node that is reached
once, parents before children. -/
theorem checkLinks_decides (g : QueryGraph) (inside : g.root < g.size) :
    (∀ answer, g.Checks answer ↔ g.checkLinks = answer) ∧
      (g.checkLinks = true ↔ g.Treelike) ∧
      (g.checkLinks = true →
        (∀ order, g.Visits [g.root] order ↔ order = g.preorder) ∧ g.preorder.Nodup ∧
          (∀ i, i ∈ g.preorder ↔ g.Reaches g.root i) ∧
          ∀ i, g.Reaches g.root i → ∀ child ∈ g.children i, [i, child].Sublist g.preorder) := by
  refine ⟨fun answer => checks_iff inside, ?_, fun agree => ?_⟩
  · rw [checkLinks_iff_rooted inside, treelike_iff inside]
  · obtain ⟨q, ids, tree⟩ := ((checkLinks_iff_rooted inside).1 agree).2.exists_forest
    rw [tree.preorder_eq]
    exact ⟨tree.visits_iff, tree.nodup, fun i => tree.mem_iff_reaches,
      fun i reaches child listed => tree.sublist_child (tree.mem_iff_reaches.2 reaches) listed⟩

section Example

def branching (others : List NodeId) : QueryGraph where
  nodes := #[
    { operator := "combine", parameters := .empty, children := [1, 2], parent := none },
    { operator := "log", parameters := .empty, children := [3], parent := some 0 },
    { operator := "scale", parameters := .empty, children := others, parent := some 0 },
    { operator := "prior", parameters := .empty, children := [], parent := some 1 }]
  root := 0

/-- With nothing else listed this is a tree; with node 3 listed by both, or with the root listed
again, it is none. -/
theorem checkLinks_decides_branching :
    (branching []).root < (branching []).size ∧ (branching []).Treelike ∧
      (branching []).Visits [0] [0, 1, 3, 2] ∧
      (branching [3]).root < (branching [3]).size ∧ ¬ (branching [3]).Treelike ∧
      (branching [0]).root < (branching [0]).size ∧ (branching [0]).Checks false := by
  obtain ⟨_, tree, walks⟩ := checkLinks_decides (branching []) (by decide)
  obtain ⟨_, shared, _⟩ := checkLinks_decides (branching [3]) (by decide)
  obtain ⟨cyclic, _⟩ := checkLinks_decides (branching [0]) (by decide)
  have agree : (branching []).checkLinks = true := by decide
  have apart : (branching [3]).checkLinks = false := by decide
  refine ⟨by decide, tree.1 agree, ((walks agree).1 _).2 (by decide), by decide, ?_, by decide,
    (cyclic false).2 (by decide)⟩
  rw [← shared, apart]
  exact Bool.false_ne_true

end Example

end RankedRetrieval.QueryGraph
