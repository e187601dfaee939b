import Mathlib.Data.Finset.Card
import Mathlib.Data.Finset.Filter
import Mathlib.Logic.Relation
import RankedRetrieval.Proofs.Graph.Rebuilt

set_option autoImplicit false

namespace RankedRetrieval.QueryGraph

abbrev Reaches (g : QueryGraph) : NodeId → NodeId → Prop :=
  Relation.ReflTransGen fun parent child => child ∈ g.children parent

open Classical in
noncomputable def reachCount (g : QueryGraph) (id : NodeId) : Nat :=
  ((Finset.range g.size).filter fun i => g.Reaches id i).card

/-- The order in which a stack gives nodes, the one on top first. The children of the node that it
gives come in its place, the first of them on top. -/
inductive Visits (g : QueryGraph) : List NodeId → List NodeId → Prop
  | done : Visits g [] []
  | next {id : NodeId} {stack order : List NodeId}
      (rest : Visits g (g.children id ++ stack) order) : Visits g (id :: stack) (id :: order)

/-- A query is what is read off below a node, down to where no children are listed. -/
inductive Spells (g : QueryGraph) : NodeId → Query → Prop
  | node {id : NodeId} {children : List Query}
      (below : List.Forall₂ (Spells g) (g.children id) children) :
      Spells g id (.node (g.operator id) (g.parameters id) children)

/-- The nodes that a node reaches are listed by their parents, once, and none lists the node. -/
structure Rooted (g : QueryGraph) (id : NodeId) : Prop where
  inside : id < g.size
  once : ∀ i, g.Reaches id i → (g.children i).Nodup
  owns : ∀ i, g.Reaches id i → ∀ child ∈ g.children i, g.parent child = some i
  top : ∀ i, g.Reaches id i → id ∉ g.children i

variable {g : QueryGraph} {id i j : NodeId} {roots ids : List NodeId} {q : Query} {qs : List Query}

namespace Visits

variable {stack stack' order order' : List NodeId}

theorem append (h : g.Visits stack order) (h' : g.Visits stack' order') :
    g.Visits (stack ++ stack') (order ++ order') := by
  induction h with
  | done => exact h'
  | next _ ih =>
    rw [List.append_assoc] at ih
    exact .next ih

theorem unique (h : g.Visits stack order) (h' : g.Visits stack order') : order' = order := by
  induction h generalizing order' with
  | done =>
    cases h'
    rfl
  | next _ ih =>
    cases h' with
    | next rest => rw [ih rest]

end Visits

namespace Spells

mutual

theorem unique (q : Query) {q' : Query} {id : NodeId} (h : g.Spells id q) (h' : g.Spells id q') :
    q' = q := by
  cases q with
  | node operator parameters children =>
    cases h with
    | node below =>
      cases h' with
      | node below' => rw [unique_all children below below']

theorem unique_all (qs : List Query) {qs' : List Query} {ids : List NodeId}
    (h : List.Forall₂ g.Spells ids qs) (h' : List.Forall₂ g.Spells ids qs') : qs' = qs := by
  cases qs with
  | nil =>
    cases h
    cases h'
    rfl
  | cons q rest =>
    cases h with
    | cons first others =>
      cases h' with
      | cons first' others' => rw [unique q first first', unique_all rest others others']

end

end Spells

namespace Forest

theorem visits (h : Forest g roots qs ids) : g.Visits roots ids := by
  induction h with
  | nil => exact .done
  | cons _ _ _ _ _ _ tree rest => exact .next (tree.append rest)

theorem spells (h : Forest g roots qs ids) : List.Forall₂ g.Spells roots qs := by
  induction h with
  | nil => exact .nil
  | cons _ _ _ _ _ _ tree rest => exact .cons (.node tree) rest

theorem visits_iff (h : Forest g [id] [q] ids) (order : List NodeId) :
    g.Visits [id] order ↔ order = ids :=
  ⟨fun visits => h.visits.unique visits, fun same => same ▸ h.visits⟩

theorem spells_iff (h : Forest g [id] [q] ids) (q' : Query) : g.Spells id q' ↔ q' = q := by
  have here : g.Spells id q := (List.forall₂_cons.1 h.spells).1
  exact ⟨fun spells => here.unique q spells, fun same => same ▸ here⟩

theorem nodup_roots (h : Forest g roots qs ids) : roots.Nodup := by
  induction h with
  | nil => exact List.nodup_nil
  | cons _ _ _ _ rest apart _ ih =>
    exact List.nodup_cons.2 ⟨fun member => apart List.mem_cons_self (rest.subset member), ih⟩

theorem mem_of_reaches (h : Forest g roots qs ids) (member : i ∈ ids) (reaches : g.Reaches i j) :
    j ∈ ids := by
  induction reaches with
  | refl => exact member
  | tail _ listed ih => exact (h.child_mem ih listed).1

theorem exists_root_reaches (h : Forest g roots qs ids) (member : i ∈ ids) :
    ∃ root ∈ roots, g.Reaches root i := by
  induction h with
  | nil => exact absurd member List.not_mem_nil
  | @cons id _ _ _ _ _ _ _ _ _ _ _ ih ih' =>
    rcases List.mem_append.1 member with here | there
    · rcases List.mem_cons.1 here with rfl | deeper
      · exact ⟨i, List.mem_cons_self, .refl⟩
      · obtain ⟨child, listed, reaches⟩ := ih deeper
        exact ⟨id, List.mem_cons_self, .head listed reaches⟩
    · obtain ⟨root, listed, reaches⟩ := ih' there
      exact ⟨root, List.mem_cons_of_mem _ listed, reaches⟩

/-- The nodes of a tree are those that its root reaches. -/
theorem mem_iff_reaches (h : Forest g [id] [q] ids) : i ∈ ids ↔ g.Reaches id i := by
  refine ⟨fun member => ?_, h.mem_of_reaches (h.subset (List.mem_singleton_self id))⟩
  obtain ⟨root, listed, reaches⟩ := h.exists_root_reaches member
  exact List.mem_singleton.1 listed ▸ reaches

theorem rooted (h : Forest g [id] [q] ids) : g.Rooted id where
  inside := h.root_lt id (List.mem_singleton_self id)
  once i reaches := by
    obtain ⟨_, tree⟩ := h.exists_tree (h.mem_iff_reaches.2 reaches)
    obtain ⟨_, _, _, _, _, _, children, _⟩ := tree.root_cases
    exact children.nodup_roots
  owns i reaches child listed := (h.child_mem (h.mem_iff_reaches.2 reaches) listed).2
  top i reaches listed := by
    obtain ⟨_, below, _, rfl, _, _, children, fresh⟩ := h.root_cases
    have member : i ∈ id :: below := h.mem_iff_reaches.2 reaches
    rcases List.mem_cons.1 member with rfl | deeper
    · exact fresh (children.subset listed)
    · exact fresh (children.child_mem deeper listed).1

end Forest

namespace Rooted

variable {a b child child' : NodeId}

theorem comparable (h : g.Rooted id) (reachesA : g.Reaches id a) (reachesB : g.Reaches id b)
    (left : g.Reaches a i) (right : g.Reaches b i) : g.Reaches a b ∨ g.Reaches b a := by
  induction left with
  | refl => exact .inr right
  | @tail k i toK listed ih =>
    rcases right.cases_tail with rfl | ⟨k', toK', listed'⟩
    · exact .inl (toK.tail listed)
    · have one := h.owns k (reachesA.trans toK) i listed
      have other := h.owns k' (reachesB.trans toK') i listed'
      obtain rfl := Option.some.inj (one.symm.trans other)
      exact ih toK'

theorem eq_of_listed (h : g.Rooted id) (reachesA : g.Reaches id a) (reachesB : g.Reaches id b)
    (left : i ∈ g.children a) (right : i ∈ g.children b) : a = b :=
  Option.some.inj ((h.owns a reachesA i left).symm.trans (h.owns b reachesB i right))

theorem not_reaches (h : g.Rooted id) (listed : child ∈ g.children id) : ¬ g.Reaches child id := by
  intro back
  rcases back.cases_tail with rfl | ⟨k, toK, listed'⟩
  · exact h.top id .refl listed
  · exact h.top k (.head listed toK) listed'

theorem below (h : g.Rooted id) (listed : child ∈ g.children id) : g.Rooted child where
  inside := lt_size_of_parent (h.owns id .refl child listed)
  once i reaches := h.once i (.head listed reaches)
  owns i reaches := h.owns i (.head listed reaches)
  top i reaches back := by
    obtain rfl := h.eq_of_listed .refl (.head listed reaches) listed back
    exact h.not_reaches listed reaches

theorem reached (h : g.Rooted id) (reaches : g.Reaches id i) : g.Rooted i := by
  induction reaches with
  | refl => exact h
  | tail _ listed ih => exact ih.below listed

/-- What two children reach is apart. -/
theorem eq_of_reaches (h : g.Rooted id) (left : child ∈ g.children id)
    (right : child' ∈ g.children id) (reaches : g.Reaches child i) (reaches' : g.Reaches child' i) :
    child = child' := by
  have same {c c' : NodeId} (first : c ∈ g.children id) (second : c' ∈ g.children id)
      (between : g.Reaches c c') : c = c' := by
    rcases between.cases_tail with same | ⟨k, toK, listed⟩
    · exact same.symm
    · obtain rfl := h.eq_of_listed .refl (.head first toK) second listed
      exact absurd toK (h.not_reaches first)
  rcases h.comparable (.single left) (.single right) reaches reaches' with between | between
  · exact same left right between
  · exact (same right left between).symm

section Build

theorem reachCount_lt (h : g.Rooted id) (listed : child ∈ g.children id) :
    g.reachCount child < g.reachCount id := by
  classical
  refine Finset.card_lt_card (Finset.ssubset_iff_of_subset ?_ |>.2 ⟨id, ?_, ?_⟩)
  · intro i member
    obtain ⟨small, reaches⟩ := Finset.mem_filter.1 member
    exact Finset.mem_filter.2 ⟨small, .head listed reaches⟩
  · exact Finset.mem_filter.2 ⟨Finset.mem_range.2 h.inside, .refl⟩
  · exact fun member => h.not_reaches listed (Finset.mem_filter.1 member).2

/-- Trees that have no node in common make a forest. -/
theorem exists_forest_of_trees (distinct : roots.Nodup)
    (trees : ∀ root ∈ roots, ∃ q ids, Forest g [root] [q] ids)
    (apart : ∀ root ∈ roots, ∀ root' ∈ roots, ∀ i, g.Reaches root i → g.Reaches root' i →
      root = root') : ∃ qs ids, Forest g roots qs ids := by
  induction roots with
  | nil => exact ⟨[], [], .nil⟩
  | cons root rest ih =>
    obtain ⟨fresh, distinct⟩ := List.nodup_cons.1 distinct
    obtain ⟨⟨q, ids, tree⟩, trees⟩ := List.forall_mem_cons.1 trees
    obtain ⟨qs, ids', forest⟩ := ih distinct trees fun a left b right =>
      apart a (List.mem_cons_of_mem _ left) b (List.mem_cons_of_mem _ right)
    refine ⟨_, _, tree.append forest fun i here there => ?_⟩
    obtain ⟨other, listed, reaches⟩ := forest.exists_root_reaches there
    obtain rfl := apart root List.mem_cons_self other (List.mem_cons_of_mem _ listed) i
      (tree.mem_iff_reaches.1 here) reaches
    exact fresh listed

theorem exists_forest (h : g.Rooted id) : ∃ q ids, Forest g [id] [q] ids := by
  -- a child reaches fewer nodes, as it does not reach its parent
  induction few : g.reachCount id using Nat.strong_induction_on generalizing id with
  | _ n ih =>
    subst few
    obtain ⟨qs, below, forest⟩ := exists_forest_of_trees (h.once id .refl)
      (fun child listed => ih _ (h.reachCount_lt listed) (h.below listed) rfl)
      fun _ left _ right _ => h.eq_of_reaches left right
    refine ⟨_, _, .of_root h.inside (h.owns id .refl) forest fun member => ?_⟩
    obtain ⟨child, listed, reaches⟩ := forest.exists_root_reaches member
    exact h.not_reaches listed reaches

end Build

end Rooted

theorem exists_forest_iff : (∃ q ids, Forest g [id] [q] ids) ↔ g.Rooted id :=
  ⟨fun ⟨_, _, tree⟩ => tree.rooted, Rooted.exists_forest⟩

theorem checkLinks_iff_rooted (inside : g.root < g.size) :
    g.checkLinks = true ↔ g.parent g.root = none ∧ g.Rooted g.root := by
  rw [checkLinks_iff inside, exists_forest_iff]

theorem mem_orderTo_iff (h : g.Rooted id) : i ∈ g.orderTo g.size id ↔ g.Reaches id i := by
  obtain ⟨q, ids, tree⟩ := h.exists_forest
  have order := tree.orderTo_eq tree.sizeAll_le
  rw [List.flatMap_singleton] at order
  rw [order, tree.mem_iff_reaches]

end RankedRetrieval.QueryGraph
