import RankedRetrieval.Proofs.Preparation.Stable

set_option autoImplicit false

/-!
# Scopes stand at boundaries

Marking scopes puts wrappers into a graph, and the other nodes that are reached stay those that were
(`Marked`). A wrapper can be asked what its child can be, so the other nodes go on meaning what they
did, however many of them have been visited (`Marked.meaning_eq`). So every wrapper stands where, in
the graph as it was, something is read otherwise, and none is missing (`marksBoundaries_run`).
-/

namespace RankedRetrieval.QueryGraph

/-- What is left of the query below a node, to a depth, without the nodes numbered from `first`
on. -/
def withoutTo (g : QueryGraph) (first : NodeId) : Nat → NodeId → List Query
  | 0, _ => []
  | depth + 1, id =>
    let below := (g.children id).flatMap (g.withoutTo first depth)
    if id < first then [.node (g.operator id) (g.parameters id) below] else below

def without (g : QueryGraph) (first : NodeId) : List Query := g.withoutTo first g.size g.root

end RankedRetrieval.QueryGraph

namespace RankedRetrieval.Preparation

open QueryGraph Vocabulary Pass

def meaningAt (g : QueryGraph) (id : NodeId) : Meaning := builtIn.meaning (g.queryAt id)

def aboveAt (g : QueryGraph) (id : NodeId) : Option Meaning := (g.parent id).map (meaningAt g)

/-- What a node can be asked is not asked of its parent, if it has one. -/
def AtBoundary (g : QueryGraph) (id : NodeId) (c : Capability) : Prop :=
  ∀ parent, g.parent id = some parent → (meaningAt g parent).has c = false

inductive PassageScope.Restricts (scope : PassageScope) : String → Capability → Form → Prop
  | lengths (on : scope.lengths = true) :
      Restricts scope "passage-length" .length .passageLength
  | extents (on : scope.extents = true) :
      Restricts scope "passage-filter" .extent .passageFilter

/-- A node stands at a boundary and marks what the node directly below it, of another form, can be
asked. -/
structure MarksBoundary (scope : PassageScope) (g : QueryGraph) (id child : NodeId)
    (c : Capability) (form : Form) : Prop where
  restricts : scope.Restricts (g.operator id) c form
  parameters : g.parameters id = .empty
  children : g.children id = [child]
  form_eq : (meaningAt g id).form = form
  has : (meaningAt g id).has c = true
  boundary : AtBoundary g id c
  below : (meaningAt g child).has c = true
  other : (meaningAt g child).form ≠ form

/-- The nodes that a graph has more than another are wrappers, and they are put where they must
be. -/
structure MarksBoundaries (scope : PassageScope) (g g' : QueryGraph) : Prop where
  links : g'.checkLinks = true
  known : builtIn.Knows g'.toQuery
  /-- Without the new nodes there is the query that there was. -/
  kept : g'.without g.size = [g.toQuery]
  /-- At each boundary there is a node of the form that marks it. -/
  complete : ∀ id ∈ g'.preorder, ∀ {operator : String} {c : Capability} {form : Form},
    scope.Restricts operator c form → (meaningAt g' id).has c = true → AtBoundary g' id c →
    (meaningAt g' id).form = form
  /-- Each new node stands at a boundary, above a node that there was. -/
  placed : ∀ id ∈ g'.preorder, g.size ≤ id →
    ∃ child c form, child < g.size ∧ MarksBoundary scope g' id child c form
  /-- No two new nodes stand above one node. -/
  single : ∀ id ∈ g'.preorder, ∀ id' ∈ g'.preorder, g.size ≤ id → g.size ≤ id' →
    g'.children id = g'.children id' → id = id'

section Wrappers

variable {scope : PassageScope} {operator : String} {parameters : Parameters} {c : Capability}
  {form : Form} {q : Query} {children children' : List Query}

theorem PassageScope.Restricts.meaning_eq (h : scope.Restricts operator c form) :
    builtIn.meaning (.node operator parameters children) = { capabilities := c.offers, form } := by
  cases h with
  | lengths _ => exact meaning_passageLength
  | extents _ => exact meaning_passageFilter

theorem PassageScope.Restricts.knows (h : scope.Restricts operator c form)
    (known : builtIn.Knows q) : builtIn.Knows (.node operator parameters [q]) := by
  cases h <;> exact .single rfl known

/-- What a wrapper marks is all that can be asked below it. -/
theorem PassageScope.Restricts.asked_eq (h : scope.Restricts operator c form)
    (known : builtIn.Knows q) (has : (builtIn.meaning q).has c = true) :
    builtIn.asked q = c.offers := by
  obtain ⟨_, extent, length⟩ := asked_builtIn known
  cases h with
  | lengths _ => exact length has
  | extents _ => exact extent has

theorem PassageScope.Restricts.has_offers (h : scope.Restricts operator c form) :
    c.offers.has c = true := by
  cases h <;> rfl

/-- Where nothing crosses a boundary, what could cross it is of the form that marks it. -/
theorem form_eq_of_crosses {above : Option Meaning} {m : Meaning}
    (h : crosses above m true c form = false) (has : m.has c = true)
    (without : ∀ parent ∈ above, parent.has .indicator = true ∧ parent.has c = false) :
    m.form = form := by
  refine Classical.not_not.1 fun other => Bool.eq_false_iff.1 h ?_
  rw [crosses, has, Bool.and_true, Bool.true_and, Bool.and_eq_true, Option.all_eq_true]
  refine ⟨bne_iff_ne.2 other, fun parent is => ?_⟩
  obtain ⟨some, none⟩ := without parent is
  have asked : Capability.indicator ∈ parent.capabilities.toList :=
    List.mem_filter.2 ⟨by decide, some⟩
  rw [none, Bool.not_false, Bool.and_true, Bool.not_eq_true', Capabilities.isEmpty,
    List.isEmpty_eq_false_iff]
  exact List.ne_nil_of_mem asked

theorem PassageScope.Restricts.crosses_eq_false (h : scope.Restricts operator c form)
    (on : scope.enabled = true) {above : Option Meaning} (inScope : InScope scope above q) :
    crosses above (builtIn.meaning q) true c form = false := by
  obtain ⟨lengths, extents⟩ := inScope on
  cases h with
  | lengths wanted => exact wanted ▸ lengths
  | extents wanted => exact wanted ▸ extents

/-- A node of a known query that gets children which can be asked the same. -/
theorem meaning_node (known : builtIn.Knows (.node operator parameters children))
    (known' : ∀ q ∈ children', builtIn.Knows q)
    (same : children'.map builtIn.asked = children.map builtIn.asked) :
    builtIn.Knows (.node operator parameters children') ∧
      builtIn.meaning (.node operator parameters children') =
        builtIn.meaning (.node operator parameters children) := by
  cases known with
  | node rule below => exact ⟨.node rule known', meaning_congr rule below known' fun _ _ _ => same⟩

/-- What crosses a boundary is of another form, and the parent cannot be asked it. -/
theorem of_crosses {above : Option Meaning} {m : Meaning} {wanted : Bool}
    (h : crosses above m wanted c form = true) :
    wanted = true ∧ m.form ≠ form ∧ ∀ parent ∈ above, parent.has c = false := by
  rw [crosses, Bool.and_eq_true, Bool.and_eq_true, Bool.and_eq_true, Option.all_eq_true] at h
  obtain ⟨⟨⟨wanted, _⟩, other⟩, all⟩ := h
  refine ⟨wanted, bne_iff_ne.1 other, fun parent is => ?_⟩
  have without := all parent is
  rw [Bool.and_eq_true, Bool.not_eq_true', Bool.not_eq_true'] at without
  exact without.2

end Wrappers

structure Marks (scope : PassageScope) (base g : QueryGraph) (child id : NodeId) : Prop where
  old : child ∈ base.preorder
  new : base.size ≤ id
  inside : id < g.size
  children : g.children id = [child]
  parameters : g.parameters id = .empty
  needed : ∃ c form, scope.Restricts (g.operator id) c form ∧
    crosses (aboveAt base child) (meaningAt base child) true c form = true

abbrev Stands (scope : PassageScope) (base g : QueryGraph) (child id : NodeId) : Prop :=
  id = child ∨ Marks scope base g child id

structure Marked (scope : PassageScope) (base g : QueryGraph) : Prop where
  grown : base.size ≤ g.size
  operator : ∀ i ∈ base.preorder, g.operator i = base.operator i
  parameters : ∀ i ∈ base.preorder, g.parameters i = base.parameters i
  children : ∀ i ∈ base.preorder,
    List.Forall₂ (Stands scope base g) (base.children i) (g.children i)

section Marking

variable {scope : PassageScope} {base g g' : QueryGraph} {i id child : NodeId} {query : Query}

theorem Marked.refl (scope : PassageScope) (base : QueryGraph) : Marked scope base base where
  grown := Nat.le_refl _
  operator _ _ := rfl
  parameters _ _ := rfl
  children _ _ := List.forall₂_same.2 fun _ _ => .inl rfl

theorem Stands.congr (h : Stands scope base g child id) (grown : g.size ≤ g'.size)
    (alike : base.size ≤ id → id < g.size → Alike g g' id) : Stands scope base g' child id := by
  refine h.imp_right fun marks => ?_
  obtain ⟨operator, parameters, children⟩ := alike marks.new marks.inside
  exact ⟨marks.old, marks.new, Nat.lt_of_lt_of_le marks.inside grown,
    children.trans marks.children, parameters.trans marks.parameters, operator ▸ marks.needed⟩

theorem Stands.eq_of_lt (h : Stands scope base g child id) (old : id < base.size) : id = child :=
  h.resolve_right fun marks => absurd old (Nat.not_lt.2 marks.new)

/-- One of two related lists may have something else in a place, if it is related to the same. -/
theorem exists_replace {β γ : Type} {R : β → γ → Prop} {xs : List β} {before after : List γ} {y : γ}
    (h : List.Forall₂ R xs (before ++ y :: after)) :
    ∃ x ∈ xs, R x y ∧ ∀ y', R x y' → List.Forall₂ R xs (before ++ y' :: after) := by
  induction before generalizing xs with
  | nil =>
    cases h with
    | cons here others => exact ⟨_, List.mem_cons_self, here, fun _ here' => .cons here' others⟩
  | cons z before ih =>
    cases h with
    | cons first others =>
      obtain ⟨x, member, here, replaced⟩ := ih others
      exact ⟨x, List.mem_cons_of_mem _ member, here,
        fun y' here' => .cons first (replaced y' here')⟩

theorem Marked.congr (h : Marked scope base g) (holds : base.Holds query)
    (grown : g.size ≤ g'.size) (alike : ∀ i < g.size, Alike g g' i) : Marked scope base g' := by
  have there (i : NodeId) (member : i ∈ base.preorder) : Alike g g' i :=
    alike i (Nat.lt_of_lt_of_le (holds.forest.lt_size i member) h.grown)
  refine ⟨Nat.le_trans h.grown grown, fun i member => ?_, fun i member => ?_, fun i member => ?_⟩
  · exact (there i member).operator.trans (h.operator i member)
  · exact (there i member).parameters.trans (h.parameters i member)
  · rw [(there i member).children]
    exact (h.children i member).imp fun _ _ stands =>
      stands.congr grown fun _ inside => alike _ inside

/-- A node that a wrapper marks gives way to it in the list of its parent. -/
theorem Marked.linkIn (h : Marked scope base g) (holds : base.Holds query) {parent old : NodeId}
    {done rest : List NodeId} (member : parent ∈ base.preorder)
    (listed : g.children parent = done ++ old :: rest) (there : old ∈ base.preorder)
    (stands : Stands scope base g old id) :
    Marked scope base (g.linkIn parent done.length old id) := by
  by_cases same : id = old
  · rw [same, linkIn_self]
    exact h
  · have marks : Marks scope base g old id := stands.resolve_left same
    have small := holds.forest.lt_size parent member
    have inside : parent < g.size := Nat.lt_of_lt_of_le small h.grown
    have apart : id ≠ parent := fun is => absurd small (Nat.not_lt.2 (is ▸ marks.new))
    have size : (g.linkIn parent done.length old id).size = g.size := size_linkIn listed
    have alike {i : NodeId} (outside : i ≠ parent) :=
      alike_linkIn listed inside marks.inside apart outside
    obtain ⟨operator, parameters, children⟩ := content_linkIn listed inside marks.inside apart
    have moved {child i : NodeId} (stands : Stands scope base g child i) :
        Stands scope base (g.linkIn parent done.length old id) child i :=
      stands.congr (Nat.le_of_eq size.symm) fun new _ =>
        alike fun is => absurd small (Nat.not_lt.2 (is ▸ new))
    refine ⟨Nat.le_trans h.grown (Nat.le_of_eq size.symm), fun i inner => ?_, fun i inner => ?_,
      fun i inner => ?_⟩
    · by_cases here : i = parent
      · rw [here, operator, h.operator parent member]
      · rw [(alike here).operator, h.operator i inner]
    · by_cases here : i = parent
      · rw [here, parameters, h.parameters parent member]
      · rw [(alike here).parameters, h.parameters i inner]
    · by_cases here : i = parent
      · have lists := h.children parent member
        rw [listed] at lists
        obtain ⟨child, _, held, replaced⟩ := exists_replace lists
        obtain rfl := held.eq_of_lt (holds.forest.lt_size old there)
        rw [here, children]
        exact (replaced id stands).imp fun _ _ => moved
      · rw [(alike here).children]
        exact (h.children i inner).imp fun _ _ => moved

theorem Marked.root_cases (h : Marked scope base g) (member : child ∈ base.preorder)
    (stands : Stands scope base g child id) {q : Query} {ids : List NodeId}
    (there : Forest g [id] [q] ids) :
    ∃ qs below, Forest g (g.children child) qs below ∧
      (id = child ∧ q = .node (base.operator child) (base.parameters child) qs ∨
        Marks scope base g child id ∧
          q = .node (g.operator id) .empty
            [.node (base.operator child) (base.parameters child) qs]) := by
  obtain ⟨qs, below, rfl, _, _, _, children, _⟩ := there.root_cases
  rcases stands with rfl | marks
  · refine ⟨qs, below, children, .inl ⟨rfl, ?_⟩⟩
    rw [h.operator id member, h.parameters id member]
  · rw [marks.children] at children
    have one := congrArg List.length children.map_queryAt_eq
    obtain ⟨_, rfl⟩ := List.length_eq_one_iff.1 one.symm
    obtain ⟨qs, below, rfl, _, _, _, children, _⟩ := children.root_cases
    refine ⟨qs, below, children, .inr ⟨marks, ?_⟩⟩
    rw [marks.parameters, h.operator child member, h.parameters child member]

/-- What stands in the places of known queries is known, and can be asked the same. -/
theorem Marked.agrees (h : Marked scope base g) {roots₀ roots ids₀ ids : List NodeId}
    {qs₀ qs : List Query} (before : Forest base roots₀ qs₀ ids₀) (within : ids₀ ⊆ base.preorder)
    (known : ∀ q ∈ qs₀, builtIn.Knows q)
    (stands : List.Forall₂ (Stands scope base g) roots₀ roots) (there : Forest g roots qs ids) :
    (∀ q ∈ qs, builtIn.Knows q) ∧ qs.map builtIn.asked = qs₀.map builtIn.asked := by
  -- along the graph as it was: a wrapper has no node of its own there
  induction before generalizing roots qs ids with
  | nil =>
    cases stands
    cases there
    exact ⟨List.forall_mem_nil _, rfl⟩
  | @cons child roots₀ below₀ beside₀ qsBelow₀ others₀ inside₀ owns₀ tree₀ fresh₀ _ _ ih ih' =>
    cases stands with
    | @cons _ id _ roots here others =>
      cases there with
      | @cons _ _ below beside children' others' inside owns tree fresh rest _ =>
        obtain ⟨knownHere, knownOthers⟩ := List.forall_mem_cons.1 known
        have member : child ∈ base.preorder := within (by simp)
        obtain ⟨qs, ids, forest, cases⟩ :=
          h.root_cases member here (.of_root inside owns tree fresh)
        obtain ⟨knownBelow, askedBelow⟩ := ih (fun i inner => within (by simp [inner]))
          knownHere.child (h.children child member) forest
        obtain ⟨knownBeside, askedBeside⟩ :=
          ih' (fun i inner => within (by simp [inner])) knownOthers others rest
        obtain ⟨knows, same⟩ := meaning_node knownHere knownBelow askedBelow
        have asked := congrArg Meaning.capabilities same
        rcases cases with ⟨_, is⟩ | ⟨marks, is⟩
        · rw [is, List.map_cons, List.map_cons, askedBeside]
          exact ⟨List.forall_mem_cons.2 ⟨knows, knownBeside⟩, congrArg (· :: _) asked⟩
        · obtain ⟨c, form, restricts, needed⟩ := marks.needed
          have there₀ := Forest.of_root inside₀ owns₀ tree₀ fresh₀
          have has := has_of_crosses needed
          rw [meaningAt, there₀.queryAt_eq] at has
          rw [is, List.map_cons, List.map_cons, askedBeside, restricts.asked_eq knownHere has,
            Vocabulary.asked, restricts.meaning_eq]
          exact ⟨List.forall_mem_cons.2 ⟨restricts.knows knows, knownBeside⟩, rfl⟩

/-- Every node reached from nodes that stand somewhere is one that there was or a wrapper of such
a node. -/
theorem Marked.exists_marks (h : Marked scope base g) (holds : base.Holds query)
    {roots ids : List NodeId} {qs : List Query} (there : Forest g roots qs ids)
    (stands : ∀ id ∈ roots, ∃ child ∈ base.preorder, Stands scope base g child id) :
    ∀ i ∈ ids, i ∈ base.preorder ∨ ∃ child, Marks scope base g child i := by
  induction there with
  | nil => exact List.forall_mem_nil _
  | @cons id roots below beside children others _ _ _ _ _ _ ih ih' =>
    obtain ⟨⟨child, member, here⟩, rest⟩ := List.forall_mem_cons.1 stands
    refine List.forall_mem_append.2 ⟨List.forall_mem_cons.2 ⟨?_, ih ?_⟩, ih' rest⟩
    · rcases here with rfl | marks
      · exact .inl member
      · exact .inr ⟨child, marks⟩
    · intro i inner
      rcases here with rfl | marks
      · obtain ⟨before, after, listed⟩ := List.append_of_mem inner
        obtain ⟨child, inside, stands, _⟩ := exists_replace (listed ▸ h.children id member)
        exact ⟨child, (holds.forest.child_mem member inside).1, stands⟩
      · rw [marks.children, List.mem_singleton] at inner
        exact ⟨child, member, .inl inner⟩

/-- Without the wrappers there are the queries that there were. -/
theorem Marked.withoutTo_eq (h : Marked scope base g) {roots₀ roots ids₀ ids : List NodeId}
    {qs₀ qs : List Query} (before : Forest base roots₀ qs₀ ids₀) (within : ids₀ ⊆ base.preorder)
    (stands : List.Forall₂ (Stands scope base g) roots₀ roots) (there : Forest g roots qs ids)
    {depth : Nat} (deep : Query.sizeAll qs ≤ depth) :
    roots.flatMap (g.withoutTo base.size depth) = qs₀ := by
  induction before generalizing roots qs ids depth with
  | nil =>
    cases stands
    rfl
  | @cons child roots₀ below₀ beside₀ qsBelow₀ others₀ inside₀ owns₀ tree₀ fresh₀ _ _ ih ih' =>
    cases stands with
    | @cons _ id _ roots here others =>
      cases there with
      | @cons _ _ below beside children' others' inside owns tree fresh rest _ =>
        have member : child ∈ base.preorder := within (by simp)
        obtain ⟨qs, ids, forest, cases⟩ :=
          h.root_cases member here (.of_root inside owns tree fresh)
        have below {depth : Nat} (deep : Query.sizeAll qs ≤ depth) :=
          ih (fun i inner => within (by simp [inner])) (h.children child member) forest deep
        have itself {depth : Nat} (deep : Query.sizeAll qs ≤ depth) :
            g.withoutTo base.size (depth + 1) child =
              [.node (base.operator child) (base.parameters child) qsBelow₀] := by
          rw [withoutTo, below deep, h.operator child member, h.parameters child member]
          exact if_pos inside₀
        rw [Query.sizeAll] at deep
        -- the child stands for itself, or one wrapper does, which costs one more level
        have first : g.withoutTo base.size depth id =
            [.node (base.operator child) (base.parameters child) qsBelow₀] := by
          rcases cases with ⟨rfl, is⟩ | ⟨marks, is⟩
          · rw [is, Query.size] at deep
            obtain ⟨depth, rfl⟩ : ∃ less, depth = less + 1 := ⟨depth - 1, by omega⟩
            exact itself (by omega)
          · rw [is, Query.size, Query.sizeAll, Query.size] at deep
            obtain ⟨depth, rfl⟩ : ∃ less, depth = less + 1 + 1 := ⟨depth - 2, by omega⟩
            rw [withoutTo, marks.children, List.flatMap_singleton, itself (by omega)]
            exact if_neg (Nat.not_lt.2 marks.new)
        rw [List.flatMap_cons, first,
          ih' (fun i inner => within (by simp [inner])) others rest (by omega)]
        rfl

end Marking

section Visits

variable {scope : PassageScope} {base g g' : QueryGraph} {i id id' : NodeId} {query q : Query}
  {ids : List NodeId}

theorem Marked.meaning_eq (h : Marked scope base g) (holds : base.Holds query)
    (known : builtIn.Knows query) (member : i ∈ base.preorder) (there : Forest g [i] [q] ids) :
    builtIn.Knows q ∧ builtIn.meaning q = meaningAt base i := by
  obtain ⟨q₀, below₀, tree₀, within, known₀⟩ := holds.forest.subtree (P := builtIn.Knows)
    (fun _ known => known.child) (List.forall_mem_singleton.2 known) member
  rw [meaningAt, tree₀.queryAt_eq]
  obtain ⟨qs₀, below₀, rfl, rfl, _, _, before, _⟩ := tree₀.root_cases
  obtain ⟨qs, below, rfl, _, _, _, after, _⟩ := there.root_cases
  obtain ⟨knownBelow, same⟩ := h.agrees before (fun j inner => within (by simp [inner]))
    known₀.child (h.children i member) after
  rw [h.operator i member, h.parameters i member]
  exact meaning_node known₀ knownBelow same

/-- So does its parent, while the node is not marked. -/
theorem Marked.above_eq (h : Marked scope base g) (holds : base.Holds query)
    (known : builtIn.Knows query) (member : i ∈ base.preorder)
    (same : g.parent i = base.parent i)
    (around : ∀ parent ∈ g.parent i, ∃ q ids, Forest g [parent] [q] ids) :
    (∀ q ∈ (g.parent i).map g.queryAt, builtIn.Knows q) ∧ aboveAt g i = aboveAt base i := by
  rw [aboveAt, aboveAt, ← same]
  cases is : g.parent i with
  | none => exact ⟨nofun, rfl⟩
  | some parent =>
    obtain ⟨q, ids, there⟩ := around parent is
    obtain ⟨knows, meaning⟩ :=
      h.meaning_eq holds known (holds.parent_mem member (same.symm.trans is)) there
    rw [← there.queryAt_eq] at knows meaning
    exact ⟨fun q is => Option.some.inj is ▸ knows, congrArg some meaning⟩

/-- Leaving a known node under a known parent puts a wrapper above it or leaves it alone. -/
theorem leave_eq (on : scope.enabled = true) (known : builtIn.Knows (g.queryAt id))
    (around : ∀ q ∈ (g.parent id).map g.queryAt, builtIn.Knows q) :
    (passageScope builtIn scope).leave g id = .ok
      (if crosses (aboveAt g id) (meaningAt g id) scope.lengths .length .passageLength then
        putAbove g id "passage-length"
      else if crosses (aboveAt g id) (meaningAt g id) scope.extents .extent .passageFilter then
        putAbove g id "passage-filter"
      else (g, id)) := by
  have above : ((g.parent id).map g.queryAt).map builtIn.meaning = aboveAt g id :=
    Option.map_map ..
  unfold passageScope onLeave
  dsimp only
  rw [on, resolve_eq, resolve_eq_meaning known]
  change (needsScope builtIn g id _ _ _ _ >>= _) = _
  rw [needsScope_eq, needsScope_eq, scopeNeeded_eq around, scopeNeeded_eq around, above,
    ← meaningAt]
  cases crosses (aboveAt g id) (meaningAt g id) scope.lengths .length .passageLength <;>
    cases crosses (aboveAt g id) (meaningAt g id) scope.extents .extent .passageFilter <;> rfl

/-- What a visit to a node with a tree makes of the graph: another tree stands in the place of the
node's, and all else is as it was. -/
structure Visited (scope : PassageScope) (base g g' : QueryGraph) (id id' : NodeId)
    (ids ids' : List NodeId) : Prop where
  marked : Marked scope base g'
  stands : Stands scope base g' id id'
  tree : ∃ q, Forest g' [id'] [q] ids'
  rebuilt : Rebuilt ids ids' g g'
  held : id' = id → g'.parent id = g.parent id

theorem Visited.keep (marked : Marked scope base g) (there : Forest g [id] [q] ids) :
    Visited scope base g g id id ids ids :=
  ⟨marked, .inl rfl, ⟨q, there⟩, .refl g ids, fun _ => rfl⟩

theorem Visited.trans {g'' : QueryGraph} {ids' ids'' : List NodeId}
    (h : Visited scope base g g' id id ids ids')
    (h' : Visited scope base g' g'' id id' ids' ids'') :
    Visited scope base g g'' id id' ids ids'' :=
  ⟨h'.marked, h'.stands, h'.tree, h.rebuilt.trans h'.rebuilt,
    fun same => (h'.held same).trans (h.held rfl)⟩

theorem Visited.wrap (holds : base.Holds query) (marked : Marked scope base g)
    (member : id ∈ base.preorder) (there : Forest g [id] [q] ids) {operator : String}
    {c : Capability} {form : Form} (restricts : scope.Restricts operator c form)
    (needed : crosses (aboveAt base id) (meaningAt base id) true c form = true) :
    Visited scope base g (g.wrap id operator .empty) id g.size ids (g.size :: ids) := by
  have placed : id ∈ ids := there.subset (List.mem_singleton_self _)
  have here : id < g.size := there.lt_size id placed
  have new : (g.wrap id operator .empty).node g.size = _ := node_wrap_size here
  have size := size_wrap g id operator .empty
  have marks : Marks scope base (g.wrap id operator .empty) id g.size := by
    refine ⟨member, marked.grown, size ▸ Nat.lt_succ_self _, ?_, ?_, c, form, ?_, needed⟩
    · rw [QueryGraph.children, new]
    · rw [QueryGraph.parameters, new]
    · rw [QueryGraph.operator, new]
      exact restricts
  refine ⟨marked.congr holds (size ▸ Nat.le_succ _) fun i old => alike_wrap here old,
    .inr marks, ⟨_, there.wrap⟩, rebuilt_wrap here placed, fun same => ?_⟩
  exact absurd here (Nat.not_lt.2 (Nat.le_of_eq same))

/-- Leaving a node marks it where in the graph as it was a boundary is crossed. -/
theorem visited_leave (holds : base.Holds query) (known : builtIn.Knows query)
    (on : scope.enabled = true) (marked : Marked scope base g) (member : id ∈ base.preorder)
    (there : Forest g [id] [q] ids) (same : g.parent id = base.parent id)
    (around : ∀ parent ∈ g.parent id, ∃ q ids, Forest g [parent] [q] ids) :
    ∃ g' id' ids', (passageScope builtIn scope).leave g id = .ok (g', id') ∧
      Visited scope base g g' id id' ids ids' := by
  obtain ⟨knows, meaning⟩ := marked.meaning_eq holds known member there
  obtain ⟨knowsAbove, above⟩ := marked.above_eq holds known member same around
  rw [← there.queryAt_eq] at knows meaning
  have left := leave_eq on knows knowsAbove
  rw [above, meaningAt, meaning] at left
  cases lengths : crosses (aboveAt base id) (meaningAt base id) scope.lengths .length
      .passageLength with
  | true =>
    rw [lengths] at left
    have wanted := (of_crosses lengths).1
    rw [wanted] at lengths
    exact ⟨_, _, _, left, .wrap holds marked member there (.lengths wanted) lengths⟩
  | false =>
    cases extents : crosses (aboveAt base id) (meaningAt base id) scope.extents .extent
        .passageFilter with
    | true =>
      rw [lengths, extents] at left
      have wanted := (of_crosses extents).1
      rw [wanted] at extents
      exact ⟨_, _, _, left, .wrap holds marked member there (.extents wanted) extents⟩
    | false =>
      rw [lengths, extents] at left
      exact ⟨_, _, _, left, .keep marked there⟩

def VisitsMark (scope : PassageScope) (base : QueryGraph) (depth : Nat)
    (visit : NodeId → Walk NodeId) : Prop :=
  ∀ {t : Trail} {id : NodeId} {q : Query} {ids : List NodeId}, Marked scope base t.graph →
    Forest base [id] [q] ids → ids ⊆ base.preorder → (∀ i ∈ ids, t.graph.node i = base.node i) →
    q.size ≤ depth →
    (∀ g' q' ids', Forest g' [id] [q'] ids' → Rebuilt ids ids' t.graph g' →
      g'.parent id = t.graph.parent id →
      ∀ parent ∈ g'.parent id, ∃ q ids, Forest g' [parent] [q] ids) →
    ∃ id' ids' t', visit id t = .ok id' t' ∧
      Visited scope base t.graph t'.graph id id' ids ids'

theorem visited_visitEach (holds : base.Holds query) {depth : Nat} {visit : NodeId → Walk NodeId}
    (visits : VisitsMark scope base depth visit) {t : Trail} {parent : NodeId}
    {done rest below later : List NodeId} {qsRest : List Query}
    (marked : Marked scope base t.graph) (member : parent ∈ base.preorder)
    (tree : Forest t.graph [parent] [q] (parent :: below))
    (listed : t.graph.children parent = done ++ rest)
    (before : Forest base rest qsRest later) (within : later ⊆ base.preorder)
    (fresh : parent ∉ later) (pending : ∀ i ∈ later, t.graph.node i = base.node i)
    (deep : Query.sizeAll qsRest ≤ depth) :
    ∃ below' t', visitEach visit parent rest done.length t = .ok () t' ∧
      Visited scope base t.graph t'.graph parent parent (parent :: below) (parent :: below') := by
  induction rest generalizing t q done below later qsRest with
  | nil => exact ⟨below, t, rfl, .keep marked tree⟩
  | cons child rest ih =>
    cases before with
    | @cons _ _ deeper later _ _ inside₀ owns₀ tree₀ fresh₀ rest₀ apart₀ =>
      have one := Forest.of_root inside₀ owns₀ tree₀ fresh₀
      obtain ⟨pendingHere, pendingLater⟩ := List.forall_mem_append.1 pending
      obtain ⟨notHere, notLater⟩ := not_or.1 fun there => fresh (List.mem_append.2 there)
      have withinHere : child :: deeper ⊆ base.preorder := fun i inner =>
        within (List.mem_append_left _ inner)
      have there : child ∈ base.preorder := withinHere List.mem_cons_self
      have inside : parent < t.graph.size := tree.lt_size parent List.mem_cons_self
      rw [Query.sizeAll] at deep
      -- nothing has changed below a child still to be visited, so its tree is the one there was
      obtain ⟨_, _, _, _, _, _, middle, _, regrown⟩ := tree.around listed
      obtain ⟨_, rfl⟩ := (one.congr_node marked.grown pendingHere).unique middle
      have around : ∀ g' q' ids', Forest g' [child] [q'] ids' →
          Rebuilt (child :: deeper) ids' t.graph g' → g'.parent child = t.graph.parent child →
          ∀ above ∈ g'.parent child, ∃ q ids, Forest g' [above] [q] ids := by
        intro g' q' within' tree' rebuilt top above is
        obtain ⟨_, whole, _, _, _⟩ := regrown tree' rebuilt fun _ => top
        have among : child ∈ t.graph.children parent := listed ▸ by simp
        have owned := (tree.child_mem List.mem_cons_self among).2
        rw [linkIn_self] at whole
        rw [top, owned] at is
        exact Option.some.inj is ▸ ⟨_, _, whole⟩
      obtain ⟨id, ids', t', visited, made⟩ :=
        visits marked one withinHere pendingHere (by omega) around
      obtain ⟨q', tree'⟩ := made.tree
      have known := made.rebuilt
      obtain ⟨below', whole, changed, top, list⟩ := regrown tree' known made.held
      have listed' : t'.graph.children parent = done ++ child :: rest :=
        (congrArg Node.children (known.kept parent inside notHere)).trans listed
      have untouched : ∀ i ∈ later,
          (t'.graph.linkIn parent done.length child id).node i = base.node i := by
        intro i inner
        have small : i < t.graph.size := Nat.lt_of_lt_of_le (rest₀.lt_size i inner) marked.grown
        rw [known.node_linkIn tree' listed' inside notHere List.mem_cons_self small
          (fun is => notLater (is ▸ inner)) fun here => apart₀ here inner, pendingLater i inner]
      rw [List.append_cons] at list
      obtain ⟨below'', t'', visited', made'⟩ := ih
        (t := { t' with graph := t'.graph.linkIn parent done.length child id })
        (made.marked.linkIn holds member listed' there made.stands) whole list rest₀
        (fun i inner => within (List.mem_append_right _ inner)) notLater untouched (by omega)
      rw [List.length_append] at visited'
      refine ⟨below'', t'', ?_, made'.marked, made'.stands, made'.tree,
        changed.trans made'.rebuilt, fun _ => (made'.held rfl).trans top⟩
      rw [visitEach_cons, visited]
      exact visited'

theorem visitsMark (holds : base.Holds query) (known : builtIn.Knows query)
    (on : scope.enabled = true) (depth : Nat) :
    VisitsMark scope base depth ((passageScope builtIn scope).visit depth) := by
  induction depth with
  | zero =>
    intro t id q ids _ _ _ _ deep _
    cases q with
    | node operator parameters children =>
      rw [Query.size] at deep
      omega
  | succ depth ih =>
    intro t id q ids marked before within pending deep around
    have there := before.congr_node marked.grown pending
    obtain ⟨children, below, rfl, rfl, _, _, forest, fresh⟩ := before.root_cases
    have member : id ∈ base.preorder := within List.mem_cons_self
    have same := pending id List.mem_cons_self
    have listed : t.graph.children id = base.children id := congrArg Node.children same
    rw [Query.size] at deep
    have listed' : t.graph.children id = [] ++ base.children id := listed
    obtain ⟨below', t', visited, made⟩ := visited_visitEach
      (t := { t with entered := id :: t.entered }) holds ih marked member there listed' forest
      (fun i inner => within (List.mem_cons_of_mem _ inner)) fresh
      (fun i inner => pending i (List.mem_cons_of_mem _ inner)) (by omega)
    rw [List.length_nil] at visited
    obtain ⟨q', tree'⟩ := made.tree
    have top := made.held rfl
    obtain ⟨g', id', ids', left, made'⟩ := visited_leave holds known on made.marked member tree'
      (top.trans (congrArg Node.parent same)) (around _ _ _ tree' made.rebuilt top)
    refine ⟨id', ids', { t' with graph := g', left := id :: t'.left }, ?_, made.trans made'⟩
    rw [visit_succ (fun _ _ => rfl), listed, visited]
    dsimp only
    rw [leaveNode_eq, left]

end Visits

section Runs

variable {scope : PassageScope} {base g : QueryGraph} {id child : NodeId} {query query' : Query}

/-- What holds throughout queries holds of their nodes in a graph and what is above them. -/
theorem everywhere_at {P : Option Meaning → Query → Prop} {roots ids : List NodeId}
    {qs : List Query} (there : Forest g roots qs ids) {above : Option Meaning}
    (tops : ∀ root ∈ roots, aboveAt g root = above)
    (every : ∀ q ∈ qs, Everywhere builtIn P above q) :
    ∀ i ∈ ids, P (aboveAt g i) (g.queryAt i) := by
  induction there generalizing above with
  | nil => exact List.forall_mem_nil _
  | @cons id roots below beside children others inside owns tree fresh _ _ ih ih' =>
    obtain ⟨top, topsBeside⟩ := List.forall_mem_cons.1 tops
    obtain ⟨here, everyBeside⟩ := List.forall_mem_cons.1 every
    have same := (Forest.of_root inside owns tree fresh).queryAt_eq
    refine List.forall_mem_append.2 ⟨List.forall_mem_cons.2 ⟨?_, ?_⟩, ih' topsBeside everyBeside⟩
    · rw [top, same]
      exact here.root
    · refine ih (fun child member => ?_) here.child
      rw [aboveAt, owns child member, Option.map_some, meaningAt, same]

/-- The pass comes to an end, with the graph marked. -/
theorem marked_run (holds : base.Holds query) (known : builtIn.Knows query)
    (on : scope.enabled = true) :
    ((passageScope builtIn scope).run base).failure = none ∧
      Marked scope base ((passageScope builtIn scope).run base).graph ∧
      Stands scope base ((passageScope builtIn scope).run base).graph base.root
        ((passageScope builtIn scope).run base).graph.root := by
  have tree := holds.forest
  have deep := tree.sizeAll_le
  rw [Query.sizeAll, Query.sizeAll, Nat.add_zero] at deep
  obtain ⟨id, ids', t, visited, made⟩ := visitsMark holds known on base.size
    (t := .begin base) (Marked.refl scope base) tree
    (List.Subset.refl _) (fun _ _ => rfl) deep (by
      intro g' _ _ _ _ top parent is
      rw [top.trans holds.top] at is
      cases is)
  have ran := run_eq (passageScope builtIn scope) base
  rw [visited] at ran
  obtain ⟨graph, failure⟩ := Prod.mk.inj ran
  rw [graph]
  refine ⟨failure, ?_⟩
  by_cases same : id = base.root
  · rw [if_neg (not_not.2 same)]
    exact ⟨made.marked, .inl made.rebuilt.root⟩
  · obtain ⟨q, there⟩ := made.tree
    have here : id < t.graph.size := there.root_lt id (List.mem_singleton_self _)
    have size := Nat.le_of_eq (size_setRoot t.graph id).symm
    rw [if_pos same]
    exact ⟨made.marked.congr holds size fun i _ => alike_setRoot here i,
      made.stands.congr size fun _ _ => alike_setRoot here id⟩

/-- A wrapper stands below what was the parent of its child, and that means what it did. -/
theorem Marked.above_marks (h : Marked scope base g) (holds : base.Holds query)
    (known : builtIn.Knows query) (holds' : g.Holds query')
    (top : Stands scope base g base.root g.root) (member : id ∈ g.preorder)
    (marks : Marks scope base g child id) {m : Meaning} (above : m ∈ aboveAt g id) :
    m ∈ aboveAt base child := by
  obtain ⟨parent, is, rfl⟩ := Option.mem_map.1 above
  have reached : ∀ i ∈ g.preorder, i ∈ base.preorder ∨ ∃ child, Marks scope base g child i :=
    h.exists_marks holds holds'.forest
      (List.forall_mem_singleton.2 ⟨base.root, holds.forest.subset (by simp), top⟩)
  have new {i : NodeId} (old : i ∈ base.preorder) : id ≠ i := fun same =>
    absurd (holds.forest.lt_size i old) (Nat.not_lt.2 (same ▸ marks.new))
  have notTop : id ∉ [g.root] := by
    rw [List.mem_singleton]
    rintro rfl
    rw [Option.mem_def, holds'.top] at is
    cases is
  obtain ⟨owner, found, listed, owns⟩ := holds'.forest.exists_owner member notTop
  obtain rfl : owner = parent := Option.some.inj (owns.symm.trans is)
  -- the parent is no wrapper, as what a wrapper stands above is a node that there was
  rcases reached owner found with old | ⟨other, marks'⟩
  · obtain ⟨before, after, split⟩ := List.append_of_mem listed
    obtain ⟨child', inner, stands, _⟩ := exists_replace (split ▸ h.children owner old)
    obtain ⟨old', owned⟩ := holds.forest.child_mem old inner
    have only := (stands.resolve_left (new old')).children
    rw [marks.children, List.singleton_inj] at only
    obtain ⟨ids, there⟩ := holds'.forest.exists_tree found
    rw [meaningAt, (h.meaning_eq holds known old there).2, only]
    exact Option.mem_map.2 ⟨owner, owned, rfl⟩
  · rw [marks'.children, List.mem_singleton] at listed
    exact absurd listed (new marks'.old)

theorem Marked.marksBoundary (h : Marked scope base g) (holds : base.Holds query)
    (known : builtIn.Knows query) (holds' : g.Holds query')
    (top : Stands scope base g base.root g.root) (member : id ∈ g.preorder)
    (marks : Marks scope base g child id) :
    ∃ c form, MarksBoundary scope g id child c form := by
  obtain ⟨c, form, restricts, needed⟩ := marks.needed
  obtain ⟨_, other, without⟩ := of_crosses needed
  have listed : child ∈ g.children id := marks.children ▸ List.mem_singleton_self _
  obtain ⟨ids, there⟩ := holds'.forest.exists_tree (holds'.forest.child_mem member listed).1
  have same := (h.meaning_eq holds known marks.old there).2
  have meant : meaningAt g id = { capabilities := c.offers, form } := by
    obtain ⟨ids, there⟩ := holds'.forest.exists_tree member
    obtain ⟨qs, _, is, _⟩ := there.root_cases
    rw [meaningAt, is, restricts.meaning_eq]
  refine ⟨c, form, restricts, marks.parameters, marks.children, ?_, ?_, ?_, ?_, ?_⟩
  · rw [meant]
  · rw [meant]
    exact restricts.has_offers
  · intro parent is
    exact without _ (h.above_marks holds known holds' top member marks
      (Option.mem_map.2 ⟨parent, is, rfl⟩))
  · rw [meaningAt, same]
    exact has_of_crosses needed
  · rw [meaningAt, same]
    exact other

/-- Where no scope remains to be marked, every boundary is. -/
theorem form_eq_of_inScope (on : scope.enabled = true) (holds : g.Holds query)
    (known : builtIn.Knows query) (inScope : Everywhere builtIn (InScope scope) none query)
    (member : id ∈ g.preorder) {operator : String} {c : Capability} {form : Form}
    (restricts : scope.Restricts operator c form) (has : (meaningAt g id).has c = true)
    (boundary : AtBoundary g id c) : (meaningAt g id).form = form := by
  have tree := holds.forest
  have topless : aboveAt g g.root = none := by
    rw [aboveAt, holds.top]
    rfl
  have here := everywhere_at tree (List.forall_mem_singleton.2 topless)
    (List.forall_mem_singleton.2 inScope) id member
  refine form_eq_of_crosses (restricts.crosses_eq_false on here) has fun m above => ?_
  obtain ⟨parent, is, rfl⟩ := Option.mem_map.1 above
  obtain ⟨q, _, there, _, knows⟩ := tree.subtree (P := builtIn.Knows)
    (fun _ known => known.child) (List.forall_mem_singleton.2 known) (holds.parent_mem member is)
  rw [← there.queryAt_eq] at knows
  exact ⟨(asked_builtIn knows).1, boundary parent is⟩

theorem Marked.marksBoundaries (h : Marked scope base g) (on : scope.enabled = true)
    (holds : base.Holds query) (known : builtIn.Knows query) (holds' : g.Holds query')
    (known' : builtIn.Knows query') (top : Stands scope base g base.root g.root)
    (inScope : Everywhere builtIn (InScope scope) none query') :
    MarksBoundaries scope base g := by
  have tree := holds'.forest
  have reached : ∀ i ∈ g.preorder, base.size ≤ i → ∃ child, Marks scope base g child i := by
    intro i member new
    have stands : ∃ child ∈ base.preorder, Stands scope base g child g.root :=
      ⟨base.root, holds.forest.subset (List.mem_singleton_self _), top⟩
    refine (h.exists_marks holds tree (List.forall_mem_singleton.2 stands) i
      member).resolve_left fun old => ?_
    exact absurd (holds.forest.lt_size i old) (Nat.not_lt.2 new)
  refine ⟨(checkLinks_iff_holds holds'.inside).2 ⟨_, holds'⟩, ?_, ?_, ?_, ?_, ?_⟩
  · rw [holds'.toQuery_eq]
    exact known'
  · have kept := h.withoutTo_eq holds.forest (List.Subset.refl _) (.cons top .nil) tree
      tree.sizeAll_le
    rw [List.flatMap_singleton] at kept
    rw [without, kept, holds.toQuery_eq]
  · intro id member operator c form restricts
    exact form_eq_of_inScope on holds' known' inScope member restricts
  · intro id member new
    obtain ⟨child, marks⟩ := reached id member new
    obtain ⟨c, form, marksHere⟩ := h.marksBoundary holds known holds' top member marks
    exact ⟨child, c, form, holds.forest.lt_size child marks.old, marksHere⟩
  · intro id member id' member' new _ same
    obtain ⟨child, marks⟩ := reached id member new
    have listed : child ∈ g.children id := marks.children ▸ List.mem_singleton_self _
    have owned := (tree.child_mem member listed).2
    rw [(tree.child_mem member' (same ▸ listed)).2] at owned
    exact (Option.some.inj owned).symm

/-- Where the links of a graph with known operators agree, the pass that marks scopes ends without
failure, and marks just the boundaries. -/
theorem marksBoundaries_run (on : scope.enabled = true) (inside : g.root < g.size)
    (agree : g.checkLinks = true) (known : builtIn.Knows g.toQuery) :
    ((passageScope builtIn scope).run g).failure = none ∧
      MarksBoundaries scope g ((passageScope builtIn scope).run g).graph := by
  obtain ⟨q, holds⟩ := (checkLinks_iff_holds inside).1 agree
  obtain rfl := holds.toQuery_eq
  obtain ⟨failure, marked, top⟩ := marked_run holds known on
  have always : Recasts.Fitting builtIn (fun _ _ => True) none g.toQuery :=
    .of_forall (fun _ _ => trivial) _ _
  have finished := finishes_run (follows_passageScope builtIn scope) holds
  rw [remade_none_eq_recast (recasts_scope scope) known always] at finished
  have known' := (recasts_scope scope).recast_known known always
  exact ⟨failure, marked.marksBoundaries on holds known finished.1 known' top
    (everywhere_inScope known scope none)⟩

def scoredSynonyms : Query :=
  let text (term : String) := Query.node "text" (.single "term" (.string term)) []
  .node "dirichlet" .empty [
    .node "lengths" .empty [],
    .node "syn" .empty [
      text "a",
      .node "counts" (.single "term" (.string "b")) [],
      .node "syn" .empty [text "c", .node "passage-filter" .empty [text "d"]]]]

def bothScopes : PassageScope := { enabled := true, lengths := true, extents := true }

/-- The outer synonym cannot be asked for occurrences, so what can be, directly below it, gets a
scope. Further below nothing does. -/
theorem marksBoundaries_scoredSynonyms :
    bothScopes.enabled = true ∧
      (ofQuery scoredSynonyms).root < (ofQuery scoredSynonyms).size ∧
      (ofQuery scoredSynonyms).checkLinks = true ∧
      builtIn.Knows (ofQuery scoredSynonyms).toQuery ∧
      ((passageScope builtIn bothScopes).run (ofQuery scoredSynonyms)).failure = none ∧
      MarksBoundaries bothScopes (ofQuery scoredSynonyms)
        ((passageScope builtIn bothScopes).run (ofQuery scoredSynonyms)).graph ∧
      ((passageScope builtIn bothScopes).run (ofQuery scoredSynonyms)).graph.preorder =
        [0, 9, 1, 2, 10, 3, 4, 11, 5, 6, 7, 8] := by
  have inside : (ofQuery scoredSynonyms).root < (ofQuery scoredSynonyms).size := by decide
  have agree : (ofQuery scoredSynonyms).checkLinks = true := by decide
  have inner : builtIn.Knows (.node "syn" .empty [
      .node "text" (.single "term" (.string "c")) [],
      .node "passage-filter" .empty [.node "text" (.single "term" (.string "d")) []]]) :=
    .node rfl (List.forall_mem_cons.2 ⟨.leaf rfl,
      List.forall_mem_singleton.2 (.single rfl (.leaf rfl))⟩)
  have known : builtIn.Knows (ofQuery scoredSynonyms).toQuery := by
    rw [(holds_ofQuery scoredSynonyms).toQuery_eq]
    refine .node rfl (List.forall_mem_cons.2 ⟨.leaf rfl, List.forall_mem_singleton.2 ?_⟩)
    exact .node rfl (List.forall_mem_cons.2 ⟨.leaf rfl,
      List.forall_mem_cons.2 ⟨.leaf rfl, List.forall_mem_singleton.2 inner⟩⟩)
  have on : bothScopes.enabled = true := rfl
  obtain ⟨failure, marks⟩ := marksBoundaries_run on inside agree known
  exact ⟨on, inside, agree, known, failure, marks, by decide +kernel⟩

end Runs

end RankedRetrieval.Preparation
