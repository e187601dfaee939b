import RankedRetrieval.Preparation.Pipeline
import RankedRetrieval.Proofs.Preparation.Walk

set_option autoImplicit false

/-!
# The standard passes by recursion

What each of the standard passes makes of a query whose children are done. The graph that a pass
leaves spells out the same query, so the links agree after any of them (`checkLinks_runAll`), and
preparing a query is three recursions on it (`prepare_eq`).
-/

namespace RankedRetrieval

open QueryGraph Pass

namespace Preparation

section Leavings

variable (v : Vocabulary)

def lengthsOf (field : String) : Query := .node "lengths" (fieldParameters field) []

def scoreWanted : Option Query → Except QueryError Bool
  | none => .ok true
  | some parent => (v.resolve parent).map fun m => m.form == .combine

def leaveScoring (scorer : String) : Leaving := fun above q => do
  let meaning ← v.resolve q
  match isScorer meaning.form, q.children with
  | true, [counts] =>
    return .node q.operator q.parameters
      [lengthsOf (Query.scorerField q.parameters counts.fieldHint), counts]
  | _, _ =>
    if !meaning.has .count || meaning.has .scored then return q
    else if ← scoreWanted v above then return .node scorer .empty [lengthsOf q.fieldHint, q]
    else return q

def isPlainSum (q : Query) : Except QueryError Bool :=
  (v.resolve q).map fun m => m.form == .combine && isPlain q.parameters

def spliced : List Query → Except QueryError (List Query)
  | [] => .ok []
  | q :: rest => do
    let plain ← isPlainSum v q
    let rest ← spliced rest
    return if plain then q.children ++ rest else q :: rest

def leaveFlattening : Leaving := fun _ q => do
  if !(← isPlainSum v q) then return q
  else return .node q.operator q.parameters (← spliced v q.children)

def readOtherwise (c : Capability) : Option Query → Except QueryError Bool
  | none => .ok true
  | some parent => (v.resolve parent).map fun m => !m.capabilities.isEmpty && !m.has c

def scopeNeeded (above : Option Query) (m : Meaning) (wanted : Bool) (c : Capability)
    (wrapper : Form) : Except QueryError Bool :=
  if wanted && m.has c && m.form != wrapper then readOtherwise v c above else .ok false

def leaveScope (scope : PassageScope) : Leaving := fun above q => do
  if !scope.enabled then return q
  else
    let m ← v.resolve q
    if ← scopeNeeded v above m scope.lengths .length .passageLength then
      return .node "passage-length" .empty [q]
    else if ← scopeNeeded v above m scope.extents .extent .passageFilter then
      return .node "passage-filter" .empty [q]
    else return q

end Leavings

variable {v : Vocabulary} {g : QueryGraph} {id : NodeId} {q : Query} {ids : List NodeId}

section Leaving

theorem leaves_keep (tree : Forest g [id] [q] ids) : Leaves g id ids (.ok q) (.ok (g, id)) :=
  ⟨ids, tree, .refl g ids, fun _ => rfl⟩

theorem leaves_bind {β : Type} {asked : Except QueryError β}
    {expected : β → Except QueryError Query}
    {left : β → Except QueryError (QueryGraph × NodeId)}
    (next : ∀ b, asked = .ok b → Leaves g id ids (expected b) (left b)) :
    Leaves g id ids (asked >>= expected) (asked >>= left) := by
  cases asked with
  | error e => exact rfl
  | ok b => exact next b rfl

theorem leaves_ite {p : Prop} [Decidable p] {x x' : Except QueryError Query}
    {y y' : Except QueryError (QueryGraph × NodeId)} (yes : p → Leaves g id ids x y)
    (no : ¬ p → Leaves g id ids x' y') :
    Leaves g id ids (if p then x else x') (if p then y else y') := by
  split
  · exact yes ‹_›
  · exact no ‹_›

theorem leaves_putAbove (tree : Forest g [id] [q] ids) (operator : String) :
    Leaves g id ids (.ok (.node operator .empty [q])) (.ok (putAbove g id operator)) := by
  have here : id < g.size := tree.root_lt id (List.mem_singleton_self _)
  refine ⟨_, tree.wrap, rebuilt_wrap here (tree.subset (List.mem_singleton_self _)), ?_⟩
  exact fun same => absurd same (Nat.ne_of_gt here)

end Leaving

section Scoring

theorem leaves_giveLengths {counts : NodeId} {counted : Query} {below : List NodeId}
    (inside : id < g.size) (listed : g.children id = [counts])
    (tree : Forest g [counts] [counted] below) (fresh : id ∉ below) (field : String) :
    Leaves g id (id :: below)
      (.ok (.node (g.operator id) (g.parameters id) [lengthsOf field, counted]))
      (.ok (giveLengths g id counts field, id)) := by
  set g' := g.addNode "lengths" (fieldParameters field) with grown
  have added : Rebuilt (id :: below) (g.size :: id :: below) g g' := rebuilt_addNode _
  have same : g'.node id = g.node id := node_addNode_of_lt inside
  have tree' : Forest g' [counts] [counted] below :=
    tree.congr_node added.grown fun i member => node_addNode_of_lt (tree.lt_size i member)
  have both : Forest g' [g.size, counts] [lengthsOf field, counted] (g.size :: below) :=
    (forest_addNode (g := g)).append tree' (List.disjoint_symm tree.disjoint_size)
  have here : id < g'.size := Nat.lt_of_lt_of_le inside added.grown
  have fresh' : id ∉ g.size :: below :=
    List.not_mem_cons_of_ne_of_not_mem (Nat.ne_of_lt inside) fresh
  have listed' : g'.children id = [counts] := (congrArg Node.children same).trans listed
  have within : ∀ i ∈ [g.size, counts], i < g'.size := both.root_lt
  have inner : counts ∈ below := tree.subset (List.mem_singleton_self _)
  have made := Forest.setChildren here both fresh' fun child member => by
    rw [listed'] at member
    exact .inl (List.mem_cons_of_mem _ member)
  rw [QueryGraph.operator, QueryGraph.parameters, same] at made
  refine ⟨_, made, added.trans (rebuilt_setChildren here within ?_ ?_ ?_), fun _ => ?_⟩
  · rw [listed']
    simp [inner]
  · simp [inner]
  · intro i member
    simpa [or_left_comm] using member
  · rw [giveLengths, parent_setChildren here within, if_neg fun member => ?_, if_neg fun held => ?_]
    · exact congrArg Node.parent same
    · rw [listed', List.mem_singleton] at held
      exact fresh (held.1 ▸ inner)
    · exact fresh' (both.subset member)

theorem leaves_putScorer (tree : Forest g [id] [q] ids) (scorer field : String) :
    Leaves g id ids (.ok (.node scorer .empty [lengthsOf field, q]))
      (.ok (putScorer g id scorer field)) := by
  have member : id ∈ ids := tree.subset (List.mem_singleton_self _)
  have inside : id < g.size := tree.lt_size id member
  set g' := g.addNode "lengths" (fieldParameters field) with grown
  have size : g'.size = g.size + 1 := size_addNode ..
  have added : Rebuilt ids (g.size :: ids) g g' := rebuilt_addNode _
  have tree' : Forest g' [id] [q] ids :=
    tree.congr_node added.grown fun i member => node_addNode_of_lt (tree.lt_size i member)
  have inside' : id < g'.size := Nat.lt_of_lt_of_le inside added.grown
  set g'' := g'.wrap id scorer .empty with wrapped
  have rebuilt : Rebuilt (g.size :: ids) (g'.size :: g.size :: ids) g' g'' :=
    rebuilt_wrap inside' (List.mem_cons_of_mem _ member)
  have apart : Rebuilt ids (g'.size :: ids) g' g'' := rebuilt_wrap inside' member
  have lengths : Forest g'' [g.size] [lengthsOf field] [g.size] :=
    apart.forest forest_addNode tree.disjoint_size
  have both : Forest g'' [g.size, id] [lengthsOf field, q] (g.size :: ids) :=
    lengths.append (tree'.under_wrap inside') (List.disjoint_symm tree.disjoint_size)
  have new : g''.node g'.size =
      { operator := scorer, parameters := .empty, children := [id], parent := g'.parent id } := by
    rw [wrapped, node_wrap inside', if_neg (Nat.ne_of_gt inside'), if_pos rfl]
  have here : g'.size < g''.size := by
    rw [wrapped, size_wrap]
    exact Nat.lt_succ_self _
  have fresh : g'.size ∉ g.size :: ids := by
    refine List.not_mem_cons_of_ne_of_not_mem ?_ fun old => ?_
    · rw [size]
      exact Nat.succ_ne_self _
    · exact Nat.lt_irrefl _ (tree'.lt_size _ old)
  have listed : g''.children g'.size = [id] := congrArg Node.children new
  have within : ∀ i ∈ [g.size, id], i < g''.size := both.root_lt
  have made := Forest.setChildren here both fresh fun child member => by
    rw [listed] at member
    exact .inl (List.mem_cons_of_mem _ member)
  rw [QueryGraph.operator, QueryGraph.parameters, new] at made
  have relisted : Rebuilt (g'.size :: g.size :: ids) (g'.size :: g.size :: ids) g''
      (g''.setChildren g'.size [g.size, id]) := by
    refine rebuilt_setChildren here within ?_ ?_ (List.Subset.refl _)
    · rw [listed]
      simp [member]
    · simp [member]
  exact ⟨_, made, (added.trans rebuilt).trans relisted, fun same =>
    absurd same (Nat.ne_of_gt inside')⟩

theorem wantsScore_eq : wantsScore v g id = scoreWanted v ((g.parent id).map g.queryAt) := by
  rw [wantsScore]
  cases g.parent id with
  | none => rfl
  | some parent =>
    dsimp only
    rw [resolve_eq]
    rfl

/-- Where no lengths are to be written out, a scorer is put above counts that are wanted as a
score. -/
theorem leaves_offer (tree : Forest g [id] [q] ids) (scorer : String) (meaning : Meaning) :
    Leaves g id ids
      (do
        if !meaning.has .count || meaning.has .scored then return q
        else if ← scoreWanted v ((g.parent id).map g.queryAt) then
          return .node scorer .empty [lengthsOf q.fieldHint, q]
        else return q)
      (do
        if !meaning.has .count || meaning.has .scored then return (g, id)
        else if ← wantsScore v g id then return putScorer g id scorer (g.fieldHint id)
        else return (g, id)) := by
  refine leaves_ite (fun _ => leaves_keep tree) fun _ => ?_
  rw [wantsScore_eq]
  refine leaves_bind fun wanted _ => ?_
  refine leaves_ite (fun _ => ?_) fun _ => leaves_keep tree
  rw [fieldHint_eq, tree.queryAt_eq]
  exact leaves_putScorer tree ..

theorem follows_scoring (v : Vocabulary) (scorer : String) :
    (scoring v scorer).Follows (leaveScoring v scorer) where
  enter _ _ := rfl
  leave := by
    intro g id q ids tree
    have reads := tree.queryAt_eq
    obtain ⟨children, below, rfl, rfl, inside, owns, under, fresh⟩ := tree.root_cases
    change Leaves _ _ _ _ (g.resolve v id >>= _)
    rw [resolve_eq, reads]
    refine leaves_bind fun meaning _ => ?_
    have otherwise := leaves_offer (v := v) tree scorer meaning
    cases isScorer meaning.form with
    | false => exact otherwise
    | true =>
      have read := under.map_queryAt_eq
      cases listed : g.children id with
      | nil =>
        rw [listed] at read
        subst read
        exact otherwise
      | cons counts rest =>
        cases rest with
        | cons other rest =>
          rw [listed] at read
          subst read
          exact otherwise
        | nil =>
          rw [listed] at read under
          subst read
          change Leaves g id (id :: below) (.ok _) (.ok _)
          rw [fieldHint_eq]
          exact leaves_giveLengths inside listed under fresh _

end Scoring

section Flattening

variable {roots : List NodeId} {qs : List Query}

theorem isPlainCombine_eq (tree : Forest g [id] [q] ids) :
    isPlainCombine v g id = isPlainSum v q := by
  have reads := tree.queryAt_eq
  obtain ⟨children, below, rfl, _⟩ := tree.root_cases
  rw [isPlainCombine, resolve_eq, reads]
  rfl

/-- Whether nodes were spliced as the queries below them are. The nodes that are left out are not
met below the others. -/
def Splices (g : QueryGraph) (roots ids : List NodeId) :
    Except QueryError (List Query) → Except QueryError (List NodeId × Bool) → Prop
  | .ok qs, .ok (roots', changed) =>
    (∃ ids', Forest g roots' qs ids' ∧ ids' ⊆ ids ∧ ∀ i ∈ roots, i ∈ roots' ∨ i ∉ ids') ∧
      (changed = false → roots' = roots)
  | .error e, .error e' => e' = e
  | _, _ => False

theorem Splices.of_ok {left : Except QueryError (List NodeId × Bool)}
    (h : Splices g roots ids (.ok qs) left) :
    ∃ roots' changed ids', left = .ok (roots', changed) ∧ Forest g roots' qs ids' ∧ ids' ⊆ ids ∧
      (∀ i ∈ roots, i ∈ roots' ∨ i ∉ ids') ∧ (changed = false → roots' = roots) := by
  cases left with
  | ok left =>
    obtain ⟨⟨ids', forest, within, freed⟩, unchanged⟩ := h
    exact ⟨left.1, left.2, ids', rfl, forest, within, freed, unchanged⟩
  | error e => exact h.elim

theorem Splices.of_error {left : Except QueryError (List NodeId × Bool)} {e : QueryError}
    (h : Splices g roots ids (.error e) left) : left = .error e := by
  cases left with
  | ok left => exact h.elim
  | error e' => exact congrArg _ h

section Step

variable {child : NodeId} {rest roots' ids₁ beside ids' : List NodeId} {qs' : List Query}

theorem freed_append {others : List Query} (after : Forest g rest others beside)
    (apart : ids₁.Disjoint beside) (freed : ∀ i ∈ rest, i ∈ roots' ∨ i ∉ ids') :
    ∀ i ∈ rest, i ∈ roots' ∨ i ∉ ids₁ ++ ids' := by
  intro i member
  refine (freed i member).imp_right fun out inside => ?_
  rcases List.mem_append.1 inside with here | there
  · exact apart here (after.subset member)
  · exact out there

theorem splices_keep (tree : Forest g [child] [q] ids₁) (forest : Forest g roots' qs' ids')
    (within : ids' ⊆ beside) (apart : ids₁.Disjoint beside)
    (freed : ∀ i ∈ rest, i ∈ roots' ∨ i ∉ ids₁ ++ ids') {changed : Bool}
    (unchanged : changed = false → roots' = rest) :
    Splices g (child :: rest) (ids₁ ++ beside) (.ok (q :: qs'))
      (.ok (child :: roots', changed)) := by
  have apart' : ids₁.Disjoint ids' := fun i member member' => apart member (within member')
  refine ⟨⟨ids₁ ++ ids', tree.append forest apart', ?_, ?_⟩, fun same => ?_⟩
  · exact List.append_subset.2 ⟨List.subset_append_left _ _,
      List.subset_append_of_subset_right _ within⟩
  · refine List.forall_mem_cons.2 ⟨.inl List.mem_cons_self, fun i member => ?_⟩
    exact (freed i member).imp_left (List.mem_cons_of_mem _)
  · exact congrArg _ (unchanged same)

theorem splices_open (tree : Forest g [child] [q] ids₁) (forest : Forest g roots' qs' ids')
    (within : ids' ⊆ beside) (apart : ids₁.Disjoint beside)
    (freed : ∀ i ∈ rest, i ∈ roots' ∨ i ∉ ids₁ ++ ids') :
    Splices g (child :: rest) (ids₁ ++ beside) (.ok (q.children ++ qs'))
      (.ok (g.children child ++ roots', true)) := by
  obtain ⟨children, below, rfl, rfl, _, _, under, fresh⟩ := tree.root_cases
  have apart' : (child :: below).Disjoint ids' := fun i member member' =>
    apart member (within member')
  obtain ⟨aside, apart'⟩ := List.disjoint_cons_left.1 apart'
  refine ⟨⟨below ++ ids', under.append forest apart', ?_, ?_⟩, fun same => nomatch same⟩
  · exact List.append_subset.2 ⟨fun i member => by simp [member],
      List.subset_append_of_subset_right _ within⟩
  · refine List.forall_mem_cons.2 ⟨.inr fun inside => ?_, fun i member => ?_⟩
    · exact (List.mem_append.1 inside).elim fresh aside
    · rcases freed i member with there | out
      · exact .inl (List.mem_append_right _ there)
      · exact .inr fun inside => out (List.mem_cons_of_mem _ inside)

end Step

theorem splices (forest : Forest g roots qs ids) :
    Splices g roots ids (spliced v qs) (splice v g roots) := by
  induction roots generalizing qs ids with
  | nil =>
    cases forest
    exact ⟨⟨[], .nil, List.Subset.refl _, List.forall_mem_nil _⟩, fun _ => rfl⟩
  | cons child rest ih =>
    rw [← List.singleton_append] at forest
    obtain ⟨qs₁, others, ids₁, beside, rfl, rfl, one, tree, after, apart⟩ := forest.split
    obtain ⟨q, rfl⟩ := List.length_eq_one_iff.1 one
    have next := ih after
    rw [splice, List.singleton_append, spliced, isPlainCombine_eq tree]
    cases isPlainSum v q with
    | error e => exact rfl
    | ok plain =>
      change Splices _ _ _ (spliced v others >>= _) (splice v g rest >>= _)
      cases expected : spliced v others with
      | error e =>
        rw [expected] at next
        rw [next.of_error]
        exact rfl
      | ok qs' =>
        rw [expected] at next
        obtain ⟨roots', changed, ids', made, forest', within, freed, unchanged⟩ := next.of_ok
        have freed := freed_append after apart freed
        rw [made]
        cases plain with
        | false => exact splices_keep tree forest' within apart freed unchanged
        | true => exact splices_open tree forest' within apart freed

/-- A node takes the roots of a forest below it for its children. -/
theorem leaves_relist {children : List Query} {below roots' ids' : List NodeId} {qs' : List Query}
    {changed : Bool} (inside : id < g.size)
    (owns : ∀ child ∈ g.children id, g.parent child = some id)
    (under : Forest g (g.children id) children below) (fresh : id ∉ below)
    (forest : Forest g roots' qs' ids') (within : ids' ⊆ below)
    (freed : ∀ i ∈ g.children id, i ∈ roots' ∨ i ∉ ids')
    (unchanged : changed = false → roots' = g.children id) :
    Leaves g id (id :: below) (.ok (.node (g.operator id) (g.parameters id) qs'))
      (.ok (if changed then g.setChildren id roots' else g, id)) := by
  have fresh' : id ∉ ids' := fun member => fresh (within member)
  cases changed with
  | false =>
    obtain rfl := unchanged rfl
    refine ⟨_, .of_root inside owns forest fresh', ?_, fun _ => rfl⟩
    refine (Rebuilt.refl g (id :: below)).widen (List.Subset.refl _) fun i member => .inr ?_
    exact (List.cons_subset_cons _ within) member
  | true =>
    have here : ∀ i ∈ roots', i < g.size := forest.root_lt
    refine ⟨_, Forest.setChildren inside forest fresh' freed, ?_, fun _ => ?_⟩
    · refine rebuilt_setChildren inside here ?_ ?_ (List.cons_subset_cons _ within)
      · exact List.cons_subset_cons _ under.subset
      · exact fun i member => List.mem_cons_of_mem _ (within (forest.subset member))
    · rw [if_pos rfl, parent_setChildren inside here, if_neg fun member => ?_,
        if_neg fun held => ?_]
      · exact fresh (under.subset held.1)
      · exact fresh' (forest.subset member)

theorem follows_flattening (v : Vocabulary) : (flattening v).Follows (leaveFlattening v) where
  enter _ _ := rfl
  leave := by
    intro g id q ids tree
    change Leaves _ _ _ _ (isPlainCombine v g id >>= _)
    rw [isPlainCombine_eq tree]
    refine leaves_bind fun plain _ => ?_
    refine leaves_ite (fun _ => leaves_keep tree) fun _ => ?_
    obtain ⟨children, below, rfl, rfl, inside, owns, under, fresh⟩ := tree.root_cases
    change Leaves _ _ _ (spliced v children >>= _) (splice v g (g.children id) >>= _)
    have made := splices (v := v) under
    cases expected : spliced v children with
    | error e =>
      rw [expected] at made
      rw [made.of_error]
      exact rfl
    | ok qs =>
      rw [expected] at made
      obtain ⟨roots', changed, ids', left, forest, within, freed, unchanged⟩ := made.of_ok
      rw [left]
      exact leaves_relist inside owns under fresh forest within freed unchanged

end Flattening

section Scope

theorem atBoundary_eq (c : Capability) :
    atBoundary v g id c = readOtherwise v c ((g.parent id).map g.queryAt) := by
  rw [atBoundary]
  cases g.parent id with
  | none => rfl
  | some parent =>
    dsimp only
    rw [resolve_eq]
    rfl

theorem needsScope_eq (m : Meaning) (wanted : Bool) (c : Capability) (wrapper : Form) :
    needsScope v g id m wanted c wrapper =
      scopeNeeded v ((g.parent id).map g.queryAt) m wanted c wrapper := by
  rw [needsScope, atBoundary_eq]
  rfl

theorem follows_passageScope (v : Vocabulary) (scope : PassageScope) :
    (passageScope v scope).Follows (leaveScope v scope) where
  enter _ _ := rfl
  leave := by
    intro g id q ids tree
    refine leaves_ite (fun _ => leaves_keep tree) fun _ => ?_
    rw [resolve_eq, tree.queryAt_eq]
    refine leaves_bind fun m _ => ?_
    rw [needsScope_eq]
    refine leaves_bind fun lengths _ => ?_
    refine leaves_ite (fun _ => leaves_putAbove tree _) fun _ => ?_
    rw [needsScope_eq]
    refine leaves_bind fun extents _ => ?_
    exact leaves_ite (fun _ => leaves_putAbove tree _) fun _ => leaves_keep tree

end Scope

/-- The passes that a preparation is made of, with any settings. -/
inductive Standard : Pass → Prop
  | scoring (v : Vocabulary) (scorer : String) : Standard (scoring v scorer)
  | flattening (v : Vocabulary) : Standard (flattening v)
  | scope (v : Vocabulary) (scope : PassageScope) : Standard (passageScope v scope)

theorem Standard.exists_follows {pass : Pass} (standard : Standard pass) :
    ∃ leave, pass.Follows leave := by
  cases standard with
  | scoring v scorer => exact ⟨_, follows_scoring v scorer⟩
  | flattening v => exact ⟨_, follows_flattening v⟩
  | scope v scope => exact ⟨_, follows_passageScope v scope⟩

theorem exists_forall₂_follows {passes : List Pass} (standard : ∀ pass ∈ passes, Standard pass) :
    ∃ leaves, List.Forall₂ Pass.Follows passes leaves := by
  induction passes with
  | nil => exact ⟨[], .nil⟩
  | cons pass passes ih =>
    obtain ⟨here, others⟩ := List.forall_mem_cons.1 standard
    obtain ⟨leave, follows⟩ := here.exists_follows
    obtain ⟨leaves, follow⟩ := ih others
    exact ⟨leave :: leaves, .cons follows follow⟩

/-- Where the links of a graph agree they agree after standard passes in any order, also when a
failure ends one of them. -/
theorem checkLinks_runAll (inside : g.root < g.size) (agree : g.checkLinks = true)
    {passes : List Pass} (standard : ∀ pass ∈ passes, Standard pass) :
    (runAll passes g).1.checkLinks = true ∧ (runAll passes g).1.root < (runAll passes g).1.size := by
  obtain ⟨leaves, follow⟩ := exists_forall₂_follows standard
  obtain ⟨q, holds⟩ := (checkLinks_iff_holds inside).1 agree
  obtain ⟨q', holds'⟩ := exists_holds_runAll follow holds
  exact ⟨(checkLinks_iff_holds holds'.inside).2 ⟨q', holds'⟩, holds'.inside⟩

def halfKnown : Query :=
  .node "combine" .empty [.node "text" (.single "term" (.string "a")) [], .node "nothing" .empty []]

def onceScoped : List Pass :=
  [passageScope .builtIn { enabled := true, lengths := true, extents := true },
    flattening .builtIn, scoring .builtIn "bm25"]

/-- The first pass fails when it has already put a scope above the first child. -/
theorem checkLinks_halfKnown :
    (ofQuery halfKnown).root < (ofQuery halfKnown).size ∧
      (ofQuery halfKnown).checkLinks = true ∧
      (∀ pass ∈ onceScoped, Standard pass) ∧
      (runAll onceScoped (ofQuery halfKnown)).2 = some (.unknownOperator "nothing") ∧
      (runAll onceScoped (ofQuery halfKnown)).1.size = 4 ∧
      (runAll onceScoped (ofQuery halfKnown)).1.checkLinks = true := by
  have inside : (ofQuery halfKnown).root < (ofQuery halfKnown).size := by decide
  have agree : (ofQuery halfKnown).checkLinks = true := by decide
  have standard : ∀ pass ∈ onceScoped, Standard pass := by
    rw [onceScoped, List.forall_mem_cons, List.forall_mem_cons, List.forall_mem_singleton]
    exact ⟨.scope .., .flattening .., .scoring ..⟩
  refine ⟨inside, agree, standard, ?_, ?_, (checkLinks_runAll inside agree standard).1⟩
  · rfl
  · rfl

/-- Preparing a query makes scoring explicit, then sums flat, then the scope of passages, each from
the leaves up. -/
theorem prepare_eq (levels : List Parameters) (q : Query) :
    prepare v levels q = q.remadeBy [leaveScoring v (scorerSetting levels), leaveFlattening v,
      leaveScope v (.ofSettings levels)] := by
  have finished := finishes_runAll (.cons (follows_scoring v (scorerSetting levels))
    (.cons (follows_flattening v) (.cons (follows_passageScope v (.ofSettings levels)) .nil)))
    (holds_ofQuery q)
  rw [prepare, standard]
  unfold Finishes at finished
  generalize runAll _ _ = ran at finished
  obtain ⟨g, failure⟩ := ran
  split at finished
  · obtain ⟨holds, rfl⟩ := finished
    rename_i made
    rw [made]
    exact congrArg _ holds.toQuery_eq
  · obtain ⟨-, rfl⟩ := finished
    rename_i made
    rw [made]

end Preparation

end RankedRetrieval
