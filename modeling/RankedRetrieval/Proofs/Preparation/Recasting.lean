import RankedRetrieval.Proofs.Preparation.Meanings
import RankedRetrieval.Proofs.Preparation.Walk

set_option autoImplicit false

namespace RankedRetrieval

abbrev Recasting := Option Meaning → Query → Query

namespace Query

section Recast

variable (v : Vocabulary) (step : Recasting)

mutual

def recast (above : Option Meaning) : Query → Query
  | .node operator parameters children =>
    step above (.node operator parameters
      (recastAll (v.meaning (.node operator parameters children)) children))

def recastAll (parent : Meaning) : List Query → List Query
  | [] => []
  | q :: rest => q.recast (some parent) :: recastAll parent rest

end

theorem recastAll_eq_map (parent : Meaning) (qs : List Query) :
    recastAll v step parent qs = qs.map (recast v step (some parent)) := by
  induction qs with
  | nil => rfl
  | cons q rest ih => rw [recastAll, ih, List.map_cons]

def recastBelow (q : Query) : Query :=
  .node q.operator q.parameters (recastAll v step (v.meaning q) q.children)

theorem recastBelow_node (operator : String) (parameters : Parameters) (children : List Query) :
    (node operator parameters children).recastBelow v step =
      .node operator parameters
        (children.map (recast v step (some (v.meaning (.node operator parameters children))))) := by
  rw [recastBelow, recastAll_eq_map]
  rfl

theorem length_recastBelow (q : Query) :
    (q.recastBelow v step).children.length = q.children.length := by
  rw [recastBelow, recastAll_eq_map]
  exact List.length_map _

theorem recast_eq (above : Option Meaning) (q : Query) :
    q.recast v step above = step above (q.recastBelow v step) := by
  cases q with
  | node operator parameters children =>
    rw [recast]
    rfl

end Recast

end Query

/-- Something holds of every node and the meaning of its parent. -/
inductive Everywhere (v : Vocabulary) (P : Option Meaning → Query → Prop) :
    Option Meaning → Query → Prop
  | node {above : Option Meaning} {operator : String} {parameters : Parameters}
      {children : List Query} (here : P above (.node operator parameters children))
      (below : ∀ child ∈ children,
        Everywhere v P (some (v.meaning (.node operator parameters children))) child) :
      Everywhere v P above (.node operator parameters children)

namespace Everywhere

variable {v : Vocabulary} {P P' : Option Meaning → Query → Prop} {above : Option Meaning}
  {q : Query}

theorem root (h : Everywhere v P above q) : P above q := by
  cases h with
  | node here _ => exact here

theorem child (h : Everywhere v P above q) :
    ∀ child ∈ q.children, Everywhere v P (some (v.meaning q)) child := by
  cases h with
  | node _ below => exact below

theorem of (here : P above q)
    (below : ∀ child ∈ q.children, Everywhere v P (some (v.meaning q)) child) :
    Everywhere v P above q := by
  cases q with
  | node operator parameters children => exact .node here below

theorem reroot (h : Everywhere v P above q) {above' : Option Meaning} (here : P above' q) :
    Everywhere v P above' q :=
  .of here h.child

theorem imp (implies : ∀ above q, P above q → P' above q) (h : Everywhere v P above q) :
    Everywhere v P' above q := by
  induction h with
  | node here _ ih => exact .node (implies _ _ here) ih

theorem of_forall (always : ∀ above q, P above q) (above : Option Meaning) (q : Query) :
    Everywhere v P above q := by
  induction q generalizing above with
  | node operator parameters children ih =>
    exact .node (always _ _) fun child member => ih child member _

end Everywhere

/-- Leaving a node of a known query is a step that asks for the meaning of the parent only. Under a
parent that means what its children do, the step changes nothing in what can be asked. -/
structure Recasts (v : Vocabulary) (fits : Option Meaning → Meaning → Prop) (leave : Leaving)
    (step : Recasting) : Prop where
  leave_eq : ∀ {above : Option Query} {q : Query}, (∀ parent ∈ above, v.Knows parent) →
    v.Knows q → fits (above.map v.meaning) (v.meaning q) →
    leave above q = .ok (step (above.map v.meaning) q)
  knows : ∀ {above : Option Meaning} {q : Query}, v.Knows q → fits above (v.meaning q) →
    v.Knows (step above q)
  keeps : ∀ {parent : Meaning} {q : Query}, v.Knows q → fits (some parent) (v.meaning q) →
    (∃ operator mask, v.rule? operator = some (.shared mask parent.form)) →
    v.asked (step (some parent) q) = v.asked q

namespace Recasts

variable {v : Vocabulary} {fits : Option Meaning → Meaning → Prop} {leave : Leaving}
  {step : Recasting} {operator : String} {parameters : Parameters} {children : List Query}

abbrev Fitting (v : Vocabulary) (fits : Option Meaning → Meaning → Prop) :
    Option Meaning → Query → Prop :=
  Everywhere v fun above q => fits above (v.meaning q)

/-- Recasting the children leaves a known query known, with the meaning that it has. -/
theorem recastBelow_known (recasts : Recasts v fits leave step) {q : Query} (known : v.Knows q)
    {above : Option Meaning} (fitting : Fitting v fits above q) :
    v.Knows (q.recastBelow v step) ∧ v.meaning (q.recastBelow v step) = v.meaning q := by
  induction q generalizing above with
  | node operator parameters children ih =>
    cases known with
    | node rule below =>
      set m := v.meaning (.node operator parameters children) with meant
      have fit := fitting.child
      have done : ∀ child ∈ children, v.Knows (child.recast v step (some m)) ∧
          ((∃ operator mask, v.rule? operator = some (.shared mask m.form)) →
            v.asked (child.recast v step (some m)) = v.asked child) := by
        intro child member
        have placed := (fit child member).root
        obtain ⟨known, same⟩ := ih child member (below child member) (fit child member)
        rw [Query.recast_eq]
        rw [← same] at placed
        refine ⟨recasts.knows known placed, fun shared => ?_⟩
        rw [recasts.keeps known placed shared, Vocabulary.asked, same, Vocabulary.asked]
      have listed : (Query.node operator parameters children).recastBelow v step =
          .node operator parameters (children.map (Query.recast v step (some m))) :=
        Query.recastBelow_node v step operator parameters children
      have below' : ∀ child ∈ children.map (Query.recast v step (some m)), v.Knows child := by
        refine List.forall_mem_map.2 fun child member => (done child member).1
      rw [listed]
      refine ⟨.node rule below', Vocabulary.meaning_congr rule below below' ?_⟩
      intro mask form shared
      have form_eq : m.form = form := by rw [meant, Vocabulary.meaning_shared shared below]
      rw [List.map_map]
      refine List.map_congr_left fun child member => ?_
      exact (done child member).2 ⟨operator, mask, form_eq ▸ shared⟩

theorem recast_known (recasts : Recasts v fits leave step) {q : Query} (known : v.Knows q)
    {above : Option Meaning} (fitting : Fitting v fits above q) :
    v.Knows (q.recast v step above) := by
  obtain ⟨known', same⟩ := recasts.recastBelow_known known fitting
  rw [Query.recast_eq]
  refine recasts.knows known' ?_
  rw [same]
  exact fitting.root

theorem asked_recast (recasts : Recasts v fits leave step) {q : Query} (known : v.Knows q)
    {parent : Meaning} (fitting : Fitting v fits (some parent) q)
    (shared : ∃ operator mask, v.rule? operator = some (.shared mask parent.form)) :
    v.asked (q.recast v step (some parent)) = v.asked q := by
  obtain ⟨known', same⟩ := recasts.recastBelow_known known fitting
  have fit := fitting.root
  rw [← same] at fit
  rw [Query.recast_eq, recasts.keeps known' fit shared, Vocabulary.asked, same, Vocabulary.asked]

/-- Halfway through the children, one of them exchanged for a query that can be asked the same, the
parent means what it did. -/
theorem meaning_midway (recasts : Recasts v fits leave step) {m : Meaning} {done rest : List Query}
    {q q' : Query} (known : v.Knows (.node operator parameters (done ++ q :: rest)))
    (meant : v.meaning (.node operator parameters (done ++ q :: rest)) = m)
    (fitting : ∀ child ∈ done, Fitting v fits (some m) child) (known' : v.Knows q')
    (same : v.asked q' = v.asked q) :
    v.Knows (.node operator parameters (done.map (Query.recast v step (some m)) ++ q' :: rest)) ∧
      v.meaning (.node operator parameters
        (done.map (Query.recast v step (some m)) ++ q' :: rest)) = m := by
  cases known with
  | node rule below =>
    obtain ⟨first, others⟩ := List.forall_mem_append.1 below
    obtain ⟨_, last⟩ := List.forall_mem_cons.1 others
    have below' : ∀ child ∈ done.map (Query.recast v step (some m)) ++ q' :: rest,
        v.Knows child := by
      refine List.forall_mem_append.2 ⟨List.forall_mem_map.2 fun child member => ?_,
        List.forall_mem_cons.2 ⟨known', last⟩⟩
      exact recasts.recast_known (first child member) (fitting child member)
    refine ⟨.node rule below', ?_⟩
    rw [← meant]
    refine Vocabulary.meaning_congr rule below (by rw [meant]; exact below')
      fun mask form shared => ?_
    have form_eq : m.form = form := by rw [← meant, Vocabulary.meaning_shared shared below]
    rw [meant, List.map_append, List.map_append, List.map_map, List.map_cons, List.map_cons, same]
    refine congrArg (· ++ _) (List.map_congr_left fun child member => ?_)
    exact recasts.asked_recast (first child member) (fitting child member)
      ⟨operator, mask, form_eq ▸ shared⟩

/-- What the recursion on the children comes to, if it comes to as much for each. -/
theorem remadeFrom_eq_recast (recasts : Recasts v fits leave step) {m : Meaning}
    (done : List Query) {rest : List Query}
    (known : v.Knows (.node operator parameters (done ++ rest)))
    (meant : v.meaning (.node operator parameters (done ++ rest)) = m)
    (fitting : ∀ child ∈ done ++ rest, Fitting v fits (some m) child)
    (each : ∀ q ∈ rest, ∀ around : Query → Query,
      (∀ q', v.Knows q' → v.asked q' = v.asked q →
        v.Knows (around q') ∧ v.meaning (around q') = m) →
      q.remade leave (some around) = .ok (q.recast v step (some m))) :
    Query.remadeFrom leave (.node operator parameters)
        (done.map (Query.recast v step (some m))) rest =
      .ok ((done ++ rest).map (Query.recast v step (some m))) := by
  induction rest generalizing done with
  | nil =>
    rw [List.append_nil]
    rfl
  | cons q rest ih =>
    obtain ⟨here, others⟩ := List.forall_mem_cons.1 each
    rw [Query.remadeFrom, here _ fun q' known' same => recasts.meaning_midway known meant
      (fun child member => fitting child (List.mem_append_left _ member)) known' same]
    have whole : done ++ q :: rest = (done ++ [q]) ++ rest := by rw [List.append_assoc]; rfl
    rw [whole] at known meant fitting ⊢
    have next := ih (done ++ [q]) known meant fitting others
    rw [List.map_append] at next
    exact next

/-- A pass is a recursion in which the parent is known by its meaning. -/
theorem remade_eq_recast (recasts : Recasts v fits leave step) {q : Query} (known : v.Knows q)
    {above : Option Meaning} (fitting : Fitting v fits above q) {parent : Option (Query → Query)}
    (sees : ∀ q', v.Knows q' → v.asked q' = v.asked q →
      (∀ around ∈ parent, v.Knows (around q')) ∧
        (parent.map fun around => v.meaning (around q')) = above) :
    q.remade leave parent = .ok (q.recast v step above) := by
  induction q generalizing above parent with
  | node operator parameters children ih =>
    obtain ⟨known', same⟩ := recasts.recastBelow_known known fitting
    have fit := fitting.root
    rw [← same] at fit
    have below : Query.remadeFrom leave (.node operator parameters) [] children =
        .ok (children.map (Query.recast v step
          (some (v.meaning (.node operator parameters children))))) := by
      refine recasts.remadeFrom_eq_recast [] known rfl fitting.child ?_
      intro q member around seen
      refine ih q member (known.child q member) (fitting.child q member) fun q' known' same => ?_
      obtain ⟨knows, means⟩ := seen q' known' same
      exact ⟨fun f is => Option.some.inj is ▸ knows, congrArg some means⟩
    obtain ⟨knows, means⟩ := sees _ known' (congrArg Meaning.capabilities same)
    rw [← means] at fit ⊢
    have surrounding : ∀ around ∈ parent.map fun around =>
        around ((Query.node operator parameters children).recastBelow v step), v.Knows around := by
      intro q' is
      obtain ⟨around, there, rfl⟩ := Option.mem_map.1 is
      exact knows around there
    have left := recasts.leave_eq surrounding known' (by rw [Option.map_map]; exact fit)
    rw [Option.map_map] at left
    rw [Query.remade, below, ← Query.recastAll_eq_map, Query.recast_eq]
    exact left

end Recasts

section Steps

variable {v : Vocabulary} {step : Recasting} {P P' : Option Meaning → Query → Prop}

theorem recastBelow_eq_self {q : Query}
    (still : ∀ child ∈ q.children, child.recast v step (some (v.meaning q)) = child) :
    q.recastBelow v step = q := by
  have same : Query.recastAll v step (v.meaning q) q.children = q.children := by
    rw [Query.recastAll_eq_map]
    calc q.children.map (Query.recast v step (some (v.meaning q)))
      _ = q.children.map id := List.map_congr_left still
      _ = q.children := List.map_id _
  rw [Query.recastBelow, same]
  cases q with
  | node operator parameters children => rfl

theorem recast_eq_self (still : ∀ above q, P above q → step above q = q) {q : Query}
    {above : Option Meaning} (there : Everywhere v P above q) : q.recast v step above = q := by
  induction q generalizing above with
  | node operator parameters children ih =>
    have below : (Query.node operator parameters children).recastBelow v step =
        .node operator parameters children :=
      recastBelow_eq_self fun child member => ih child member (there.child child member)
    rw [Query.recast_eq, below]
    exact still _ _ there.root

/-- What holds throughout a query holds throughout the recast one, if the step brings it about at a
node that has it throughout its children. -/
theorem everywhere_recast {fits : Option Meaning → Meaning → Prop} {leave : Leaving}
    (recasts : Recasts v fits leave step)
    (brings : ∀ above q q', v.Knows q → P above q → q' = q.recastBelow v step → v.Knows q' →
      v.meaning q' = v.meaning q →
      (∀ child ∈ q'.children, Everywhere v P' (some (v.meaning q')) child) →
      Everywhere v P' above (step above q'))
    {q : Query} (known : v.Knows q) {above : Option Meaning}
    (fitting : Recasts.Fitting v fits above q) (there : Everywhere v P above q) :
    Everywhere v P' above (q.recast v step above) := by
  induction q generalizing above with
  | node operator parameters children ih =>
    obtain ⟨known', same⟩ := recasts.recastBelow_known known fitting
    rw [Query.recast_eq]
    refine brings _ _ _ known there.root rfl known' same fun child member => ?_
    rw [Query.recastBelow, Query.recastAll_eq_map] at member
    obtain ⟨q, inside, rfl⟩ := List.mem_map.1 member
    rw [same]
    exact ih q inside (known.child q inside) (fitting.child q inside) (there.child q inside)

end Steps

end RankedRetrieval
