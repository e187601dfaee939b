import RankedRetrieval.Proofs.Graph.Offered
import RankedRetrieval.Proofs.Preparation.Conserved

set_option autoImplicit false

/-!
# Flattening and what can be built

A sum without children has no plan, but below another plain sum it is not there anymore once sums
are flat. Nothing else that keeps a query from having a plan comes or goes when sums are made flat
(`build_flattened`).
-/

namespace RankedRetrieval.Workshop

open Vocabulary Plan Preparation

variable {α : Type} [Arithmetic α] {w : Workshop} {m : Meaning} {operator : String}
  {parameters : Parameters} {children children' : List Query} {plans plans' : List (Plan α)}
  {plan : Plan α} {q : Query} {above : Option Meaning} {question : Capability}

variable (α) in
def Builds (w : Workshop) (q : Query) : Prop := ∃ plan : Plan α, w.build q = .ok plan

/-- No plain sum without children stands below a plain sum. -/
def Filled (_ : Option Meaning) (q : Query) : Prop :=
  plainSum q = true → ∀ child ∈ q.children, plainSum child = true → child.children ≠ []

section Alike

/-- But for scorers, what is put together from plans can be put together from plans that can be
asked the same. -/
theorem exists_assembled_alike (h : Assembled w m operator parameters children plans plan)
    (plain : isScorer m.form = false) (length : children'.length = children.length)
    (alike : AskedAlike plans plans') :
    ∃ plan', Assembled w m operator parameters children' plans' plan' := by
  have h := assembled_congr h plain length
  have answer {question : Capability} : Answer plans question → Answer plans' question :=
    alike.answer
  clear length
  cases h with
  | extents form given =>
    cases alike
    exact ⟨_, .extents form given⟩
  | counts form given =>
    cases alike
    exact ⟨_, .counts form given⟩
  | lengths form =>
    cases alike
    exact ⟨_, .lengths form⟩
  | prior form given =>
    cases alike
    exact ⟨_, .prior form given⟩
  | window order form some answers wide => exact ⟨_, .window order form some (answer answers) wide⟩
  | synonym form some occurs answers => exact ⟨_, .synonym form some occurs (answer answers)⟩
  | synonymCounts form some without answers =>
    exact ⟨_, .synonymCounts form some without (answer answers)⟩
  | passageFilter form answers =>
    obtain ⟨_, rfl, answers⟩ := alike.single answers
    exact ⟨_, .passageFilter form answers⟩
  | passageLength form answers =>
    obtain ⟨_, rfl, answers⟩ := alike.single answers
    exact ⟨_, .passageLength form answers⟩
  | scorerOfCounts form | scorer form => exact absurd (form.symm.trans plain) Bool.noConfusion
  | combine form some answers known => exact ⟨_, .combine form some (answer answers) known⟩
  | log form answers =>
    obtain ⟨_, rfl, answers⟩ := alike.single answers
    exact ⟨_, .log form answers⟩
  | scale form answers =>
    obtain ⟨_, rfl, answers⟩ := alike.single answers
    exact ⟨_, .scale form answers⟩
  | require form answers =>
    obtain ⟨_, _, _, scorers, rfl⟩ := List.forall₂_cons_left_iff.1 alike
    obtain ⟨_, rfl, answers⟩ := AskedAlike.single scorers answers
    exact ⟨_, .require form answers⟩
  | boolean mode form some answers => exact ⟨_, .boolean mode form some (answer answers)⟩

theorem exists_plans_alike (means : w.vocabulary = builtIn)
    (each : List.Forall₂ (fun q q' => builtIn.asked q' = builtIn.asked q ∧
      (w.Builds α q → w.Builds α q')) children children') (built : Plans w children plans) :
    ∃ plans', Plans w children' plans' ∧ AskedAlike plans plans' := by
  induction each generalizing plans with
  | nil =>
    cases built
    exact ⟨[], .nil, .nil⟩
  | cons first _ ih =>
    cases built with
    | cons here others =>
      obtain ⟨plan', here'⟩ := first.2 ⟨_, here⟩
      obtain ⟨plans', others', alike⟩ := ih others
      have same := (asked_of_build means here').symm.trans
        (first.1.trans (asked_of_build means here))
      exact ⟨plan' :: plans', .cons here' others', .cons same alike⟩

/-- But for scorers, children that can be asked the same and have plans may stand for those of a
query with a plan, if it means the same with them. -/
theorem builds_alike (means : w.vocabulary = builtIn)
    (known' : builtIn.Knows (.node operator parameters children'))
    (same : builtIn.meaning (.node operator parameters children') =
      builtIn.meaning (.node operator parameters children))
    (plain : isScorer (builtIn.meaning (.node operator parameters children)).form = false)
    (each : List.Forall₂ (fun q q' => builtIn.asked q' = builtIn.asked q ∧
      (w.Builds α q → w.Builds α q')) children children')
    (h : w.Builds α (.node operator parameters children)) :
    w.Builds α (.node operator parameters children') := by
  obtain ⟨plan, h⟩ := h
  obtain ⟨m, plans, resolved, built, assembled⟩ := assembled_of_build h
  rw [means] at resolved
  obtain ⟨plans', built', alike⟩ := exists_plans_alike means each built
  rw [meaning_of_resolve resolved] at same plain
  obtain ⟨plan', assembled'⟩ := exists_assembled_alike assembled plain each.length_eq.symm alike
  have resolved' := resolve_eq_meaning known'
  rw [same] at resolved'
  exact ⟨plan', build_of_assembled (means ▸ resolved') built' assembled'⟩

end Alike

section Recast

theorem meaning_flat (known : builtIn.Knows q) (above : Option Meaning) :
    builtIn.meaning (flat above q) = builtIn.meaning q := by
  cases plain : plainSum q with
  | false => rw [flat_of_not_plainSum above plain]
  | true => rw [flat_of_plainSum above plain, meaning_openSums known plain]

theorem recastBelow_flat_known (known : builtIn.Knows q) :
    builtIn.Knows (q.recastBelow builtIn flat) ∧
      builtIn.meaning (q.recastBelow builtIn flat) = builtIn.meaning q :=
  recasts_flattening.recastBelow_known known (.of_forall (fun _ _ => trivial) none q)

theorem meaning_recast_flat (known : builtIn.Knows q) (above : Option Meaning) :
    builtIn.meaning (q.recast builtIn flat above) = builtIn.meaning q := by
  obtain ⟨known', same⟩ := recastBelow_flat_known known
  rw [Query.recast_eq, meaning_flat known', same]

theorem asked_recast_flat (known : builtIn.Knows q) (above : Option Meaning) :
    builtIn.asked (q.recast builtIn flat above) = builtIn.asked q :=
  congrArg Meaning.capabilities (meaning_recast_flat known above)

theorem parameters_recast_flat (q : Query) (above : Option Meaning) :
    (q.recast builtIn flat above).parameters = q.parameters := by
  rw [Query.recast_eq]
  cases plain : plainSum (q.recastBelow builtIn flat) with
  | false =>
    rw [flat_of_not_plainSum above plain]
    rfl
  | true =>
    rw [flat_of_plainSum above plain]
    rfl

theorem plainSum_recastBelow_flat (known : builtIn.Knows q) :
    plainSum (q.recastBelow builtIn flat) = plainSum q := by
  rw [plainSum, (recastBelow_flat_known known).2]
  rfl

theorem knows_recast_flat (known : builtIn.Knows q) (above : Option Meaning) :
    builtIn.Knows (q.recast builtIn flat above) :=
  recasts_flattening.recast_known known (.of_forall (fun _ _ => trivial) above q)

theorem plainSum_recast_flat (known : builtIn.Knows q) (above : Option Meaning) :
    plainSum (q.recast builtIn flat above) = plainSum q := by
  rw [plainSum, meaning_recast_flat known, parameters_recast_flat]
  rfl

/-- Where the query with flat sums only reads, there was no sum to be made flat. -/
theorem recast_flat_of_reads (known : builtIn.Knows q)
    (read : Everywhere builtIn Reads above (q.recast builtIn flat above)) :
    q.recast builtIn flat above = q := by
  induction q generalizing above with
  | node operator parameters children ih =>
    obtain ⟨known', same⟩ := recastBelow_flat_known known
    rw [Query.recast_eq] at read ⊢
    cases plain : plainSum ((Query.node operator parameters children).recastBelow builtIn flat) with
    | true =>
      have reads := read.root
      rw [Reads, meaning_flat known', form_of_plainSum plain] at reads
      cases reads
    | false =>
      rw [flat_of_not_plainSum above plain] at read ⊢
      refine recastBelow_eq_self fun child member => ih child member (known.child child member) ?_
      have below := read.child
      rw [same, Query.recastBelow_node] at below
      exact below _ (List.mem_map_of_mem member)

/-- The children of a scorer with a plan only read, so flat sums are the same there. -/
theorem recastBelow_flat_of_isScorer (means : w.vocabulary = builtIn) (known : builtIn.Knows q)
    (scores : isScorer (builtIn.meaning q).form = true)
    (h : w.Builds α q ∨ w.Builds α (q.recastBelow builtIn flat)) :
    q.recastBelow builtIn flat = q := by
  obtain ⟨operator, parameters, children⟩ := q
  set m := builtIn.meaning (.node operator parameters children)
  have reads {children' : List Query} {plan : Plan α}
      (built : w.build (.node operator parameters children') = .ok plan)
      (same : builtIn.meaning (.node operator parameters children') = m) :
      ∀ child ∈ children', Everywhere builtIn Reads (some m) child := by
    intro child member
    obtain ⟨m', plans, resolved, builtAll, assembled⟩ := assembled_of_build built
    rw [means] at resolved
    rw [← same, meaning_of_resolve resolved] at scores
    obtain ⟨plan, inside, built⟩ := exists_plan builtAll child member
    exact everywhere_reads means built (reads_of_isScorer assembled scores plan inside) _
  refine recastBelow_eq_self fun child member => ?_
  rcases h with ⟨plan, built⟩ | ⟨plan, built⟩
  · exact recast_eq_self flat_of_reads (reads built rfl child member)
  · have same := (recastBelow_flat_known known).2
    rw [Query.recastBelow_node] at built same
    refine recast_flat_of_reads (known.child child member) ?_
    exact reads built same _ (List.mem_map_of_mem member)

/-- Flat sums below a node keep it from having a plan if and only if they keep a child from having
one. -/
theorem builds_recastBelow_iff (means : w.vocabulary = builtIn) (known : builtIn.Knows q)
    (each : ∀ child ∈ q.children, ∀ above,
      w.Builds α (child.recast builtIn flat above) ↔ w.Builds α child) :
    w.Builds α (q.recastBelow builtIn flat) ↔ w.Builds α q := by
  -- a scorer looks into the query of its counts, so there the children must not change at all
  cases scores : isScorer (builtIn.meaning q).form with
  | true =>
    have still := recastBelow_flat_of_isScorer (α := α) means known scores
    exact ⟨fun h => still (.inr h) ▸ h, fun h => (still (.inl h)).symm ▸ h⟩
  | false =>
    obtain ⟨known', same⟩ := recastBelow_flat_known known
    obtain ⟨operator, parameters, children⟩ := q
    rw [Query.recastBelow_node] at known' same ⊢
    constructor
    · refine builds_alike means known same.symm (by rw [same]; exact scores) ?_
      refine List.forall₂_map_left_iff.2 (List.forall₂_same.2 fun child member => ?_)
      exact ⟨(asked_recast_flat (known.child child member) _).symm, (each child member _).1⟩
    · refine builds_alike means known' same scores ?_
      refine List.forall₂_map_right_iff.2 (List.forall₂_same.2 fun child member => ?_)
      exact ⟨asked_recast_flat (known.child child member) _, (each child member _).2⟩

end Recast

section Opening

variable (α) in
def Answers (w : Workshop) (question : Capability) (q : Query) : Prop :=
  ∃ plan : Plan α, w.build q = .ok plan ∧ plan.capabilities.has question = true

theorem answers_iff (means : w.vocabulary = builtIn) :
    w.Answers α question q ↔ w.Builds α q ∧ (builtIn.asked q).has question = true := by
  constructor
  · rintro ⟨plan, h, answers⟩
    exact ⟨⟨plan, h⟩, asked_of_build means h ▸ answers⟩
  · rintro ⟨⟨plan, h⟩, answers⟩
    exact ⟨plan, h, asked_of_build means h ▸ answers⟩

theorem exists_answer_iff {qs : List Query} :
    (∃ plans : List (Plan α), Plans w qs plans ∧ Answer plans question) ↔
      ∀ q ∈ qs, w.Answers α question q := by
  constructor
  · rintro ⟨plans, built, answer⟩ q member
    obtain ⟨plan, inside, built⟩ := exists_plan built q member
    exact ⟨plan, built, answer plan inside⟩
  · intro each
    induction qs with
    | nil => exact ⟨[], .nil, List.forall_mem_nil _⟩
    | cons q rest ih =>
      obtain ⟨⟨plan, here, answers⟩, others⟩ := List.forall_mem_cons.1 each
      obtain ⟨plans, built, answer⟩ := ih others
      exact ⟨plan :: plans, .cons here built, List.forall_mem_cons.2 ⟨answers, answer⟩⟩

theorem builds_plainSum_iff (means : w.vocabulary = builtIn) (known : builtIn.Knows q)
    (plain : plainSum q = true) :
    w.Builds α q ↔ q.children ≠ [] ∧ ∀ child ∈ q.children, w.Answers α .scored child := by
  rw [← exists_answer_iff]
  constructor
  · rintro ⟨plan, h⟩
    obtain ⟨plans, _, built, answer, some⟩ := plan_of_plainSum means h plain
    exact ⟨some, plans, built, answer⟩
  · rintro ⟨some, plans, built, answer⟩
    exact ⟨unitSum plans, build_plainSum means known plain some built answer⟩

theorem answers_plainSum_iff (means : w.vocabulary = builtIn) (plain : plainSum q = true) :
    w.Answers α .scored q ↔ w.Builds α q := by
  constructor
  · rintro ⟨plan, h, _⟩
    exact ⟨plan, h⟩
  · rintro ⟨plan, h⟩
    obtain ⟨plans, rfl, _⟩ := plan_of_plainSum means h plain
    exact ⟨_, h, rfl⟩

/-- A plain sum that is not empty is as good as its children. -/
theorem answers_opened_iff (means : w.vocabulary = builtIn) (known : builtIn.Knows q)
    (some : plainSum q = true → q.children ≠ []) :
    (∀ part ∈ if plainSum q then q.children else [q], w.Answers α .scored part) ↔
      w.Answers α .scored q := by
  cases plain : plainSum q with
  | false =>
    rw [if_neg Bool.false_ne_true]
    exact List.forall_mem_singleton
  | true => rw [if_pos rfl, answers_plainSum_iff means plain, builds_plainSum_iff means known plain,
      and_iff_right (some plain)]

theorem builds_flat_plainSum_iff (means : w.vocabulary = builtIn) (known : builtIn.Knows q)
    (plain : plainSum q = true) (above : Option Meaning) :
    w.Builds α (flat above q) ↔ openSums q.children ≠ [] ∧
      ∀ child ∈ q.children, ∀ part ∈ if plainSum child then child.children else [child],
        w.Answers α .scored part := by
  have opened : builtIn.Knows (flat above q) := recasts_flattening.knows known trivial
  have still : plainSum (.node q.operator q.parameters (openSums q.children)) = true := by
    rw [plainSum, meaning_openSums known plain]
    exact plain
  rw [flat_of_plainSum above plain] at opened ⊢
  rw [builds_plainSum_iff means opened still]
  exact and_congr_right fun _ => List.forall_mem_flatMap

/-- Where no empty sum is below it, a sum has a plan if and only if it has one with the sums below
it opened. -/
theorem builds_flat_iff (means : w.vocabulary = builtIn) (known : builtIn.Knows q)
    (filled : Filled above q) (above' : Option Meaning) :
    w.Builds α (flat above' q) ↔ w.Builds α q := by
  cases plain : plainSum q with
  | false => rw [flat_of_not_plainSum above' plain]
  | true =>
    have empty : openSums q.children = [] ↔ q.children = [] := by
      rw [openSums, List.flatMap_eq_nil_iff]
      constructor
      · intro none
        refine List.eq_nil_iff_forall_not_mem.2 fun child member => ?_
        have gone := none child member
        split at gone
        · exact filled plain child member ‹_› gone
        · cases gone
      · intro none
        rw [none]
        exact List.forall_mem_nil _
    rw [builds_flat_plainSum_iff means known plain, builds_plainSum_iff means known plain]
    refine and_congr (not_congr empty) (forall₂_congr fun child member => ?_)
    exact answers_opened_iff means (known.child child member) (filled plain child member)

end Opening

section Filled

/-- A child that leaves nothing once sums are flat is itself a sum that is empty then. -/
theorem children_gone (known : builtIn.Knows q) (plain : plainSum q = true)
    (none : (q.recast builtIn flat above).children = []) :
    ∀ child ∈ q.children, plainSum child = true ∧
      ∃ above, (child.recast builtIn flat above).children = [] := by
  obtain ⟨operator, parameters, children⟩ := q
  have still := plainSum_recastBelow_flat known
  rw [plain] at still
  rw [Query.recast_eq, flat_of_plainSum above still, Query.recastBelow_node] at none
  change openSums (children.map _) = [] at none
  rw [openSums, List.flatMap_map, List.flatMap_eq_nil_iff] at none
  intro child member
  have gone := none child member
  rw [plainSum_recast_flat (known.child child member)] at gone
  split at gone
  · exact ⟨‹_›, _, gone⟩
  · cases gone

theorem children_eq_nil_of_recast (known : builtIn.Knows q)
    (filled : Everywhere builtIn Filled above q) (plain : plainSum q = true)
    {above' : Option Meaning} (none : (q.recast builtIn flat above').children = []) :
    q.children = [] := by
  induction q generalizing above above' with
  | node operator parameters children ih =>
    refine List.eq_nil_iff_forall_not_mem.2 fun child member => ?_
    obtain ⟨inner, _, gone⟩ := children_gone known plain none child member
    refine filled.root plain child member inner ?_
    exact ih child member (known.child child member) (filled.child child member) inner gone

theorem filled_recastBelow (known : builtIn.Knows q) (filled : Everywhere builtIn Filled above q) :
    Filled above (q.recastBelow builtIn flat) := by
  intro plain child member plainChild none
  rw [plainSum_recastBelow_flat known] at plain
  obtain ⟨operator, parameters, children⟩ := q
  rw [Query.recastBelow_node] at member
  obtain ⟨child, inside, rfl⟩ := List.mem_map.1 member
  have known := known.child child inside
  rw [plainSum_recast_flat known] at plainChild
  exact filled.root plain child inside plainChild
    (children_eq_nil_of_recast known (filled.child child inside) plainChild none)

/-- Where no empty sum is below a plain sum, a query has a plan if and only if it has one with flat
sums. -/
theorem builds_recast_flat_iff (means : w.vocabulary = builtIn) (known : builtIn.Knows q)
    (filled : Everywhere builtIn Filled above q) {above' : Option Meaning} :
    w.Builds α (q.recast builtIn flat above') ↔ w.Builds α q := by
  induction q generalizing above above' with
  | node operator parameters children ih =>
    have below := builds_recastBelow_iff (α := α) means known fun child member _ =>
      ih child member (known.child child member) (filled.child child member)
    rw [Query.recast_eq, ← below]
    exact builds_flat_iff means (recastBelow_flat_known known).1 (filled_recastBelow known filled)
      above'

/-- An empty sum has no plan, and neither has a query with one. -/
theorem everywhere_filled (means : w.vocabulary = builtIn) (h : w.Builds α q)
    (above : Option Meaning) : Everywhere builtIn Filled above q := by
  induction q generalizing above with
  | node operator parameters children ih =>
    obtain ⟨plan, h⟩ := h
    obtain ⟨m, plans, _, built, _⟩ := assembled_of_build h
    refine .node (fun _ child member plain => ?_) fun child member => ?_
    · obtain ⟨plan, _, built⟩ := exists_plan built child member
      obtain ⟨_, _, _, _, some⟩ := plan_of_plainSum means built plain
      exact some
    · obtain ⟨plan, _, built⟩ := exists_plan built child member
      exact ih child member ⟨plan, built⟩ _

end Filled

section Lacking

/-- What fails, fails for a node that needs children and has none. -/
def Lacking {β : Type} (x : Except QueryError β) : Prop :=
  ∃ operator, x = .error (wrongArity operator 1 none 0)

variable (α) in
abbrev Lacks (w : Workshop) (q : Query) : Prop := Lacking (w.build (α := α) q)

namespace Lacking

variable {β γ : Type} {x : Except QueryError β} {f : β → Except QueryError γ}

theorem bind (first : Lacking x) : Lacking (x >>= f) := by
  obtain ⟨operator, rfl⟩ := first
  exact ⟨operator, rfl⟩

theorem after {b : β} (first : x = .ok b) (next : Lacking (f b)) : Lacking (x >>= f) := by
  rw [first]
  exact next

theorem guard {refuse : Prop} [Decidable refuse] {error : QueryError}
    {rest : PUnit → Except QueryError γ} (fine : ¬refuse) (next : Lacking (rest ⟨⟩)) :
    Lacking (if refuse then throw error >>= rest else rest ⟨⟩) := by
  rw [if_neg fine]
  exact next

theorem not_builds (lacks : w.Lacks α q) : ¬w.Builds α q := by
  rintro ⟨plan, h⟩
  obtain ⟨operator, lacks⟩ := lacks
  rw [h] at lacks
  cases lacks

end Lacking

/-- The first child that is refused is what the children are refused for. -/
theorem buildAll_lacking {qs : List Query}
    (each : ∀ q ∈ qs, w.Answers α question q ∨ w.Lacks α q) (lacking : ∃ q ∈ qs, w.Lacks α q) :
    Lacking (w.buildAll (α := α) question operator qs) := by
  induction qs with
  | nil =>
    obtain ⟨_, member, _⟩ := lacking
    exact absurd member List.not_mem_nil
  | cons q rest ih =>
    obtain ⟨here, others⟩ := List.forall_mem_cons.1 each
    unfold buildAll
    rcases here with ⟨plan, h, answers⟩ | lacks
    · refine .after h (.after (answering_of_has answers) (Lacking.bind (ih others ?_)))
      obtain ⟨q', member, lacks⟩ := lacking
      rcases List.mem_cons.1 member with rfl | member
      · exact absurd ⟨plan, h⟩ lacks.not_builds
      · exact ⟨q', member, lacks⟩
    · exact lacks.bind

/-- A query has a plan that can be asked the same as another one, or is refused for a node without
children. -/
def Matches (w : Workshop) (q : Query) (plan' : Plan α) : Prop :=
  (∃ plan : Plan α, w.build q = .ok plan ∧ plan.capabilities = plan'.capabilities) ∨
    w.Lacks α q

theorem answers_or_lacks (each : List.Forall₂ w.Matches children plans)
    (answer : Answer plans question) :
    ∀ child ∈ children, w.Answers α question child ∨ w.Lacks α child := by
  induction each with
  | nil => exact List.forall_mem_nil _
  | cons first _ ih =>
    obtain ⟨here, others⟩ := List.forall_mem_cons.1 answer
    refine List.forall_mem_cons.2 ⟨?_, ih others⟩
    rcases first with ⟨plan, h, same⟩ | lacks
    · exact .inl ⟨plan, h, same ▸ here⟩
    · exact .inr lacks

/-- But for scorers, a query that could be put together is refused for what a child is refused
for. -/
theorem lacks_of_child
    (resolved : w.vocabulary.resolve (.node operator parameters children) = .ok m)
    (h : Assembled w m operator parameters children plans plan) (plain : isScorer m.form = false)
    (each : List.Forall₂ w.Matches children plans)
    (lacking : ∃ child ∈ children, w.Lacks α child) :
    w.Lacks α (.node operator parameters children) := by
  -- `h` says that each check made before the children are built is passed
  have all {question : Capability} (answer : Answer plans question) :
      Lacking (w.buildAll (α := α) question operator children) :=
    buildAll_lacking (answers_or_lacks each answer) lacking
  have only {child : Query} (alone : children = [child]) : w.Lacks α child := by
    subst alone
    obtain ⟨_, member, lacks⟩ := lacking
    exact List.mem_singleton.1 member ▸ lacks
  obtain ⟨capabilities, form⟩ := m
  unfold Lacks build
  refine .after resolved ?_
  cases h with
  | extents | counts | lengths | prior =>
    obtain ⟨_, member, _⟩ := lacking
    exact absurd member List.not_mem_nil
  | window order form some answer wide =>
    rcases eq_of_windowOrder? form with ⟨rfl, rfl⟩ | ⟨rfl, rfl⟩
    · exact .guard some (all answer).bind
    · exact .guard some (all answer).bind
  | synonym form some occurs answer =>
    obtain rfl := form
    refine .guard some ?_
    rw [if_pos occurs]
    exact (all answer).bind
  | synonymCounts form some counted answer =>
    obtain rfl := form
    refine .guard some ?_
    rw [if_neg (Bool.eq_false_iff.1 counted)]
    exact (all answer).bind
  | passageFilter form answers | passageLength form answers | log form answers
  | scale form answers =>
    obtain rfl := form
    exact (only rfl).bind
  | scorerOfCounts form | scorer form => exact absurd (form.symm.trans plain) Bool.noConfusion
  | combine form some answer known =>
    obtain rfl := form
    exact .guard some (all answer).bind
  | require form answers =>
    obtain rfl := form
    obtain ⟨filter, scorers⟩ := List.forall₂_cons.1 each
    rcases filter with ⟨plan, built, _⟩ | lacks
    · obtain ⟨child, member, lacks⟩ := lacking
      rcases List.mem_cons.1 member with rfl | member
      · exact absurd ⟨plan, built⟩ lacks.not_builds
      · obtain rfl := List.mem_singleton.1 member
        exact .after built lacks.bind
    · exact lacks.bind
  | boolean mode form some answer =>
    rcases eq_of_booleanMode? form with ⟨rfl, rfl⟩ | ⟨rfl, rfl⟩
    · exact .guard some (all answer).bind
    · exact .guard some (all answer).bind

theorem matches_alike (means : w.vocabulary = builtIn)
    (each : List.Forall₂ (fun q q' => builtIn.asked q' = builtIn.asked q ∧
      (w.Builds α q → w.Builds α q' ∨ w.Lacks α q')) children children')
    (built : Plans w children plans) : List.Forall₂ w.Matches children' plans := by
  induction each generalizing plans with
  | nil =>
    cases built
    exact .nil
  | cons first _ ih =>
    cases built with
    | cons here others =>
      refine .cons ?_ (ih others)
      rcases first.2 ⟨_, here⟩ with ⟨plan', here'⟩ | lacks
      · refine .inl ⟨plan', here', ?_⟩
        rw [← asked_of_build means here', first.1, asked_of_build means here]
      · exact .inr lacks

/-- What is made of `builds_alike` by children that are refused for a node without children. -/
theorem builds_or_lacks_alike (means : w.vocabulary = builtIn)
    (known' : builtIn.Knows (.node operator parameters children'))
    (same : builtIn.meaning (.node operator parameters children') =
      builtIn.meaning (.node operator parameters children))
    (plain : isScorer (builtIn.meaning (.node operator parameters children)).form = false)
    (each : List.Forall₂ (fun q q' => builtIn.asked q' = builtIn.asked q ∧
      (w.Builds α q → w.Builds α q' ∨ w.Lacks α q')) children children')
    (h : w.Builds α (.node operator parameters children)) :
    w.Builds α (.node operator parameters children') ∨
      w.Lacks α (.node operator parameters children') := by
  by_cases lacking : ∃ child ∈ children', w.Lacks α child
  · obtain ⟨plan, h⟩ := h
    obtain ⟨m, plans, resolved, built, assembled⟩ := assembled_of_build h
    rw [means] at resolved
    have resolved' := resolve_eq_meaning known'
    rw [same] at resolved'
    rw [meaning_of_resolve resolved] at plain resolved'
    exact .inr (lacks_of_child (means ▸ resolved')
      (assembled_congr assembled plain each.length_eq.symm) plain
      (matches_alike means each built) lacking)
  · obtain ⟨length, pairs⟩ := List.forall₂_iff_zip.1 each
    refine .inl (builds_alike means known' same plain ?_ h)
    refine List.forall₂_iff_zip.2 ⟨length, fun pair => ⟨(pairs pair).1, fun built => ?_⟩⟩
    exact ((pairs pair).2 built).resolve_right fun lacks =>
      lacking ⟨_, (List.of_mem_zip pair).2, lacks⟩

theorem builds_or_lacks_of_recastBelow (means : w.vocabulary = builtIn) (known : builtIn.Knows q)
    (each : ∀ child ∈ q.children, ∀ above, w.Builds α (child.recast builtIn flat above) →
      w.Builds α child ∨ w.Lacks α child)
    (h : w.Builds α (q.recastBelow builtIn flat)) : w.Builds α q ∨ w.Lacks α q := by
  cases scores : isScorer (builtIn.meaning q).form with
  | true =>
    rw [recastBelow_flat_of_isScorer means known scores (.inr h)] at h
    exact .inl h
  | false =>
    have same := (recastBelow_flat_known known).2
    obtain ⟨operator, parameters, children⟩ := q
    rw [Query.recastBelow_node] at same h
    refine builds_or_lacks_alike means known same.symm (by rw [same]; exact scores) ?_ h
    refine List.forall₂_map_left_iff.2 (List.forall₂_same.2 fun child member => ?_)
    exact ⟨(asked_recast_flat (known.child child member) _).symm, each child member _⟩

theorem lacks_plainSum (means : w.vocabulary = builtIn) (known : builtIn.Knows q)
    (plain : plainSum q = true)
    (each : ∀ child ∈ q.children, w.Answers α .scored child ∨ w.Lacks α child)
    (unbuilt : ¬w.Builds α q) : w.Lacks α q := by
  rw [builds_plainSum_iff means known plain] at unbuilt
  have form := form_of_plainSum plain
  have resolved := resolve_eq_meaning known
  obtain ⟨operator, parameters, children⟩ := q
  generalize builtIn.meaning (.node operator parameters children) = m at form resolved
  obtain ⟨capabilities, _⟩ := m
  obtain rfl := form
  unfold Lacks build
  refine .after (means ▸ resolved) ?_
  by_cases none : children = []
  · subst none
    exact ⟨operator, rfl⟩
  · refine .guard (fun zero => none (List.length_eq_zero_iff.1 zero)) ?_
    refine (buildAll_lacking each ?_).bind
    by_contra fine
    refine unbuilt ⟨none, fun child member => ?_⟩
    exact (each child member).resolve_right fun lacks => fine ⟨child, member, lacks⟩

theorem lacks_of_gone (means : w.vocabulary = builtIn) (known : builtIn.Knows q)
    (plain : plainSum q = true) (none : (q.recast builtIn flat above).children = []) :
    w.Lacks α q := by
  induction q generalizing above with
  | node operator parameters children ih =>
    have gone := children_gone known plain none
    refine lacks_plainSum means known plain (fun child member => ?_) fun built => ?_
    · obtain ⟨inner, _, none⟩ := gone child member
      exact .inr (ih child member (known.child child member) inner none)
    · have filled := everywhere_filled means built above
      exact ((builds_plainSum_iff means known plain).1 built).1
        (children_eq_nil_of_recast known filled plain none)

theorem answers_or_lacks_of_opened (means : w.vocabulary = builtIn) (known : builtIn.Knows q)
    (each : w.Builds α (q.recast builtIn flat above) → w.Builds α q ∨ w.Lacks α q)
    (parts : ∀ part ∈ if plainSum (q.recast builtIn flat above)
      then (q.recast builtIn flat above).children else [q.recast builtIn flat above],
      w.Answers α .scored part) : w.Answers α .scored q ∨ w.Lacks α q := by
  by_cases gone : plainSum q = true ∧ (q.recast builtIn flat above).children = []
  · exact .inr (lacks_of_gone means known gone.1 gone.2)
  · rw [answers_opened_iff means (knows_recast_flat known above) fun plain none =>
      gone ⟨plainSum_recast_flat known above ▸ plain, none⟩, answers_iff means,
      asked_recast_flat known] at parts
    exact (each parts.1).imp_left fun h => (answers_iff means).2 ⟨h, parts.2⟩

/-- A query that has a plan with flat sums is refused for a node without children, if at all. -/
theorem builds_or_lacks (means : w.vocabulary = builtIn) (known : builtIn.Knows q)
    (h : w.Builds α (q.recast builtIn flat above)) : w.Builds α q ∨ w.Lacks α q := by
  induction q generalizing above with
  | node operator parameters children ih =>
    have each (child) (member : child ∈ children) (above : Option Meaning) :=
      @ih child member above (known.child child member)
    have still := plainSum_recastBelow_flat known
    rw [Query.recast_eq] at h
    cases plain : plainSum (.node operator parameters children) with
    | false =>
      rw [flat_of_not_plainSum above (still.trans plain)] at h
      exact builds_or_lacks_of_recastBelow means known each h
    | true =>
      rw [builds_flat_plainSum_iff means (recastBelow_flat_known known).1 (still.trans plain),
        Query.recastBelow_node] at h
      refine or_iff_not_imp_left.2 (lacks_plainSum means known plain fun child member => ?_)
      exact answers_or_lacks_of_opened means (known.child child member) (each child member _)
        (h.2 _ (List.mem_map_of_mem member))

end Lacking

/-- Making sums flat does not fail, and leaves the links in agreement. A query has a plan if and
only if it has one with flat sums and no plain sum without children was below a plain sum. A query
that has a plan only with flat sums is refused for a node that needs children and has none. -/
theorem build_flattened (means : w.vocabulary = builtIn) {g : QueryGraph}
    (inside : g.root < g.size) (agree : g.checkLinks = true) (known : builtIn.Knows g.toQuery) :
    ((flattening w.vocabulary).run g).failure = none ∧
      ((flattening w.vocabulary).run g).graph.checkLinks = true ∧
      ((∃ plan : Plan α, w.build g.toQuery = .ok plan) ↔
        (∃ plan : Plan α, w.build ((flattening w.vocabulary).run g).graph.toQuery = .ok plan) ∧
          Everywhere builtIn Filled none g.toQuery) ∧
      ((∃ plan : Plan α, w.build ((flattening w.vocabulary).run g).graph.toQuery = .ok plan) →
        (∃ plan : Plan α, w.build g.toQuery = .ok plan) ∨
          ∃ operator, w.build (α := α) g.toQuery = .error (wrongArity operator 1 none 0)) := by
  obtain ⟨q, holds⟩ := (QueryGraph.checkLinks_iff_holds inside).1 agree
  rw [holds.toQuery_eq] at known ⊢
  have ends := Pass.finishes_run (follows_flattening builtIn) holds
  rw [remade_none_eq_recast recasts_flattening known (.of_forall (fun _ _ => trivial) _ _)] at ends
  obtain ⟨flattened, failure⟩ := ends
  rw [means, flattened.toQuery_eq]
  refine ⟨failure, (QueryGraph.checkLinks_iff_holds flattened.inside).2 ⟨_, flattened⟩, ⟨?_, ?_⟩,
    builds_or_lacks means known⟩
  · intro h
    have filled := everywhere_filled means h none
    exact ⟨(builds_recast_flat_iff means known filled).2 h, filled⟩
  · rintro ⟨h, filled⟩
    exact (builds_recast_flat_iff means known filled).1 h

section Example

def sumOfPriors (inner : List Query) : Query :=
  .node "combine" .empty [.node "prior" (.single "name" (.string "a")) [],
    .node "combine" (.single "method" (.string "sum")) inner]

def nestedPriors : QueryGraph :=
  .ofQuery (sumOfPriors [.node "prior" (.single "name" (.string "b")) [],
    .node "prior" (.single "name" (.string "c")) []])

def nestedEmpty : QueryGraph := .ofQuery (sumOfPriors [])

theorem exists_plan_of_isSome (computed : (w.build (α := α) q).toOption.isSome = true) :
    ∃ plan : Plan α, w.build q = .ok plan := by
  cases built : w.build (α := α) q with
  | error e =>
    rw [built] at computed
    cases computed
  | ok plan => exact ⟨plan, rfl⟩

theorem build_flattened_nested :
    nestedPriors.root < nestedPriors.size ∧ nestedPriors.checkLinks = true ∧
      builtIn.Knows nestedPriors.toQuery ∧
      (∃ plan : Plan Float, emptyWorkshop.build nestedPriors.toQuery = .ok plan) ∧
      ((flattening builtIn).run nestedPriors).graph.toQuery.children.length = 3 ∧
      (∃ plan : Plan Float,
        emptyWorkshop.build ((flattening builtIn).run nestedPriors).graph.toQuery = .ok plan) ∧
      Everywhere builtIn Filled none nestedPriors.toQuery := by
  have inside : nestedPriors.root < nestedPriors.size := by decide
  have agree : nestedPriors.checkLinks = true := by decide
  obtain ⟨plan, built⟩ : ∃ plan : Plan Float, emptyWorkshop.build nestedPriors.toQuery = .ok plan :=
    exists_plan_of_isSome (by decide +kernel)
  have known : builtIn.Knows nestedPriors.toQuery := knows_of_build rfl built
  obtain ⟨_, _, same, _⟩ := build_flattened (w := emptyWorkshop) (α := Float) rfl inside agree known
  obtain ⟨there, filled⟩ := same.1 ⟨plan, built⟩
  exact ⟨inside, agree, known, ⟨plan, built⟩, by decide +kernel, there, filled⟩

/-- The empty sum keeps the query from having a plan, but it is gone once sums are flat. -/
theorem build_flattened_empty :
    (∃ plan : Plan Float,
        emptyWorkshop.build ((flattening builtIn).run nestedEmpty).graph.toQuery = .ok plan) ∧
      ¬∃ plan : Plan Float, emptyWorkshop.build nestedEmpty.toQuery = .ok plan := by
  refine ⟨exists_plan_of_isSome (by decide +kernel), fun built => ?_⟩
  have filled := everywhere_filled (α := Float) rfl built none
  exact filled.root (by decide) _ (List.mem_cons_of_mem _ List.mem_cons_self) (by decide) rfl

end Example

end RankedRetrieval.Workshop
