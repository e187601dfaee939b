import RankedRetrieval.Proofs.Plan.Assembled
import RankedRetrieval.Proofs.Preparation.Stable

set_option autoImplicit false

namespace RankedRetrieval.Workshop

open Vocabulary Plan Preparation

variable {α : Type} [Arithmetic α] {w : Workshop} {m : Meaning} {operator : String}
  {parameters : Parameters} {children : List Query} {plans : List (Plan α)} {plan : Plan α}

theorem exists_plan (built : Plans w children plans) :
    ∀ child ∈ children, ∃ plan ∈ plans, w.build child = .ok plan := by
  induction built with
  | nil => exact List.forall_mem_nil _
  | cons first _ ih =>
    refine List.forall_mem_cons.2 ⟨⟨_, List.mem_cons_self, first⟩, fun child member => ?_⟩
    obtain ⟨plan, inside, built⟩ := ih child member
    exact ⟨plan, List.mem_cons_of_mem _ inside, built⟩

section Kinds

/-- The question that plans of a form answer; synonyms may be counted only. -/
def kindOf : Form → Capability
  | .termExtents | .orderedWindow | .unorderedWindow | .synonym | .passageFilter => .extent
  | .termCounts => .count
  | .fieldLengths | .passageLength => .length
  | .booleanAnd | .booleanOr => .indicator
  | _ => .scored

def offersKind : Rule → Bool
  | .fixed capabilities form => capabilities == (kindOf form).offers && form != .synonym
  | .shared _ _ => true

theorem capabilities_of_fixed {capabilities : Capabilities} {form : Form}
    (rule : builtIn.rule? operator = some (.fixed capabilities form)) :
    capabilities = (kindOf form).offers ∧ form ≠ .synonym := by
  have here : offersKind (.fixed capabilities form) = true := of_rule? (by decide) rule
  obtain ⟨same, other⟩ := Bool.and_eq_true_iff.1 here
  exact ⟨eq_of_beq same, bne_iff_ne.1 other⟩

theorem kind_of_assembled (h : Assembled w m operator parameters children plans plan)
    (other : m.form ≠ .synonym) : plan.kind = kindOf m.form := by
  cases h with
  | synonym form | synonymCounts form => exact absurd form other
  | scorerOfCounts form | scorer form =>
    rw [scorerOf, kind_scorer]
    rcases eq_of_isScorer form with form | form <;> rw [form] <;> rfl
  | window order form =>
    rcases eq_of_windowOrder? form with ⟨form, _⟩ | ⟨form, _⟩ <;> rw [form] <;> rfl
  | boolean mode form =>
    rcases eq_of_booleanMode? form with ⟨form, _⟩ | ⟨form, _⟩ <;> rw [form] <;> rfl
  | extents form | counts form | lengths form | prior form | passageFilter form
  | passageLength form | combine form | log form | scale form | require form =>
    rw [form]
    rfl

end Kinds

section Asked

variable {q : Query}

theorem knows_of_build (means : w.vocabulary = builtIn) (h : w.build q = .ok plan) :
    builtIn.Knows q := by
  induction q generalizing plan with
  | node operator parameters children ih =>
    obtain ⟨m, plans, resolved, built, _⟩ := assembled_of_build h
    rw [means] at resolved
    refine .node ?_ fun child member => ?_
    · have form := form_of_resolve resolved
      rw [form?] at form
      obtain ⟨rule, there, _⟩ := Option.map_eq_some_iff.1 form
      exact Option.isSome_iff_exists.2 ⟨rule, there⟩
    · obtain ⟨plan, _, built⟩ := exists_plan built child member
      exact ih child member built

theorem share_of_counted {qs : List Query} (known : ∀ q ∈ qs, builtIn.Knows q)
    (counted : ∀ q ∈ qs, (builtIn.asked q).has .count = true)
    (without : (builtIn.share Capability.extent.offers qs).has .extent = false) :
    builtIn.share Capability.extent.offers qs = Capability.count.offers := by
  have indicates : qs.all (fun q => (builtIn.asked q).has .indicator) = true :=
    List.all_eq_true.2 fun q member => (asked_builtIn (known q member)).1
  have counts : qs.all (fun q => (builtIn.asked q).has .count) = true :=
    List.all_eq_true.2 counted
  ext c
  cases c with
  | extent => exact without
  | indicator => rw [has_share, indicates]; rfl
  | count => rw [has_share, counts]; rfl
  | scored | length => rw [has_share]; rfl

/-- What can be asked of a query can be asked of its plan. -/
theorem asked_of_build (means : w.vocabulary = builtIn) (h : w.build q = .ok plan) :
    builtIn.asked q = plan.capabilities := by
  induction q generalizing plan with
  | node operator parameters children ih =>
    have known := knows_of_build means h
    obtain ⟨m, plans, resolved, built, assembled⟩ := assembled_of_build h
    rw [means] at resolved
    have meant := meaning_of_resolve resolved
    cases known with
    | node rule below =>
      rw [knows] at rule
      obtain ⟨rule, found⟩ := Option.isSome_iff_exists.1 rule
      cases rule with
      | fixed capabilities form =>
        obtain ⟨offered, other⟩ := capabilities_of_fixed found
        rw [meaning_fixed found] at meant
        subst meant
        rw [asked, meaning_fixed found, Plan.capabilities, kind_of_assembled assembled other]
        exact offered
      | shared mask form =>
        obtain ⟨rfl, rfl⟩ := synonym_of_shared found
        rw [meaning_shared found below] at meant
        have counted (answer : Answer plans .count) :
            ∀ child ∈ children, (builtIn.asked child).has .count = true := by
          intro child member
          obtain ⟨plan, inside, built⟩ := exists_plan built child member
          rw [ih child member built]
          exact answer plan inside
        subst meant
        rcases of_synonym assembled rfl with ⟨occurs, _, rfl⟩ | ⟨without, answer, rfl⟩
        · refine (asked_builtIn (knows_of_build means h)).2.1 ?_
          rw [asked, meaning_shared found below]
          exact occurs
        · rw [asked, meaning_shared found below]
          exact share_of_counted below (counted answer) without

end Asked

section Reading

def reads : Capability → Bool
  | .extent | .count | .length => true
  | .scored | .indicator => false

theorem reads_of_has {c question : Capability} (has : c.offers.has question = true)
    (read : reads question = true) : reads c = true := by
  cases c <;> cases question <;> revert has read <;> decide

def Reads (_ : Option Meaning) (q : Query) : Prop := reads (kindOf (builtIn.meaning q).form) = true

theorem reads_of_assembled (h : Assembled w m operator parameters children plans plan)
    (read : reads plan.kind = true) :
    reads (kindOf m.form) = true ∧ ∀ plan ∈ plans, reads plan.kind = true := by
  have all {question : Capability} (answer : Answer plans question)
      (read : reads question = true) : ∀ plan ∈ plans, reads plan.kind = true :=
    fun plan member => reads_of_has (answer plan member) read
  have one {question : Capability} {child : Plan α}
      (answers : child.capabilities.has question = true) (read : reads question = true) :
      ∀ plan ∈ ([child] : List (Plan α)), reads plan.kind = true :=
    List.forall_mem_singleton.2 (reads_of_has answers read)
  cases h with
  | extents form | counts form | lengths form =>
    rw [form]
    exact ⟨rfl, List.forall_mem_nil _⟩
  | window order form _ answer =>
    refine ⟨?_, all answer rfl⟩
    rcases eq_of_windowOrder? form with ⟨form, _⟩ | ⟨form, _⟩ <;> rw [form] <;> rfl
  | synonym form _ _ answer | synonymCounts form _ _ answer =>
    rw [form]
    exact ⟨rfl, all answer rfl⟩
  | passageFilter form answers | passageLength form answers =>
    rw [form]
    exact ⟨rfl, one answers rfl⟩
  | scorerOfCounts form | scorer form =>
    rw [scorerOf, kind_scorer] at read
    cases read
  | prior | combine | log | scale | require | boolean => cases read

theorem everywhere_reads (means : w.vocabulary = builtIn) {q : Query} (h : w.build q = .ok plan)
    (read : reads plan.kind = true) (above : Option Meaning) :
    Everywhere builtIn Reads above q := by
  induction q generalizing plan above with
  | node operator parameters children ih =>
    obtain ⟨m, plans, resolved, built, assembled⟩ := assembled_of_build h
    rw [means] at resolved
    obtain ⟨here, each⟩ := reads_of_assembled assembled read
    refine .node ?_ fun child member => ?_
    · rw [Reads, meaning_of_resolve resolved]
      exact here
    · obtain ⟨plan, inside, built⟩ := exists_plan built child member
      exact ih child member built (each plan inside) _

end Reading

section Scoring

variable {q : Query} {above : Option Meaning}

/-- Nothing has only counts where a score is wanted. -/
def Unwrapped (above : Option Meaning) (q : Query) : Prop :=
  (onlyCounts (builtIn.meaning q) && wantedUnder above) = false

theorem not_onlyCounts_of_scored (has : (builtIn.asked q).has .scored = true) :
    onlyCounts (builtIn.meaning q) = false := by
  have scored : (builtIn.meaning q).has .scored = true := has
  rw [onlyCounts, scored, Bool.not_true, Bool.and_false]

/-- No counts in a query with a plan are to be wrapped, if those of the whole are not. -/
theorem everywhere_unwrapped (means : w.vocabulary = builtIn) (h : w.build q = .ok plan)
    (root : Unwrapped above q) : Everywhere builtIn Unwrapped above q := by
  induction q generalizing plan above with
  | node operator parameters children ih =>
    obtain ⟨m, plans, resolved, built, assembled⟩ := assembled_of_build h
    rw [means] at resolved
    have meant := meaning_of_resolve resolved
    refine .node root fun child member => ?_
    obtain ⟨plan, inside, built⟩ := exists_plan built child member
    refine ih child member built ?_
    -- only a sum wants scores, and its children have them or it would have no plan
    rw [meant, Unwrapped]
    by_cases form : m.form = .combine
    · obtain ⟨_, _, _, answer, _⟩ := of_combine assembled form
      have scored := answer plan inside
      rw [not_onlyCounts_of_scored (asked_of_build means built ▸ scored), Bool.false_and]
    · rw [not_wantedUnder form, Bool.and_false]

def withLengths : Recasting := fun _ q =>
  match isScorer (builtIn.meaning q).form, q.children with
  | true, [counted] =>
    .node q.operator q.parameters
      [lengthsOf (Query.scorerField q.parameters counted.fieldHint), counted]
  | _, _ => q

theorem withLengths_of_counts (above : Option Meaning) {counted : Query}
    (scores : isScorer (builtIn.meaning q).form = true) (listed : q.children = [counted]) :
    withLengths above q = .node q.operator q.parameters
      [lengthsOf (Query.scorerField q.parameters counted.fieldHint), counted] := by
  rw [withLengths, scores, listed]

theorem withLengths_eq_self (above : Option Meaning)
    (enough : isScorer (builtIn.meaning q).form = true → q.children.length ≠ 1) :
    withLengths above q = q := by
  unfold withLengths
  split
  · rename_i scores listed
    exact absurd (congrArg List.length listed) (enough scores)
  · rfl

theorem withScore_eq_withLengths (scorer : String) (unwrapped : Unwrapped above q) :
    withScore scorer above q = withLengths above q := by
  rcases withScore_cases scorer above q with
    ⟨counted, scores, listed, made⟩ | ⟨enough, ⟨needed, _⟩ | ⟨_, made⟩⟩
  · rw [made, withLengths_of_counts above scores listed]
  · exact absurd (needed.symm.trans unwrapped) Bool.noConfusion
  · rw [made, withLengths_eq_self above enough]

theorem fitting_of_unwrapped {scorer : String} (unwrapped : Everywhere builtIn Unwrapped above q) :
    Recasts.Fitting builtIn (scorerFits scorer) above q :=
  unwrapped.imp fun _ _ never needed => absurd (never.symm.trans needed) Bool.false_ne_true

/-- Where nothing is to be wrapped, making scoring explicit writes lengths. -/
theorem recast_withScore (scorer : String) (known : builtIn.Knows q)
    (unwrapped : Everywhere builtIn Unwrapped above q) :
    q.recast builtIn (withScore scorer) above = q.recast builtIn withLengths above := by
  induction q generalizing above with
  | node operator parameters children ih =>
    have recasts := recasts_scoring scorer
    have same := (recasts.recastBelow_known known (fitting_of_unwrapped unwrapped)).2
    have below : (Query.node operator parameters children).recastBelow builtIn (withScore scorer) =
        (Query.node operator parameters children).recastBelow builtIn withLengths := by
      rw [Query.recastBelow_node, Query.recastBelow_node]
      refine congrArg _ (List.map_congr_left fun child member => ?_)
      exact ih child member (known.child child member) (unwrapped.child child member)
    rw [Query.recast_eq, Query.recast_eq, ← below]
    refine withScore_eq_withLengths scorer ?_
    rw [Unwrapped, same]
    exact unwrapped.root

end Scoring

end RankedRetrieval.Workshop
