import Mathlib.Data.List.Forall2
import RankedRetrieval.Plan.Construction
import RankedRetrieval.Preparation.Scoring

set_option autoImplicit false

namespace RankedRetrieval

@[elab_as_elim, induction_eliminator]
theorem Query.induct {motive : Query → Prop}
    (node : ∀ operator parameters children, (∀ child ∈ children, motive child) →
      motive (.node operator parameters children)) : (q : Query) → motive q
  | .node operator parameters children =>
    node operator parameters children fun child _ => induct node child

theorem of_bind_eq_ok {ε β γ : Type} {x : Except ε β} {f : β → Except ε γ} {c : γ}
    (h : (x >>= f) = .ok c) : ∃ b, x = .ok b ∧ f b = .ok c := by
  cases x with
  | error e => cases h
  | ok b => exact ⟨b, rfl, h⟩

theorem bind_eq_ok {ε β γ : Type} {x : Except ε β} {f : β → Except ε γ} {b : β} {c : γ}
    (first : x = .ok b) (next : f b = .ok c) : (x >>= f) = .ok c := by
  rw [first]
  exact next

theorem of_guard_eq_ok {ε γ : Type} {refuse : Prop} [Decidable refuse] {error : ε}
    {rest : PUnit → Except ε γ} {c : γ}
    (h : (if refuse then throw error >>= rest else rest ⟨⟩) = .ok c) :
    ¬refuse ∧ rest ⟨⟩ = .ok c := by
  by_cases bad : refuse
  · rw [if_pos bad] at h
    cases h
  · rw [if_neg bad] at h
    exact ⟨bad, h⟩

theorem guard_eq_ok {ε γ : Type} {refuse : Prop} [Decidable refuse] {error : ε}
    {rest : PUnit → Except ε γ} {c : γ} (fine : ¬refuse) (next : rest ⟨⟩ = .ok c) :
    (if refuse then throw error >>= rest else rest ⟨⟩) = .ok c :=
  (if_neg fine).trans next

namespace Plan

variable {α : Type}

theorem of_answering {plan asked : Plan α} {question : Capability} {operator : String}
    (h : plan.answering question operator = .ok asked) :
    asked = plan ∧ plan.capabilities.has question = true := by
  unfold answering at h
  split at h
  · cases h
    exact ⟨rfl, ‹_›⟩
  · cases h

theorem answering_of_has {plan : Plan α} {question : Capability} {operator : String}
    (answers : plan.capabilities.has question = true) :
    plan.answering question operator = .ok plan :=
  if_pos answers

end Plan

namespace Workshop

open Plan Preparation

variable {α : Type} [Arithmetic α]

def windowOrder? : Form → Option WindowOrder
  | .orderedWindow => some .ordered
  | .unorderedWindow => some .unordered
  | _ => none

def defaultWidth (found : Nat) : WindowOrder → Nat
  | .ordered => 1
  | .unordered => 4 * found

def booleanMode? : Form → Option Mode
  | .booleanAnd => some .all
  | .booleanOr => some .any
  | _ => none

theorem eq_of_windowOrder? {form : Form} {order : WindowOrder}
    (h : windowOrder? form = some order) :
    form = .orderedWindow ∧ order = .ordered ∨ form = .unorderedWindow ∧ order = .unordered := by
  cases form <;> cases h
  · exact .inl ⟨rfl, rfl⟩
  · exact .inr ⟨rfl, rfl⟩

theorem eq_of_booleanMode? {form : Form} {mode : Mode} (h : booleanMode? form = some mode) :
    form = .booleanAnd ∧ mode = .all ∨ form = .booleanOr ∧ mode = .any := by
  cases form <;> cases h
  · exact .inl ⟨rfl, rfl⟩
  · exact .inr ⟨rfl, rfl⟩

theorem eq_of_isScorer {form : Form} (h : isScorer form = true) :
    form = .dirichlet ∨ form = .bm25 := by
  cases form <;> cases h
  · exact .inl rfl
  · exact .inr rfl

abbrev Answer (plans : List (Plan α)) (question : Capability) : Prop :=
  ∀ plan ∈ plans, plan.capabilities.has question = true

theorem kind_scorer (w : Workshop) (form : Form) (parameters : Parameters)
    (lengths counts : Plan α) (term : TermStatistics) (field : FieldStatistics)
    (bounds : LengthBounds) :
    (w.scorer form parameters lengths counts term field bounds).kind = .scored := by
  unfold scorer
  split <;> rfl

def scorerOf (w : Workshop) (form : Form) (parameters : Parameters) (counted : Query)
    (lengths counts : Plan α) (term : TermStatistics) (field : String)
    (source : Vocabulary.LengthSource) : Plan α :=
  let stats := w.collection.fieldStatistics field
  w.scorer form parameters lengths counts term stats
    (w.vocabulary.lengthBounds source counted field stats)

/-- The plan of a query with a meaning, put together from the plans of its children. -/
inductive Assembled (w : Workshop) (m : Meaning) (operator : String) (parameters : Parameters) :
    List Query → List (Plan α) → Plan α → Prop
  | extents {term : String} (form : m.form = .termExtents)
      (given : requiredText operator parameters "term" = .ok term) :
      Assembled w m operator parameters [] []
        (.extents (w.collection.postings (Query.fieldOf parameters) term))
  | counts {term : String} (form : m.form = .termCounts)
      (given : requiredText operator parameters "term" = .ok term) :
      Assembled w m operator parameters [] []
        (.counts (w.collection.postings (Query.fieldOf parameters) term))
  | lengths (form : m.form = .fieldLengths) :
      Assembled w m operator parameters [] []
        (.lengths (w.collection.lengths (Query.fieldOf parameters)))
  | prior {name : String} (form : m.form = .prior)
      (given : requiredText operator parameters "name" = .ok name) :
      Assembled w m operator parameters [] [] (w.priorPlan name)
  | window {children : List Query} {plans : List (Plan α)} {width : Nat} (order : WindowOrder)
      (form : windowOrder? m.form = some order) (some : children.length ≠ 0)
      (answer : Answer plans .extent)
      (wide : Workshop.width operator parameters (defaultWidth children.length order) =
        .ok width) :
      Assembled w m operator parameters children plans (.window order width plans)
  | synonym {children : List Query} {plans : List (Plan α)} (form : m.form = .synonym)
      (some : children.length ≠ 0) (occurs : m.has .extent = true)
      (answer : Answer plans .extent) :
      Assembled w m operator parameters children plans (.synonym plans)
  | synonymCounts {children : List Query} {plans : List (Plan α)} (form : m.form = .synonym)
      (some : children.length ≠ 0) (counted : m.has .extent = false)
      (answer : Answer plans .count) :
      Assembled w m operator parameters children plans (.synonymCounts plans)
  | passageFilter {child : Query} {plan : Plan α} (form : m.form = .passageFilter)
      (answers : plan.capabilities.has .extent = true) :
      Assembled w m operator parameters [child] [plan] (.passageFilter plan)
  | passageLength {child : Query} {plan : Plan α} (form : m.form = .passageLength)
      (answers : plan.capabilities.has .length = true) :
      Assembled w m operator parameters [child] [plan] (.passageLength plan)
  | scorerOfCounts {counted : Query} {counts : Plan α} {term : TermStatistics}
      (form : isScorer m.form = true)
      (answers : counts.capabilities.has .count = true)
      (measured : w.statistics counted counts = .ok term) :
      Assembled w m operator parameters [counted] [counts]
        (w.scorerOf m.form parameters counted
          (.lengths (w.collection.lengths (Query.scorerField parameters counted.fieldHint))) counts
          term (Query.scorerField parameters counted.fieldHint) { plain := true, clipped := false })
  | scorer {side counted : Query} {lengths counts : Plan α} {term : TermStatistics}
      (form : isScorer m.form = true)
      (measures : lengths.capabilities.has .length = true)
      (answers : counts.capabilities.has .count = true)
      (measured : w.statistics counted counts = .ok term) :
      Assembled w m operator parameters [side, counted] [lengths, counts]
        (w.scorerOf m.form parameters counted lengths counts term
          (Query.fieldOf side.source.parameters) (w.vocabulary.lengthSource side))
  | combine {children : List Query} {plans : List (Plan α)} {method : Method}
      (form : m.form = .combine) (some : children.length ≠ 0) (answer : Answer plans .scored)
      (known : Workshop.method operator parameters = .ok method) :
      Assembled w m operator parameters children plans
        (.combine method (mode parameters) plans (weights parameters children.length))
  | log {child : Query} {plan : Plan α} (form : m.form = .logarithm)
      (answers : plan.capabilities.has .scored = true) :
      Assembled w m operator parameters [child] [plan] (.log plan)
  | scale {child : Query} {plan : Plan α} (form : m.form = .scale)
      (answers : plan.capabilities.has .scored = true) :
      Assembled w m operator parameters [child] [plan]
        (.scale (Arithmetic.given ((parameters.read Json.asReal "weight").getD 1.0)) plan)
  | require {filtering scoring : Query} {filter scorer : Plan α} (form : m.form = .require)
      (answers : scorer.capabilities.has .scored = true) :
      Assembled w m operator parameters [filtering, scoring] [filter, scorer]
        (.require filter scorer)
  | boolean {children : List Query} {plans : List (Plan α)} (mode : Mode)
      (form : booleanMode? m.form = some mode) (some : children.length ≠ 0)
      (answer : Answer plans .indicator) :
      Assembled w m operator parameters children plans (.boolean mode plans)

abbrev Plans (w : Workshop) : List Query → List (Plan α) → Prop :=
  List.Forall₂ fun q plan => w.build q = .ok plan

variable {w : Workshop} {m : Meaning} {operator : String} {parameters : Parameters}
  {children : List Query} {plans : List (Plan α)} {plan : Plan α} {question : Capability}

theorem of_asked_eq_ok {γ : Type} {q : Query} {rest : Plan α → Except QueryError γ} {c : γ}
    (h : (w.build q >>= fun plan => plan.answering question operator >>= rest) = .ok c) :
    ∃ plan, w.build q = .ok plan ∧ plan.capabilities.has question = true ∧ rest plan = .ok c := by
  obtain ⟨plan, built, h⟩ := of_bind_eq_ok h
  obtain ⟨asked, answered, done⟩ := of_bind_eq_ok h
  obtain ⟨rfl, answers⟩ := of_answering answered
  exact ⟨asked, built, answers, done⟩

theorem asked_eq_ok {γ : Type} {q : Query} {rest : Plan α → Except QueryError γ} {c : γ}
    (built : w.build q = .ok plan) (answers : plan.capabilities.has question = true)
    (next : rest plan = .ok c) :
    (w.build q >>= fun plan => plan.answering question operator >>= rest) = .ok c :=
  bind_eq_ok built (bind_eq_ok (answering_of_has answers) next)

theorem buildAll_eq_ok_iff : w.buildAll question operator children = .ok plans ↔
    Plans w children plans ∧ Answer plans question := by
  induction children generalizing plans with
  | nil =>
    unfold buildAll
    constructor
    · intro h
      cases h
      exact ⟨.nil, List.forall_mem_nil _⟩
    · rintro ⟨⟨⟩, _⟩
      rfl
  | cons q rest ih =>
    unfold buildAll
    constructor
    · intro h
      obtain ⟨plan, built, answers, h⟩ := of_asked_eq_ok h
      obtain ⟨others, all, h⟩ := of_bind_eq_ok h
      cases h
      obtain ⟨builtAll, answer⟩ := ih.1 all
      exact ⟨.cons built builtAll, List.forall_mem_cons.2 ⟨answers, answer⟩⟩
    · rintro ⟨built, answer⟩
      cases built with
      | cons first others =>
        obtain ⟨here, answer⟩ := List.forall_mem_cons.1 answer
        exact asked_eq_ok first here (bind_eq_ok (ih.2 ⟨others, answer⟩) rfl)

theorem of_buildAll_eq_ok {γ : Type} {rest : List (Plan α) → Except QueryError γ} {c : γ}
    (h : (w.buildAll question operator children >>= rest) = .ok c) :
    ∃ plans, Plans w children plans ∧ Answer plans question ∧ rest plans = .ok c := by
  obtain ⟨plans, all, done⟩ := of_bind_eq_ok h
  obtain ⟨built, answer⟩ := buildAll_eq_ok_iff.1 all
  exact ⟨plans, built, answer, done⟩

theorem of_leaf_eq_ok {γ : Type} {error : QueryError} {rest : PUnit → Except QueryError γ} {c : γ}
    (h : (if children.length ≠ 0 then throw error >>= rest else rest ⟨⟩) = .ok c) :
    children = [] ∧ rest ⟨⟩ = .ok c := by
  obtain ⟨none, h⟩ := of_guard_eq_ok h
  exact ⟨List.length_eq_zero_iff.1 (not_not.1 none), h⟩

theorem of_group_eq_ok {γ : Type} {error : QueryError}
    {rest : List (Plan α) → Except QueryError γ} {c : γ}
    (h : (if children.length = 0 then throw error >>= fun _ : PUnit =>
        w.buildAll question operator children >>= rest
      else w.buildAll question operator children >>= rest) = .ok c) :
    children.length ≠ 0 ∧
      ∃ plans, Plans w children plans ∧ Answer plans question ∧ rest plans = .ok c := by
  by_cases none : children.length = 0
  · rw [if_pos none] at h
    cases h
  · rw [if_neg none] at h
    exact ⟨none, of_buildAll_eq_ok h⟩

theorem of_single_eq_ok {f : Plan α → Plan α} {error : QueryError}
    (h : (match children with
      | [child] => do return f (← (← w.build child).answering question operator)
      | _ => throw error) = .ok plan) :
    ∃ child asked, children = [child] ∧ w.build child = .ok asked ∧
      asked.capabilities.has question = true ∧ plan = f asked := by
  split at h
  · rename_i child
    obtain ⟨asked, built, answers, h⟩ := of_asked_eq_ok h
    cases h
    exact ⟨child, asked, rfl, built, answers, rfl⟩
  · cases h

theorem assembled_of_build (h : w.build (.node operator parameters children) = .ok plan) :
    ∃ m plans, w.vocabulary.resolve (.node operator parameters children) = .ok m ∧
      Plans w children plans ∧ Assembled w m operator parameters children plans plan := by
  unfold build at h
  obtain ⟨⟨capabilities, form⟩, resolved, h⟩ := of_bind_eq_ok h
  -- the meaning is fixed before the form is taken apart, so that each case owes the rest alone
  suffices ∃ plans, Plans w children plans ∧
      Assembled w ⟨capabilities, form⟩ operator parameters children plans plan from
    this.elim fun plans h => ⟨_, plans, resolved, h⟩
  clear resolved
  cases form with
  | termExtents =>
    obtain ⟨rfl, h⟩ := of_leaf_eq_ok h
    obtain ⟨term, given, h⟩ := of_bind_eq_ok h
    cases h
    exact ⟨[], .nil, .extents rfl given⟩
  | termCounts =>
    obtain ⟨rfl, h⟩ := of_leaf_eq_ok h
    obtain ⟨term, given, h⟩ := of_bind_eq_ok h
    cases h
    exact ⟨[], .nil, .counts rfl given⟩
  | fieldLengths =>
    obtain ⟨rfl, h⟩ := of_leaf_eq_ok h
    cases h
    exact ⟨[], .nil, .lengths rfl⟩
  | prior =>
    obtain ⟨rfl, h⟩ := of_leaf_eq_ok h
    obtain ⟨name, given, h⟩ := of_bind_eq_ok h
    cases h
    exact ⟨[], .nil, .prior rfl given⟩
  | orderedWindow =>
    obtain ⟨some, plans, built, answer, h⟩ := of_group_eq_ok h
    obtain ⟨width, wide, h⟩ := of_bind_eq_ok h
    cases h
    exact ⟨plans, built, .window .ordered rfl some answer wide⟩
  | unorderedWindow =>
    obtain ⟨some, plans, built, answer, h⟩ := of_group_eq_ok h
    obtain ⟨width, wide, h⟩ := of_bind_eq_ok h
    cases h
    exact ⟨plans, built, .window .unordered rfl some answer wide⟩
  | synonym =>
    obtain ⟨some, h⟩ := of_guard_eq_ok h
    split at h
    · rename_i occurs
      obtain ⟨plans, built, answer, h⟩ := of_buildAll_eq_ok h
      cases h
      exact ⟨plans, built, .synonym rfl some occurs answer⟩
    · rename_i counted
      obtain ⟨plans, built, answer, h⟩ := of_buildAll_eq_ok h
      cases h
      exact ⟨plans, built, .synonymCounts rfl some (eq_false_of_ne_true counted) answer⟩
  | passageFilter =>
    obtain ⟨child, asked, rfl, built, answers, rfl⟩ := of_single_eq_ok h
    exact ⟨[asked], .cons built .nil, .passageFilter rfl answers⟩
  | passageLength =>
    obtain ⟨child, asked, rfl, built, answers, rfl⟩ := of_single_eq_ok h
    exact ⟨[asked], .cons built .nil, .passageLength rfl answers⟩
  | dirichlet | bm25 =>
    dsimp only at h
    split at h
    · obtain ⟨asked, built, answers, h⟩ := of_asked_eq_ok h
      obtain ⟨term, measured, h⟩ := of_bind_eq_ok h
      cases h
      exact ⟨[asked], .cons built .nil, .scorerOfCounts rfl answers measured⟩
    · obtain ⟨measuring, builtSide, measures, h⟩ := of_asked_eq_ok h
      obtain ⟨asked, built, answers, h⟩ := of_asked_eq_ok h
      obtain ⟨term, measured, h⟩ := of_bind_eq_ok h
      cases h
      exact ⟨[measuring, asked], .cons builtSide (.cons built .nil),
        .scorer rfl measures answers measured⟩
    · cases h
  | combine =>
    obtain ⟨some, plans, built, answer, h⟩ := of_group_eq_ok h
    obtain ⟨method, known, h⟩ := of_bind_eq_ok h
    cases h
    exact ⟨plans, built, .combine rfl some answer known⟩
  | logarithm =>
    obtain ⟨child, asked, rfl, built, answers, rfl⟩ := of_single_eq_ok h
    exact ⟨[asked], .cons built .nil, .log rfl answers⟩
  | scale =>
    obtain ⟨child, asked, rfl, built, answers, rfl⟩ := of_single_eq_ok h
    exact ⟨[asked], .cons built .nil, .scale rfl answers⟩
  | require =>
    dsimp only at h
    split at h
    · obtain ⟨filter, builtFilter, h⟩ := of_bind_eq_ok h
      obtain ⟨asked, built, answers, h⟩ := of_asked_eq_ok h
      cases h
      exact ⟨[filter, asked], .cons builtFilter (.cons built .nil), .require rfl answers⟩
    · cases h
  | booleanAnd =>
    obtain ⟨some, plans, built, answer, h⟩ := of_group_eq_ok h
    cases h
    exact ⟨plans, built, .boolean .all rfl some answer⟩
  | booleanOr =>
    obtain ⟨some, plans, built, answer, h⟩ := of_group_eq_ok h
    cases h
    exact ⟨plans, built, .boolean .any rfl some answer⟩
  | custom => cases h

theorem build_of_assembled
    (resolved : w.vocabulary.resolve (.node operator parameters children) = .ok m)
    (built : Plans w children plans) (h : Assembled w m operator parameters children plans plan) :
    w.build (.node operator parameters children) = .ok plan := by
  have all (question : Capability) (answer : Answer plans question) :
      w.buildAll question operator children = .ok plans := buildAll_eq_ok_iff.2 ⟨built, answer⟩
  obtain ⟨capabilities, form⟩ := m
  unfold build
  refine bind_eq_ok resolved ?_
  cases h with
  | extents form given | counts form given | prior form given =>
    obtain rfl := form
    exact bind_eq_ok given rfl
  | lengths form =>
    obtain rfl := form
    rfl
  | window order form some answer wide =>
    rcases eq_of_windowOrder? form with ⟨rfl, rfl⟩ | ⟨rfl, rfl⟩
    · exact guard_eq_ok some (bind_eq_ok (all _ answer) (bind_eq_ok wide rfl))
    · exact guard_eq_ok some (bind_eq_ok (all _ answer) (bind_eq_ok wide rfl))
  | synonym form some occurs answer =>
    obtain rfl := form
    exact guard_eq_ok some ((if_pos occurs).trans (bind_eq_ok (all _ answer) rfl))
  | synonymCounts form some counted answer =>
    obtain rfl := form
    have without := Bool.eq_false_iff.1 counted
    exact guard_eq_ok some ((if_neg without).trans (bind_eq_ok (all _ answer) rfl))
  | passageFilter form answers | passageLength form answers | log form answers
  | scale form answers =>
    obtain rfl := form
    cases built with
    | cons first _ => exact asked_eq_ok first answers rfl
  | scorerOfCounts form answers measured =>
    cases built with
    | cons first _ =>
      rcases eq_of_isScorer form with rfl | rfl
      · exact asked_eq_ok first answers (bind_eq_ok measured rfl)
      · exact asked_eq_ok first answers (bind_eq_ok measured rfl)
  | scorer form measures answers measured =>
    cases built with
    | cons side counted =>
      cases counted with
      | cons counted _ =>
        rcases eq_of_isScorer form with rfl | rfl
        · exact asked_eq_ok side measures (asked_eq_ok counted answers (bind_eq_ok measured rfl))
        · exact asked_eq_ok side measures (asked_eq_ok counted answers (bind_eq_ok measured rfl))
  | combine form some answer known =>
    obtain rfl := form
    exact guard_eq_ok some (bind_eq_ok (all _ answer) (bind_eq_ok known rfl))
  | require form answers =>
    obtain rfl := form
    cases built with
    | cons filter scorer =>
      cases scorer with
      | cons scorer _ =>
        exact bind_eq_ok filter (asked_eq_ok scorer answers rfl)
  | boolean mode form some answer =>
    rcases eq_of_booleanMode? form with ⟨rfl, rfl⟩ | ⟨rfl, rfl⟩
    · exact guard_eq_ok some (bind_eq_ok (all _ answer) rfl)
    · exact guard_eq_ok some (bind_eq_ok (all _ answer) rfl)

theorem of_termExtents (h : Assembled w m operator parameters children plans plan)
    (form : m.form = .termExtents) :
    ∃ term, requiredText operator parameters "term" = .ok term ∧ children = [] ∧
      plan = .extents (w.collection.postings (Query.fieldOf parameters) term) := by
  cases h with
  | extents _ given => exact ⟨_, given, rfl, rfl⟩
  | window _ other | boolean _ other | scorerOfCounts other | scorer other | combine other
  | counts other | lengths other | prior other | synonym other | synonymCounts other
  | passageFilter other | passageLength other | log other | scale other | require other =>
    rw [form] at other
    cases other

theorem of_windowOrder? (h : Assembled w m operator parameters children plans plan)
    {order : WindowOrder} (form : windowOrder? m.form = some order) :
    ∃ width, children.length ≠ 0 ∧ Answer plans .extent ∧
      Workshop.width operator parameters (defaultWidth children.length order) = .ok width ∧
      plan = .window order width plans := by
  cases h with
  | window _ other some answer wide =>
    rw [form, Option.some.injEq] at other
    subst other
    exact ⟨_, some, answer, wide, rfl⟩
  | boolean _ other =>
    rcases eq_of_booleanMode? other with ⟨other, _⟩ | ⟨other, _⟩ <;> rw [other] at form <;>
      cases form
  | scorerOfCounts other | scorer other =>
    rcases eq_of_isScorer other with other | other <;> rw [other] at form <;> cases form
  | extents other | counts other | lengths other | prior other | synonym other
  | synonymCounts other | passageFilter other | passageLength other | combine other | log other
  | scale other | require other =>
    rw [other] at form
    cases form

theorem of_combine (h : Assembled w m operator parameters children plans plan)
    (form : m.form = .combine) :
    ∃ method, Workshop.method operator parameters = .ok method ∧ children.length ≠ 0 ∧
      Answer plans .scored ∧
      plan = .combine method (mode parameters) plans (weights parameters children.length) := by
  cases h with
  | combine _ some answer known => exact ⟨_, known, some, answer, rfl⟩
  | window _ other | boolean _ other | scorerOfCounts other | scorer other | extents other
  | counts other | lengths other | prior other | synonym other | synonymCounts other
  | passageFilter other | passageLength other | log other | scale other | require other =>
    rw [form] at other
    cases other

theorem of_synonym (h : Assembled w m operator parameters children plans plan)
    (form : m.form = .synonym) :
    m.has .extent = true ∧ Answer plans .extent ∧ plan = .synonym plans ∨
      m.has .extent = false ∧ Answer plans .count ∧ plan = .synonymCounts plans := by
  cases h with
  | synonym _ _ occurs answer => exact .inl ⟨occurs, answer, rfl⟩
  | synonymCounts _ _ without answer => exact .inr ⟨without, answer, rfl⟩
  | window _ other | boolean _ other | scorerOfCounts other | scorer other | extents other
  | counts other | lengths other | prior other | combine other | passageFilter other
  | passageLength other | log other | scale other | require other =>
    rw [form] at other
    cases other

theorem of_passageFilter (h : Assembled w m operator parameters children plans plan)
    (form : m.form = .passageFilter) :
    ∃ child inner, children = [child] ∧ plans = [inner] ∧
      inner.capabilities.has .extent = true ∧ plan = .passageFilter inner := by
  cases h with
  | passageFilter _ answers => exact ⟨_, _, rfl, rfl, answers, rfl⟩
  | window _ other | boolean _ other | scorerOfCounts other | scorer other | extents other
  | counts other | lengths other | prior other | synonym other | synonymCounts other
  | passageLength other | combine other | log other | scale other | require other =>
    rw [form] at other
    cases other

theorem of_isScorer (h : Assembled w m operator parameters children plans plan)
    (scores : isScorer m.form = true) :
    (∃ counted counts term, children = [counted] ∧ plans = [counts] ∧
      counts.capabilities.has .count = true ∧ w.statistics counted counts = .ok term ∧
      plan = w.scorerOf m.form parameters counted
        (.lengths (w.collection.lengths (Query.scorerField parameters counted.fieldHint))) counts
        term (Query.scorerField parameters counted.fieldHint) { plain := true, clipped := false }) ∨
    ∃ lengths counts, plans = [lengths, counts] ∧ children.length = 2 ∧
      lengths.capabilities.has .length = true ∧ counts.capabilities.has .count = true := by
  cases h with
  | scorerOfCounts _ answers measured =>
    exact .inl ⟨_, _, _, rfl, rfl, answers, measured, rfl⟩
  | scorer _ measures answers _ => exact .inr ⟨_, _, rfl, rfl, measures, answers⟩
  | window _ form =>
    rcases eq_of_windowOrder? form with ⟨form, _⟩ | ⟨form, _⟩ <;> rw [form] at scores <;>
      cases scores
  | boolean _ form =>
    rcases eq_of_booleanMode? form with ⟨form, _⟩ | ⟨form, _⟩ <;> rw [form] at scores <;>
      cases scores
  | extents form | counts form | lengths form | prior form | synonym form | synonymCounts form
  | passageFilter form | passageLength form | combine form | log form | scale form
  | require form =>
    rw [form] at scores
    cases scores

end Workshop

end RankedRetrieval
