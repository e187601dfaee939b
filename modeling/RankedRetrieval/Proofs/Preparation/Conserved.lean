import RankedRetrieval.Proofs.Plan.Opened
import RankedRetrieval.Proofs.Preparation.Executable

set_option autoImplicit false

namespace RankedRetrieval.Workshop

open Vocabulary Plan Preparation Arithmetic

variable {α : Type} [Arithmetic α] {w : Workshop} {m : Meaning} {operator : String}
  {parameters : Parameters} {children children' : List Query} {plans plans' : List (Plan α)}
  {plan : Plan α} {q : Query} {above : Option Meaning} {question : Capability}

/-- Only synonyms need to be told what their children can be asked. -/
theorem resolve_of_form (resolved : builtIn.resolve (.node operator parameters children) = .ok m)
    (other : m.form ≠ .synonym) (children' : List Query) :
    builtIn.resolve (.node operator parameters children') = .ok m := by
  have form := form_of_resolve resolved
  rw [form?] at form
  obtain ⟨rule, there, same⟩ := Option.map_eq_some_iff.1 form
  dsimp only [Query.operator] at there
  rw [resolve, there] at resolved ⊢
  cases rule with
  | fixed capabilities form => exact resolved
  | shared mask form => exact absurd (same.symm.trans (synonym_of_shared there).2) other

theorem reads_of_synonym (h : Assembled w m operator parameters children plans plan)
    (form : m.form = .synonym) : reads plan.kind = true := by
  rcases of_synonym h form with ⟨_, _, rfl⟩ | ⟨_, _, rfl⟩
  · rfl
  · rfl

theorem reads_of_isScorer (h : Assembled w m operator parameters children plans plan)
    (scores : isScorer m.form = true) : ∀ plan ∈ plans, reads plan.kind = true := by
  rcases of_isScorer h scores with
    ⟨_, _, _, _, rfl, answers, _, _⟩ | ⟨_, _, rfl, _, measures, answers⟩
  · exact List.forall_mem_singleton.2 (reads_of_has answers rfl)
  · exact List.forall_mem_cons.2 ⟨reads_of_has measures rfl,
      List.forall_mem_singleton.2 (reads_of_has answers rfl)⟩

/-- But for scorers, a plan is put together from the plans of the children alone. -/
theorem assembled_congr (h : Assembled w m operator parameters children plans plan)
    (other : isScorer m.form = false) (length : children'.length = children.length) :
    Assembled w m operator parameters children' plans plan := by
  cases h with
  | extents form given =>
    rw [List.length_eq_zero_iff.1 length]
    exact .extents form given
  | counts form given =>
    rw [List.length_eq_zero_iff.1 length]
    exact .counts form given
  | lengths form =>
    rw [List.length_eq_zero_iff.1 length]
    exact .lengths form
  | prior form given =>
    rw [List.length_eq_zero_iff.1 length]
    exact .prior form given
  | window order form some answer wide =>
    rw [← length] at some wide
    exact .window order form some answer wide
  | synonym form some occurs answer => exact .synonym form (length ▸ some) occurs answer
  | synonymCounts form some without answer =>
    exact .synonymCounts form (length ▸ some) without answer
  | passageFilter form answers =>
    obtain ⟨child, rfl⟩ := List.length_eq_one_iff.1 length
    exact .passageFilter form answers
  | passageLength form answers =>
    obtain ⟨child, rfl⟩ := List.length_eq_one_iff.1 length
    exact .passageLength form answers
  | scorerOfCounts form | scorer form => exact absurd (form.symm.trans other) Bool.noConfusion
  | combine form some answer known =>
    rw [← length] at some ⊢
    exact .combine form some answer known
  | log form answers =>
    obtain ⟨child, rfl⟩ := List.length_eq_one_iff.1 length
    exact .log form answers
  | scale form answers =>
    obtain ⟨child, rfl⟩ := List.length_eq_one_iff.1 length
    exact .scale form answers
  | require form answers =>
    obtain ⟨filter, scorer, rfl⟩ := List.length_eq_two.1 length
    exact .require form answers
  | boolean mode form some answer => exact .boolean mode form (length ▸ some) answer

/-- A step that leaves what is read alone leaves what a scorer reads alone. Elsewhere the plan is
put together from the plans of the children. -/
theorem recastBelow_cases {step : Recasting} (still : ∀ above q, Reads above q → step above q = q)
    (means : w.vocabulary = builtIn) (h : w.build (.node operator parameters children) = .ok plan) :
    (Query.node operator parameters children).recastBelow builtIn step =
        .node operator parameters children ∨
      ∃ m plans, builtIn.resolve (.node operator parameters children) = .ok m ∧
        Plans w children plans ∧ Assembled w m operator parameters children plans plan ∧
        m.form ≠ .synonym ∧ isScorer m.form = false ∧ reads plan.kind = false := by
  obtain ⟨m, plans, resolved, built, assembled⟩ := assembled_of_build h
  have unchanged (each : ∀ plan ∈ plans, reads plan.kind = true) :
      (Query.node operator parameters children).recastBelow builtIn step =
        .node operator parameters children := by
    refine recastBelow_eq_self fun child member => ?_
    obtain ⟨plan, inside, built⟩ := exists_plan built child member
    exact recast_eq_self still (everywhere_reads means built (each plan inside) _)
  -- synonyms look at what their children offer, and scorers at the field that a child names, but
  -- the plans below them are read and the step leaves such children alone
  cases read : reads plan.kind with
  | true => exact .inl (unchanged (reads_of_assembled assembled read).2)
  | false =>
    cases scores : isScorer m.form with
    | true => exact .inl (unchanged (reads_of_isScorer assembled scores))
    | false =>
      refine .inr ⟨m, plans, means ▸ resolved, built, assembled, fun form => ?_, scores, rfl⟩
      exact absurd ((reads_of_synonym assembled form).symm.trans read) Bool.noConfusion

section Lengths

theorem withLengths_of_reads (above : Option Meaning) (q : Query) (read : Reads above q) :
    withLengths above q = q := by
  refine withLengths_eq_self above fun scores => ?_
  rcases eq_of_isScorer scores with form | form <;> rw [Reads, form] at read <;> cases read

theorem build_lengthsOf (means : w.vocabulary = builtIn) (field : String) :
    w.build (α := α) (lengthsOf field) = .ok (.lengths (w.collection.lengths field)) := by
  have resolved : w.vocabulary.resolve (lengthsOf field) =
      .ok { capabilities := Capability.length.offers, form := .fieldLengths } := by
    rw [means]
    rfl
  exact build_of_assembled resolved .nil (.lengths rfl)

/-- A scorer of counts alone is one that is given the lengths of its field. -/
theorem assembled_withLengths (means : w.vocabulary = builtIn) {counted : Query}
    (h : Assembled w m operator parameters [counted] plans plan) (scores : isScorer m.form = true) :
    let field := Query.scorerField parameters counted.fieldHint
    Assembled w m operator parameters [lengthsOf field, counted]
      (.lengths (w.collection.lengths field) :: plans) plan := by
  intro field
  rcases of_isScorer h scores with
    ⟨_, counts, term, alone, rfl, answers, measured, rfl⟩ | ⟨_, _, _, two, _⟩
  · cases alone
    have made : Assembled w m operator parameters [lengthsOf field, counted]
        [.lengths (w.collection.lengths field), counts]
        (w.scorerOf m.form parameters counted (.lengths (w.collection.lengths field)) counts term
          (Query.fieldOf (lengthsOf field).source.parameters)
          (w.vocabulary.lengthSource (lengthsOf field))) := .scorer scores rfl answers measured
    rw [means] at made
    exact made
  · cases two

theorem build_withLengths (means : w.vocabulary = builtIn) (h : w.build q = .ok plan)
    (above : Option Meaning) : w.build (withLengths above q) = .ok plan := by
  by_cases enough : isScorer (builtIn.meaning q).form = true → q.children.length ≠ 1
  · rw [withLengths_eq_self above enough]
    exact h
  · obtain ⟨scores, alone⟩ := Classical.not_imp.1 enough
    obtain ⟨operator, parameters, children⟩ := q
    obtain ⟨counted, rfl⟩ := List.length_eq_one_iff.1 (not_not.1 alone)
    obtain ⟨m, plans, resolved, built, assembled⟩ := assembled_of_build h
    rw [means] at resolved
    have meant := meaning_of_resolve resolved
    rw [withLengths_of_counts above scores rfl]
    rw [meant] at scores
    have other := not_synonym_of_isScorer scores
    exact build_of_assembled (means ▸ resolve_of_form resolved other _)
      (.cons (build_lengthsOf means _) built) (assembled_withLengths means assembled scores)

/-- Writing out the lengths of scorers does not change the plan. -/
theorem build_recast_withLengths (means : w.vocabulary = builtIn) (h : w.build q = .ok plan)
    (above : Option Meaning) : w.build (q.recast builtIn withLengths above) = .ok plan := by
  induction q generalizing plan above with
  | node operator parameters children ih =>
    rw [Query.recast_eq]
    refine build_withLengths means ?_ above
    rcases recastBelow_cases withLengths_of_reads means h with
      same | ⟨m, plans, resolved, built, assembled, other, plain, _⟩
    · rw [same]
      exact h
    · rw [Query.recastBelow_node]
      refine build_of_assembled (means ▸ resolve_of_form resolved other _) ?_
        (assembled_congr assembled plain (List.length_map _))
      refine List.forall₂_map_left_iff.2 (List.forall₂_iff_get.2 ⟨built.length_eq, ?_⟩)
      intro i inside inside'
      exact ih _ (List.get_mem _ _) (List.forall₂_iff_get.1 built |>.2 i inside inside') _

theorem everywhere_build_recast (means : w.vocabulary = builtIn) (h : w.build q = .ok plan)
    (above : Option Meaning) :
    Everywhere builtIn (fun above part => ∃ plan : Plan α, w.build part = .ok plan ∧
      w.build (part.recast builtIn withLengths above) = .ok plan) above q := by
  induction q generalizing plan above with
  | node operator parameters children ih =>
    refine .node ⟨plan, h, build_recast_withLengths means h above⟩ fun child member => ?_
    obtain ⟨m, plans, _, built, _⟩ := assembled_of_build h
    obtain ⟨plan, _, built⟩ := exists_plan built child member
    exact ih child member built _

end Lengths

section PlainSums

variable {p : Parameters}

theorem get?_of_isPlain (plain : isPlain p = true) {key : String} (other : key ≠ "method") :
    p.get? key = none := by
  cases there : p.get? key with
  | none => rfl
  | some value =>
    have field := List.all_eq_true.1 plain (key, value) (Table.mem_of_get? there)
    exact absurd (eq_of_beq (Bool.and_eq_true_iff.1 field).1) other

theorem toString_ne_method (i : Nat) : toString i ≠ "method" := by
  intro same
  have digits := congrArg String.toList same
  rw [Nat.toString_eq_repr, Nat.toList_repr] at digits
  have letter : 'm' ∈ Nat.toDigits 10 i := digits ▸ by decide
  exact absurd (Nat.isDigit_of_mem_toDigits (by decide) (by decide) letter) (by decide)

theorem weights_of_isPlain (plain : isPlain p = true) (count : Nat) :
    weights (α := α) p count = List.replicate count (unitWeight α) := by
  have unnormed : p.read Json.asFlag "norm" = none := by
    rw [Parameters.read, get?_of_isPlain plain (by decide)]
    rfl
  have unset (i : Nat) : p.read Json.asReal (toString i) = none := by
    rw [Parameters.read, get?_of_isPlain plain (toString_ne_method i)]
    rfl
  rw [weights, unnormed]
  simp only [unset, Option.getD_none]
  rw [List.map_const', List.length_range]
  rfl

theorem mode_of_isPlain (plain : isPlain p = true) : mode p = .any := by
  have unset : p.string? "mode" = none := by
    rw [Parameters.string?, Parameters.read, get?_of_isPlain plain (by decide)]
    rfl
  rw [mode, unset]
  rfl

theorem method_of_isPlain (plain : isPlain p = true) : method operator p = .ok .sum := by
  have summed : p.string? "method" = none ∨ p.string? "method" = some "sum" := by
    rw [Parameters.string?, Parameters.read]
    cases there : p.get? "method" with
    | none => exact .inl rfl
    | some value =>
      have field := List.all_eq_true.1 plain ("method", value) (Table.mem_of_get? there)
      exact .inr (eq_of_beq (Bool.and_eq_true_iff.1 field).2)
  unfold method
  rcases summed with unset | sum
  · rw [unset]
  · rw [sum]
    rfl

end PlainSums

section Flattening

theorem flat_of_reads (above : Option Meaning) (q : Query) (read : Reads above q) :
    flat above q = q := by
  refine flat_of_not_plainSum above (Bool.eq_false_iff.2 fun plain => ?_)
  rw [Reads, form_of_plainSum plain] at read
  cases read

theorem plan_of_plainSum (means : w.vocabulary = builtIn) (h : w.build q = .ok plan)
    (plain : plainSum q = true) :
    ∃ plans, plan = unitSum plans ∧ Plans w q.children plans ∧ Answer plans .scored ∧
      q.children ≠ [] := by
  obtain ⟨operator, parameters, children⟩ := q
  obtain ⟨m, plans, resolved, built, assembled⟩ := assembled_of_build h
  rw [means] at resolved
  have form := form_of_plainSum plain
  have simple : isPlain parameters = true := (Bool.and_eq_true_iff.1 plain).2
  rw [meaning_of_resolve resolved] at form
  obtain ⟨method, known, some, answer, rfl⟩ := of_combine assembled form
  rw [method_of_isPlain simple] at known
  cases known
  rw [mode_of_isPlain simple, weights_of_isPlain simple, built.length_eq]
  exact ⟨plans, rfl, built, answer, fun none => some (congrArg List.length none)⟩

theorem build_plainSum (means : w.vocabulary = builtIn) (known : builtIn.Knows q)
    (plain : plainSum q = true) (some : q.children ≠ []) (built : Plans w q.children plans)
    (answer : Answer plans .scored) : w.build q = .ok (unitSum plans) := by
  obtain ⟨operator, parameters, children⟩ := q
  have simple : isPlain parameters = true := (Bool.and_eq_true_iff.1 plain).2
  have nonempty : children.length ≠ 0 := fun none => some (List.length_eq_zero_iff.1 none)
  have made : Assembled w (builtIn.meaning (.node operator parameters children)) operator parameters
      children plans (.combine .sum (mode parameters) plans (weights parameters children.length)) :=
    .combine (form_of_plainSum plain) nonempty answer (method_of_isPlain simple)
  have counted : children.length = plans.length := built.length_eq
  rw [mode_of_isPlain simple, weights_of_isPlain simple, counted] at made
  refine build_of_assembled ?_ built made
  rw [means]
  exact resolve_eq_meaning known

theorem exists_opens (means : w.vocabulary = builtIn) {qs : List Query}
    (built : Plans w qs plans) (answer : Answer plans .scored) :
    ∃ plans', Plans w (openSums qs) plans' ∧ Answer plans' .scored ∧ Opens unitSum plans plans' ∧
      (qs ≠ [] → openSums qs ≠ []) := by
  induction built with
  | nil => exact ⟨[], .nil, List.forall_mem_nil _, .nil, fun some => absurd rfl some⟩
  | @cons q plan qs plans first _ ih =>
    obtain ⟨here, others⟩ := List.forall_mem_cons.1 answer
    obtain ⟨rest, builtRest, answerRest, opens, _⟩ := ih others
    rw [openSums_cons]
    cases plain : plainSum q with
    | false =>
      exact ⟨plan :: rest, .cons first builtRest, List.forall_mem_cons.2 ⟨here, answerRest⟩,
        .keep plan opens, fun _ => List.cons_ne_nil _ _⟩
    | true =>
      obtain ⟨inner, rfl, builtInner, answerInner, some⟩ := plan_of_plainSum means first plain
      exact ⟨inner ++ rest, List.rel_append builtInner builtRest,
        List.forall_mem_append.2 ⟨answerInner, answerRest⟩, .enter inner opens,
        fun _ none => some (List.append_eq_nil_iff.1 none).1⟩

/-- Making a sum flat opens the sums among its children. -/
theorem exists_flat (means : w.vocabulary = builtIn)
    (one : isPositiveOrZero (unitWeight α) = true) (h : w.build q = .ok plan)
    (above : Option Meaning) :
    ∃ plan', w.build (flat above q) = .ok plan' ∧ Regroups plan plan' := by
  cases plain : plainSum q with
  | false =>
    rw [flat_of_not_plainSum above plain]
    exact ⟨plan, h, .refl plan⟩
  | true =>
    rw [flat_of_plainSum above plain]
    obtain ⟨plans, rfl, built, answer, some⟩ := plan_of_plainSum means h plain
    obtain ⟨plans', built', answer', opens, some'⟩ := exists_opens means built answer
    have known := knows_of_build means h
    have opened : builtIn.Knows (.node q.operator q.parameters (openSums q.children)) := by
      rw [← flat_of_plainSum above plain]
      exact recasts_flattening.knows known trivial
    have still : plainSum (.node q.operator q.parameters (openSums q.children)) = true := by
      rw [plainSum, meaning_openSums known plain]
      exact plain
    exact ⟨unitSum plans', build_plainSum means opened still (some' some) built' answer',
      regroups_unitSum one opens⟩

abbrev AskedAlike : List (Plan α) → List (Plan α) → Prop :=
  List.Forall₂ fun plan plan' => plan'.capabilities = plan.capabilities

omit [Arithmetic α] in
theorem AskedAlike.answer (alike : AskedAlike plans plans') (answer : Answer plans question) :
    Answer plans' question := by
  induction alike with
  | nil => exact List.forall_mem_nil _
  | cons same _ ih =>
    obtain ⟨here, others⟩ := List.forall_mem_cons.1 answer
    exact List.forall_mem_cons.2 ⟨same ▸ here, ih others⟩

omit [Arithmetic α] in
theorem AskedAlike.single (alike : AskedAlike [plan] plans')
    (answers : plan.capabilities.has question = true) :
    ∃ plan', plans' = [plan'] ∧ plan'.capabilities.has question = true := by
  obtain ⟨plan', rest, same, none, rfl⟩ := List.forall₂_cons_left_iff.1 alike
  cases none
  exact ⟨plan', rfl, same ▸ answers⟩

/-- Regrouped children make a regrouped plan. -/
theorem exists_assembled (h : Assembled w m operator parameters children plans plan)
    (plain : isScorer m.form = false) (scoring : reads plan.kind = false)
    (fits : children.length = plans.length) (each : List.Forall₂ Regroups plans plans') :
    ∃ plan', Assembled w m operator parameters children plans' plan' ∧ Regroups plan plan' := by
  have asked {child child' : Plan α} (same : Regroups child child') :
      child'.capabilities = child.capabilities := congrArg Capability.offers same.kind
  have alike : AskedAlike plans plans' := each.imp fun _ _ => asked
  obtain ⟨length, paired⟩ := List.forall₂_iff_zip.1 each
  have pairs : ∀ pair ∈ plans.zip plans', Regroups pair.1 pair.2 := fun _ member => paired member
  have fst : (plans.zip plans').map Prod.fst = plans := List.map_fst_zip length.le
  have snd : (plans.zip plans').map Prod.snd = plans' := List.map_snd_zip length.ge
  cases h with
  | prior form given =>
    cases each
    exact ⟨_, .prior form given, .refl _⟩
  | @combine _ _ method form some answer known =>
    have weighted : (weights (α := α) parameters children.length).length =
        (plans.zip plans').length := by
      rw [length_weights, fits, List.length_zip, ← length, Nat.min_self]
    have regroups := regroups_combine pairs method (mode parameters) weighted
    rw [fst, snd] at regroups
    exact ⟨_, .combine form some (alike.answer answer) known, regroups⟩
  | log form answers =>
    obtain ⟨plan', _, same, none, rfl⟩ := List.forall₂_cons_left_iff.1 each
    cases none
    exact ⟨_, .log form (asked same ▸ answers), regroups_log same⟩
  | scale form answers =>
    obtain ⟨plan', _, same, none, rfl⟩ := List.forall₂_cons_left_iff.1 each
    cases none
    exact ⟨_, .scale form (asked same ▸ answers), regroups_scale _ same⟩
  | require form answers =>
    obtain ⟨filter', _, filters, rest, rfl⟩ := List.forall₂_cons_left_iff.1 each
    obtain ⟨scorer', _, scorers, none, rfl⟩ := List.forall₂_cons_left_iff.1 rest
    cases none
    exact ⟨_, .require form (asked scorers ▸ answers), regroups_require filters scorers⟩
  | boolean mode form some answer =>
    have regroups := regroups_boolean pairs mode
    rw [fst, snd] at regroups
    exact ⟨_, .boolean mode form some (alike.answer answer), regroups⟩
  | scorerOfCounts form | scorer form => exact absurd (form.symm.trans plain) Bool.noConfusion
  | extents | counts | lengths | window | synonym | synonymCounts | passageFilter
  | passageLength => cases scoring

theorem exists_plans {f : Query → Query} (built : Plans w children plans)
    (each : ∀ child ∈ children, ∀ {plan : Plan α}, w.build child = .ok plan →
      ∃ plan', w.build (f child) = .ok plan' ∧ Regroups plan plan') :
    ∃ plans', Plans w (children.map f) plans' ∧ List.Forall₂ Regroups plans plans' := by
  induction built with
  | nil => exact ⟨[], .nil, .nil⟩
  | cons first _ ih =>
    obtain ⟨here, others⟩ := List.forall_mem_cons.1 each
    obtain ⟨plan', built', same⟩ := here first
    obtain ⟨plans', rest, alike⟩ := ih others
    exact ⟨plan' :: plans', .cons built' rest, .cons same alike⟩

/-- The plan of a query with flat sums does what the plan of the query does. -/
theorem exists_regrouped (means : w.vocabulary = builtIn)
    (one : isPositiveOrZero (unitWeight α) = true) (h : w.build q = .ok plan)
    (above : Option Meaning) :
    ∃ plan', w.build (q.recast builtIn flat above) = .ok plan' ∧ Regroups plan plan' := by
  induction q generalizing plan above with
  | node operator parameters children ih =>
    rw [Query.recast_eq]
    rcases recastBelow_cases flat_of_reads means h with
      same | ⟨m, plans, resolved, built, assembled, other, plain, scoring⟩
    · rw [same]
      exact exists_flat means one h above
    · obtain ⟨plans', built', alike⟩ := exists_plans (f := Query.recast builtIn flat
        (some (builtIn.meaning (.node operator parameters children)))) built
        fun child member _ built => ih child member built _
      obtain ⟨plan', assembled', regroups⟩ := exists_assembled
        (assembled_congr assembled plain (List.length_map _)) plain scoring
        ((List.length_map _).trans built.length_eq) alike
      have below := build_of_assembled (means ▸ resolve_of_form resolved other _) built' assembled'
      -- the children are flat by now, so only one level remains to be opened
      obtain ⟨flattened, made, opened⟩ := exists_flat means one below above
      rw [Query.recastBelow_node]
      exact ⟨flattened, made, regroups.trans opened⟩

end Flattening

end RankedRetrieval.Workshop
