import RankedRetrieval.Proofs.Preparation.Passes
import RankedRetrieval.Proofs.Preparation.Recasting
import RankedRetrieval.Retrieval.Execution
import RankedRetrieval.Collection.Builder

set_option autoImplicit false

/-!
# Preparing a prepared query

Each of the standard passes brings about what it looks for, and the later ones keep it. So with the
built-in vocabulary a prepared query is left as it is when it is prepared again (`prepare_prepare`).
-/

namespace RankedRetrieval.Preparation

open Vocabulary

def onlyCounts (m : Meaning) : Bool := m.has .count && !m.has .scored

def wantedUnder (above : Option Meaning) : Bool := above.all fun m => m.form == .combine

def withScore (scorer : String) : Recasting := fun above q =>
  match isScorer (builtIn.meaning q).form, q.children with
  | true, [counts] =>
    .node q.operator q.parameters
      [lengthsOf (Query.scorerField q.parameters counts.fieldHint), counts]
  | _, _ =>
    if onlyCounts (builtIn.meaning q) && wantedUnder above then
      .node scorer .empty [lengthsOf q.fieldHint, q]
    else q

def plainSum (q : Query) : Bool := (builtIn.meaning q).form == .combine && isPlain q.parameters

def openSums (qs : List Query) : List Query :=
  qs.flatMap fun q => if plainSum q then q.children else [q]

def flat : Recasting := fun _ q =>
  if plainSum q then .node q.operator q.parameters (openSums q.children) else q

def crosses (above : Option Meaning) (m : Meaning) (wanted : Bool) (c : Capability)
    (wrapper : Form) : Bool :=
  wanted && m.has c && m.form != wrapper &&
    above.all fun parent => !parent.capabilities.isEmpty && !parent.has c

def withScope (scope : PassageScope) : Recasting := fun above q =>
  if !scope.enabled then q
  else if crosses above (builtIn.meaning q) scope.lengths .length .passageLength then
    .node "passage-length" .empty [q]
  else if crosses above (builtIn.meaning q) scope.extents .extent .passageFilter then
    .node "passage-filter" .empty [q]
  else q

section Meanings

variable {operator : String} {parameters : Parameters} {children : List Query} {q : Query}
  {above : Option Meaning}

theorem meaning_lengthsOf (field : String) :
    builtIn.meaning (lengthsOf field) =
      { capabilities := Capability.length.offers, form := .fieldLengths } :=
  meaning_fixed rfl

theorem knows_lengthsOf (field : String) : builtIn.Knows (lengthsOf field) :=
  .leaf rfl

theorem meaning_passageLength :
    builtIn.meaning (.node "passage-length" parameters children) =
      { capabilities := Capability.length.offers, form := .passageLength } :=
  meaning_fixed rfl

theorem meaning_passageFilter :
    builtIn.meaning (.node "passage-filter" parameters children) =
      { capabilities := Capability.extent.offers, form := .passageFilter } :=
  meaning_fixed rfl

theorem meaning_dirichlet :
    builtIn.meaning (.node "dirichlet" parameters children) =
      { capabilities := Capability.scored.offers, form := .dirichlet } :=
  meaning_fixed rfl

theorem meaning_bm25 :
    builtIn.meaning (.node "bm25" parameters children) =
      { capabilities := Capability.scored.offers, form := .bm25 } :=
  meaning_fixed rfl

theorem meaning_children (children' : List Query)
    (known : builtIn.Knows (.node operator parameters children))
    (other : (builtIn.meaning (.node operator parameters children)).form ≠ .synonym) :
    builtIn.meaning (.node operator parameters children') =
      builtIn.meaning (.node operator parameters children) := by
  cases known with
  | node rule below =>
    rw [knows] at rule
    obtain ⟨rule, found⟩ := Option.isSome_iff_exists.1 rule
    cases rule with
    | fixed capabilities form => rw [meaning_fixed found, meaning_fixed found]
    | shared mask form =>
      rw [meaning_shared found below] at other
      exact absurd (synonym_of_shared found).2 other

theorem not_synonym_of_isScorer {form : Form} (scores : isScorer form = true) :
    form ≠ .synonym := by
  rintro rfl
  cases scores

def offersScores : Rule → Bool
  | .fixed capabilities form =>
    !(isScorer form || form == .combine) || capabilities == Capability.scored.offers
  | .shared _ _ => true

theorem asked_of_scores (known : builtIn.Knows q)
    (scores : isScorer (builtIn.meaning q).form = true ∨ (builtIn.meaning q).form = .combine) :
    builtIn.asked q = Capability.scored.offers := by
  cases known with
  | @node operator _ _ rule below =>
    rw [knows] at rule
    obtain ⟨rule, found⟩ := Option.isSome_iff_exists.1 rule
    cases rule with
    | fixed capabilities form =>
      rw [asked, meaning_fixed found]
      rw [meaning_fixed found] at scores
      have here : offersScores (.fixed capabilities form) = true := of_rule? (by decide) found
      have scoring : (isScorer form || form == .combine) = true := by
        rcases scores with scorer | combine
        · exact Bool.or_eq_true _ _ ▸ .inl scorer
        · exact Bool.or_eq_true _ _ ▸ .inr (beq_iff_eq.2 combine)
      rw [offersScores, scoring, Bool.not_true, Bool.false_or] at here
      exact eq_of_beq here
    | shared mask form =>
      rw [meaning_shared found below, (synonym_of_shared found).2] at scores
      rcases scores with scorer | combine
      · cases scorer
      · cases combine

end Meanings

section Steps

variable {scorer : String} {scope : PassageScope} {above : Option Meaning} {q : Query}

def scorerFits (scorer : String) (above : Option Meaning) (m : Meaning) : Prop :=
  (onlyCounts m && wantedUnder above) = true → builtIn.knows scorer = true

theorem not_wantedUnder {parent : Meaning} (other : parent.form ≠ .combine) :
    wantedUnder (some parent) = false :=
  beq_eq_false_iff_ne.2 other

theorem withScore_cases (scorer : String) (above : Option Meaning) (q : Query) :
    (∃ counts, isScorer (builtIn.meaning q).form = true ∧ q.children = [counts] ∧
      withScore scorer above q = .node q.operator q.parameters
        [lengthsOf (Query.scorerField q.parameters counts.fieldHint), counts]) ∨
    (isScorer (builtIn.meaning q).form = true → q.children.length ≠ 1) ∧
      ((onlyCounts (builtIn.meaning q) && wantedUnder above) = true ∧
          withScore scorer above q = .node scorer .empty [lengthsOf q.fieldHint, q] ∨
        (onlyCounts (builtIn.meaning q) && wantedUnder above) = false ∧
          withScore scorer above q = q) := by
  unfold withScore
  split
  · rename_i counts scores listed
    exact .inl ⟨counts, scores, listed, rfl⟩
  · rename_i other
    refine .inr ⟨fun scores one => ?_, ?_⟩
    · obtain ⟨counts, listed⟩ := List.length_eq_one_iff.1 one
      exact other counts scores listed
    · split
      · exact .inl ⟨‹_›, rfl⟩
      · exact .inr ⟨Bool.eq_false_of_not_eq_true ‹_›, rfl⟩

theorem scoreWanted_eq {above : Option Query} (around : ∀ parent ∈ above, builtIn.Knows parent) :
    scoreWanted builtIn above = .ok (wantedUnder (above.map builtIn.meaning)) := by
  cases above with
  | none => rfl
  | some parent =>
    rw [scoreWanted, resolve_eq_meaning (around parent rfl)]
    rfl

theorem offered_eq (scorer : String) {above : Option Query}
    (around : ∀ parent ∈ above, builtIn.Knows parent) (q : Query) :
    (if !(builtIn.meaning q).has .count || (builtIn.meaning q).has .scored then
        (.ok q : Except QueryError Query)
      else do
        if ← scoreWanted builtIn above then return .node scorer .empty [lengthsOf q.fieldHint, q]
        else return q) =
      .ok (if onlyCounts (builtIn.meaning q) && wantedUnder (above.map builtIn.meaning) then
        .node scorer .empty [lengthsOf q.fieldHint, q] else q) := by
  rw [scoreWanted_eq around, onlyCounts]
  cases (builtIn.meaning q).has .count <;> cases (builtIn.meaning q).has .scored <;>
    cases wantedUnder (above.map builtIn.meaning) <;> rfl

theorem recasts_scoring (scorer : String) :
    Recasts builtIn (scorerFits scorer) (leaveScoring builtIn scorer) (withScore scorer) where
  leave_eq := by
    intro above q around known _
    rw [leaveScoring, resolve_eq_meaning known, withScore]
    change (match isScorer (builtIn.meaning q).form, q.children with
      | true, [counts] => _
      | _, _ => _) = _
    split
    · rfl
    · exact offered_eq scorer around q
  knows := by
    intro above q known fits
    rcases withScore_cases scorer above q with
      ⟨counts, _, listed, made⟩ | ⟨_, ⟨needed, made⟩ | ⟨_, made⟩⟩
    · rw [made]
      cases known with
      | node rule below =>
        obtain rfl := listed
        exact .node rule (List.forall_mem_cons.2 ⟨knows_lengthsOf _, below⟩)
    · rw [made]
      exact .node (fits needed)
        (List.forall_mem_cons.2 ⟨knows_lengthsOf _, List.forall_mem_singleton.2 known⟩)
    · rw [made]
      exact known
  keeps := by
    rintro parent q known _ ⟨operator, mask, shared⟩
    have synonym := (synonym_of_shared shared).2
    have unwanted : wantedUnder (some parent) = false :=
      not_wantedUnder (synonym ▸ by decide)
    rcases withScore_cases scorer (some parent) q with
      ⟨counts, scores, listed, made⟩ | ⟨_, ⟨needed, made⟩ | ⟨_, made⟩⟩
    · rw [made]
      cases q with
      | node operator parameters children =>
        have other := not_synonym_of_isScorer scores
        exact congrArg Meaning.capabilities (meaning_children _ known other)
    · rw [unwanted, Bool.and_false] at needed
      cases needed
    · rw [made]

/-- No scorer lacks lengths, and nothing lacks a score that is wanted of it. -/
def Scored (above : Option Meaning) (q : Query) : Prop :=
  (isScorer (builtIn.meaning q).form = true → q.children.length ≠ 1) ∧
    (onlyCounts (builtIn.meaning q) && wantedUnder above) = false

theorem withScore_eq_self (scored : Scored above q) : withScore scorer above q = q := by
  rcases withScore_cases scorer above q with
    ⟨counts, scores, listed, _⟩ | ⟨_, ⟨needed, _⟩ | ⟨_, made⟩⟩
  · exact absurd (congrArg List.length listed) (scored.1 scores)
  · rw [scored.2] at needed
    cases needed
  · exact made

theorem not_onlyCounts (known : builtIn.Knows q)
    (scores : isScorer (builtIn.meaning q).form = true ∨ (builtIn.meaning q).form = .combine) :
    onlyCounts (builtIn.meaning q) = false := by
  have offered := asked_of_scores known scores
  rw [asked] at offered
  rw [onlyCounts, Meaning.has, Meaning.has, offered]
  rfl

theorem everywhere_scored_lengthsOf (above : Option Meaning) (field : String) :
    Everywhere builtIn Scored above (lengthsOf field) := by
  refine .of ⟨?_, ?_⟩ (List.forall_mem_nil _)
  · rw [meaning_lengthsOf]
    exact fun scores => (Bool.false_ne_true scores).elim
  · rw [meaning_lengthsOf]
    rfl

theorem everywhere_scored (known : builtIn.Knows q) (there : builtIn.knows scorer = true)
    (scores : ∀ children, isScorer (builtIn.meaning (.node scorer .empty children)).form = true) :
    Everywhere builtIn Scored above (q.recast builtIn (withScore scorer) above) := by
  refine everywhere_recast (P := fun _ _ => True) (recasts_scoring scorer) ?_ known
    (.of_forall (fun _ _ _ => there) _ _) (.of_forall (fun _ _ => trivial) _ _)
  intro above _ q _ _ _ known _ below
  have noScore {q : Query} (known : builtIn.Knows q)
      (scorer : isScorer (builtIn.meaning q).form = true) (above : Option Meaning) :
      (onlyCounts (builtIn.meaning q) && wantedUnder above) = false := by
    rw [not_onlyCounts known (.inl scorer), Bool.false_and]
  rcases withScore_cases scorer above q with
    ⟨counts, scoring, listed, made⟩ | ⟨plenty, ⟨needed, made⟩ | ⟨enough, made⟩⟩
  · rw [made]
    cases q with
    | node operator parameters children =>
      have same := meaning_children
        [lengthsOf (Query.scorerField parameters counts.fieldHint), counts] known
        (not_synonym_of_isScorer scoring)
      refine .node ⟨fun _ => Nat.succ_succ_ne_one 0, ?_⟩ ?_
      · dsimp only [Query.operator, Query.parameters]
        rw [same]
        exact noScore known scoring above
      · dsimp only [Query.operator, Query.parameters]
        rw [same]
        refine List.forall_mem_cons.2 ⟨everywhere_scored_lengthsOf _ _, ?_⟩
        obtain rfl := listed
        exact below
  · have known' : builtIn.Knows (.node scorer .empty [lengthsOf q.fieldHint, q]) :=
      .node there (List.forall_mem_cons.2 ⟨knows_lengthsOf _, List.forall_mem_singleton.2 known⟩)
    have other : (builtIn.meaning (.node scorer .empty [lengthsOf q.fieldHint, q])).form ≠
        .combine := by
      intro same
      have scoring := scores [lengthsOf q.fieldHint, q]
      rw [same] at scoring
      cases scoring
    rw [made]
    refine .node ⟨fun _ => Nat.succ_succ_ne_one 0, noScore known' (scores _) above⟩ ?_
    refine List.forall_mem_cons.2 ⟨everywhere_scored_lengthsOf _ _, List.forall_mem_singleton.2 ?_⟩
    refine .of ⟨plenty, ?_⟩ below
    rw [not_wantedUnder other, Bool.and_false]
  · rw [made]
    exact .of ⟨plenty, enough⟩ below

theorem openSums_cons (q : Query) (rest : List Query) :
    openSums (q :: rest) = (if plainSum q then q.children else [q]) ++ openSums rest :=
  List.flatMap_cons

theorem mem_openSums {qs : List Query} {q : Query} (member : q ∈ openSums qs) :
    (∃ child ∈ qs, plainSum child = true ∧ q ∈ child.children) ∨ q ∈ qs ∧ plainSum q = false := by
  obtain ⟨child, inside, member⟩ := List.mem_flatMap.1 member
  split at member
  · exact .inl ⟨child, inside, ‹_›, member⟩
  · obtain rfl := List.mem_singleton.1 member
    exact .inr ⟨inside, Bool.eq_false_of_not_eq_true ‹_›⟩

theorem form_of_plainSum (plain : plainSum q = true) : (builtIn.meaning q).form = .combine :=
  beq_iff_eq.1 (Bool.and_eq_true _ _ ▸ plain).1

theorem flat_of_plainSum (above : Option Meaning) (plain : plainSum q = true) :
    flat above q = .node q.operator q.parameters (openSums q.children) :=
  if_pos plain

theorem flat_of_not_plainSum (above : Option Meaning) (other : plainSum q = false) :
    flat above q = q :=
  if_neg (Bool.eq_false_iff.1 other)

theorem meaning_openSums (known : builtIn.Knows q) (plain : plainSum q = true) :
    builtIn.meaning (.node q.operator q.parameters (openSums q.children)) = builtIn.meaning q := by
  have sums := form_of_plainSum plain
  cases q with
  | node operator parameters children =>
    exact meaning_children _ known (sums ▸ by decide)

theorem knows_openSums {qs : List Query} (known : ∀ q ∈ qs, builtIn.Knows q) :
    ∀ q ∈ openSums qs, builtIn.Knows q := by
  intro q member
  rcases mem_openSums member with ⟨child, inside, _, below⟩ | ⟨inside, _⟩
  · exact (known child inside).child q below
  · exact known q inside

theorem isPlainSum_eq (known : builtIn.Knows q) : isPlainSum builtIn q = .ok (plainSum q) := by
  rw [isPlainSum, resolve_eq_meaning known]
  rfl

theorem spliced_eq {qs : List Query} (known : ∀ q ∈ qs, builtIn.Knows q) :
    spliced builtIn qs = .ok (openSums qs) := by
  induction qs with
  | nil => rfl
  | cons q rest ih =>
    obtain ⟨here, others⟩ := List.forall_mem_cons.1 known
    rw [spliced, isPlainSum_eq here, ih others, openSums_cons]
    cases plain : plainSum q <;> rfl

theorem recasts_flattening :
    Recasts builtIn (fun _ _ => True) (leaveFlattening builtIn) flat where
  leave_eq := by
    intro above q _ known _
    rw [leaveFlattening, isPlainSum_eq known]
    cases plain : plainSum q with
    | false =>
      rw [flat_of_not_plainSum _ plain]
      rfl
    | true =>
      rw [flat_of_plainSum _ plain, spliced_eq known.child]
      rfl
  knows := by
    intro above q known _
    cases plain : plainSum q with
    | false =>
      rw [flat_of_not_plainSum _ plain]
      exact known
    | true =>
      rw [flat_of_plainSum _ plain]
      cases known with
      | node rule below => exact .node rule (knows_openSums below)
  keeps := by
    intro parent q known _ _
    cases plain : plainSum q with
    | false => rw [flat_of_not_plainSum _ plain]
    | true =>
      rw [flat_of_plainSum _ plain]
      exact congrArg Meaning.capabilities (meaning_openSums known plain)

def Flat (_ : Option Meaning) (q : Query) : Prop :=
  plainSum q = true → ∀ child ∈ q.children, plainSum child = false

theorem openSums_eq_self {qs : List Query} (flat : ∀ q ∈ qs, plainSum q = false) :
    openSums qs = qs := by
  induction qs with
  | nil => rfl
  | cons q rest ih =>
    obtain ⟨here, others⟩ := List.forall_mem_cons.1 flat
    rw [openSums_cons, ih others, here]
    rfl

theorem flat_eq_self (h : Flat above q) : flat above q = q := by
  cases plain : plainSum q with
  | false => exact flat_of_not_plainSum _ plain
  | true =>
    rw [flat_of_plainSum _ plain, openSums_eq_self (h plain)]
    cases q with
    | node operator parameters children => rfl

/-- What every node below a sum has is what every node below the flattened sum has, if it is the
same under any sum. -/
theorem everywhere_openSums {P : Option Meaning → Query → Prop}
    (there : ∀ child ∈ q.children, Everywhere builtIn P (some (builtIn.meaning q)) child)
    (moves : ∀ sum child, plainSum sum = true → P (some (builtIn.meaning sum)) child →
      P (some (builtIn.meaning q)) child) :
    ∀ child ∈ openSums q.children, Everywhere builtIn P (some (builtIn.meaning q)) child := by
  intro child member
  rcases mem_openSums member with ⟨sum, inside, inner, below⟩ | ⟨inside, _⟩
  · have deeper := (there sum inside).child child below
    exact deeper.reroot (moves sum child inner deeper.root)
  · exact there child inside

theorem everywhere_flat (known : builtIn.Knows q) (above : Option Meaning) :
    Everywhere builtIn Flat above (q.recast builtIn flat above) := by
  refine everywhere_recast (P := fun _ _ => True) recasts_flattening ?_ known
    (.of_forall (fun _ _ => trivial) _ _) (.of_forall (fun _ _ => trivial) _ _)
  intro above _ q _ _ _ known _ below
  cases plain : plainSum q with
  | false =>
    rw [flat_of_not_plainSum _ plain]
    exact .of (fun sums => absurd sums (Bool.eq_false_iff.1 plain)) below
  | true =>
    rw [flat_of_plainSum _ plain]
    refine .of (fun _ child member => ?_) ?_
    · rcases mem_openSums member with ⟨sum, inside, inner, deeper⟩ | ⟨_, other⟩
      · exact (below sum inside).root inner child deeper
      · exact other
    · rw [meaning_openSums known plain]
      exact everywhere_openSums below fun _ _ _ => id

/-- The second pass leaves scoring explicit. -/
theorem everywhere_scored_flat (known : builtIn.Knows q)
    (there : Everywhere builtIn Scored above q) :
    Everywhere builtIn Scored above (q.recast builtIn flat above) := by
  refine everywhere_recast recasts_flattening ?_ known (.of_forall (fun _ _ => trivial) _ _) there
  rintro above q _ _ scored rfl known same below
  have here : Scored above (q.recastBelow builtIn flat) := by
    rw [Scored, same, Query.length_recastBelow]
    exact scored
  cases plain : plainSum (q.recastBelow builtIn flat) with
  | false =>
    rw [flat_of_not_plainSum _ plain]
    exact .of here below
  | true =>
    have sums := form_of_plainSum plain
    rw [flat_of_plainSum _ plain]
    refine .of ⟨fun scorer => ?_, ?_⟩ ?_
    · rw [meaning_openSums known plain, sums] at scorer
      cases scorer
    · rw [meaning_openSums known plain]
      exact here.2
    · rw [meaning_openSums known plain]
      refine everywhere_openSums below fun sum child inner scored => ⟨scored.1, ?_⟩
      have wanted : wantedUnder (some (builtIn.meaning sum)) = true :=
        beq_iff_eq.2 (form_of_plainSum inner)
      have never := scored.2
      rw [wanted, Bool.and_true] at never
      rw [never, Bool.false_and]

theorem withScope_cases (scope : PassageScope) (above : Option Meaning) (q : Query) :
    scope.enabled = true ∧
        crosses above (builtIn.meaning q) scope.lengths .length .passageLength = true ∧
        withScope scope above q = .node "passage-length" .empty [q] ∨
      scope.enabled = true ∧
        crosses above (builtIn.meaning q) scope.extents .extent .passageFilter = true ∧
        withScope scope above q = .node "passage-filter" .empty [q] ∨
      (scope.enabled = true →
        crosses above (builtIn.meaning q) scope.lengths .length .passageLength = false ∧
        crosses above (builtIn.meaning q) scope.extents .extent .passageFilter = false) ∧
        withScope scope above q = q := by
  unfold withScope
  cases scope.enabled with
  | false => exact .inr (.inr ⟨fun on => Bool.noConfusion on, rfl⟩)
  | true =>
    cases crosses above (builtIn.meaning q) scope.lengths .length .passageLength with
    | true => exact .inl ⟨rfl, rfl, rfl⟩
    | false =>
      cases crosses above (builtIn.meaning q) scope.extents .extent .passageFilter with
      | true => exact .inr (.inl ⟨rfl, rfl, rfl⟩)
      | false => exact .inr (.inr ⟨fun _ => ⟨rfl, rfl⟩, rfl⟩)

theorem withScope_wraps (scope : PassageScope) (above : Option Meaning) (q : Query) :
    withScope scope above q = q ∨ ∃ operator, withScope scope above q = .node operator .empty [q] ∧
      plainSum (.node operator .empty [q]) = false := by
  rcases withScope_cases scope above q with ⟨_, _, made⟩ | ⟨_, _, made⟩ | ⟨_, made⟩
  · refine .inr ⟨_, made, ?_⟩
    rw [plainSum, meaning_passageLength]
    rfl
  · refine .inr ⟨_, made, ?_⟩
    rw [plainSum, meaning_passageFilter]
    rfl
  · exact .inl made

theorem has_of_crosses {m : Meaning} {wanted : Bool} {c : Capability} {wrapper : Form}
    (h : crosses above m wanted c wrapper = true) : m.has c = true := by
  simp only [crosses, Bool.and_eq_true] at h
  exact h.1.1.2

theorem scopeNeeded_eq {around : Option Query} (known : ∀ parent ∈ around, builtIn.Knows parent)
    (m : Meaning) (wanted : Bool) (c : Capability) (wrapper : Form) :
    scopeNeeded builtIn around m wanted c wrapper =
      .ok (crosses (around.map builtIn.meaning) m wanted c wrapper) := by
  rw [scopeNeeded, crosses]
  cases wanted && m.has c && m.form != wrapper with
  | false => rfl
  | true =>
    cases around with
    | none => rfl
    | some parent =>
      rw [readOtherwise, resolve_eq_meaning (known parent rfl)]
      rfl

theorem recasts_scope (scope : PassageScope) :
    Recasts builtIn (fun _ _ => True) (leaveScope builtIn scope) (withScope scope) where
  leave_eq := by
    intro above q around known _
    unfold leaveScope withScope
    cases scope.enabled with
    | false => rfl
    | true =>
      rw [resolve_eq_meaning known]
      change (scopeNeeded builtIn above _ _ _ _ >>= _) = _
      rw [scopeNeeded_eq around, scopeNeeded_eq around]
      cases crosses (above.map builtIn.meaning) (builtIn.meaning q) scope.lengths .length
          .passageLength <;>
        cases crosses (above.map builtIn.meaning) (builtIn.meaning q) scope.extents .extent
            .passageFilter <;> rfl
  knows := by
    intro above q known _
    rcases withScope_cases scope above q with ⟨_, _, made⟩ | ⟨_, _, made⟩ | ⟨_, made⟩
    · rw [made]
      exact .single rfl known
    · rw [made]
      exact .single rfl known
    · rw [made]
      exact known
  keeps := by
    intro parent q known _ _
    obtain ⟨_, extent, length⟩ := asked_builtIn known
    rcases withScope_cases scope (some parent) q with
      ⟨_, needed, made⟩ | ⟨_, needed, made⟩ | ⟨_, made⟩
    · rw [made, length (has_of_crosses needed), asked, meaning_passageLength]
    · rw [made, extent (has_of_crosses needed), asked, meaning_passageFilter]
    · rw [made]

def InScope (scope : PassageScope) (above : Option Meaning) (q : Query) : Prop :=
  scope.enabled = true →
    crosses above (builtIn.meaning q) scope.lengths .length .passageLength = false ∧
    crosses above (builtIn.meaning q) scope.extents .extent .passageFilter = false

theorem withScope_eq_self (h : InScope scope above q) : withScope scope above q = q := by
  rcases withScope_cases scope above q with ⟨on, needed, _⟩ | ⟨on, needed, _⟩ | ⟨_, made⟩
  · rw [(h on).1] at needed
    cases needed
  · rw [(h on).2] at needed
    cases needed
  · exact made

theorem crosses_eq_false {m : Meaning} {c : Capability} (without : m.has c = false) (wanted : Bool)
    (wrapper : Form) : crosses above m wanted c wrapper = false := by
  rw [crosses, without, Bool.and_false, Bool.false_and, Bool.false_and]

theorem crosses_same {parent m : Meaning} {c : Capability} (same : parent.has c = true)
    (wanted : Bool) (wrapper : Form) : crosses (some parent) m wanted c wrapper = false := by
  rw [crosses, Option.all_some, same, Bool.not_true, Bool.and_false, Bool.and_false]

theorem everywhere_inScope (known : builtIn.Knows q) (scope : PassageScope)
    (above : Option Meaning) :
    Everywhere builtIn (InScope scope) above (q.recast builtIn (withScope scope) above) := by
  refine everywhere_recast (P := fun _ _ => True) (recasts_scope scope) ?_ known
    (.of_forall (fun _ _ => trivial) _ _) (.of_forall (fun _ _ => trivial) _ _)
  intro above _ q _ _ _ known _ below
  obtain ⟨_, extent, length⟩ := asked_builtIn known
  rcases withScope_cases scope above q with ⟨_, needed, made⟩ | ⟨_, needed, made⟩ | ⟨done, made⟩
  · have offered := length (has_of_crosses needed)
    rw [made]
    refine .node (fun _ => ?_) (List.forall_mem_singleton.2 (.of (fun _ => ?_) below))
    · rw [meaning_passageLength]
      refine ⟨?_, crosses_eq_false rfl ..⟩
      simp [crosses]
    · rw [meaning_passageLength]
      refine ⟨crosses_same rfl .., crosses_eq_false ?_ ..⟩
      rw [asked] at offered
      rw [Meaning.has, offered]
      rfl
  · have offered := extent (has_of_crosses needed)
    rw [made]
    refine .node (fun _ => ?_) (List.forall_mem_singleton.2 (.of (fun _ => ?_) below))
    · rw [meaning_passageFilter]
      refine ⟨crosses_eq_false rfl .., ?_⟩
      simp [crosses]
    · rw [meaning_passageFilter]
      refine ⟨crosses_eq_false ?_ .., crosses_same rfl ..⟩
      rw [asked] at offered
      rw [Meaning.has, offered]
      rfl
  · rw [made]
    exact .of done below

/-- The third pass leaves scoring explicit: what it puts a filter above is not to be scored. -/
theorem everywhere_scored_scope (known : builtIn.Knows q) (scope : PassageScope)
    (there : Everywhere builtIn Scored above q) :
    Everywhere builtIn Scored above (q.recast builtIn (withScope scope) above) := by
  refine everywhere_recast (recasts_scope scope) ?_ known
    (.of_forall (fun _ _ => trivial) _ _) there
  rintro above q q' _ scored is known same below
  have here : Scored above q' := by
    rw [Scored, same, is, Query.length_recastBelow]
    exact scored
  obtain ⟨_, extent, _⟩ := asked_builtIn known
  rcases withScope_cases scope above q' with ⟨_, _, made⟩ | ⟨_, needed, made⟩ | ⟨_, made⟩
  · rw [made]
    refine .node ⟨?_, ?_⟩ (List.forall_mem_singleton.2 (.of ⟨here.1, ?_⟩ below))
    · rw [meaning_passageLength]
      exact fun scores => (Bool.false_ne_true scores).elim
    · rw [meaning_passageLength]
      rfl
    · rw [meaning_passageLength]
      exact Bool.and_false _
  · have offered := extent (has_of_crosses needed)
    rw [asked] at offered
    have counts : onlyCounts (builtIn.meaning q') = true := by
      rw [onlyCounts, Meaning.has, Meaning.has, offered]
      rfl
    have unwanted := here.2
    rw [counts, Bool.true_and] at unwanted
    rw [made]
    refine .node ⟨?_, ?_⟩ (List.forall_mem_singleton.2 (.of ⟨here.1, ?_⟩ below))
    · rw [meaning_passageFilter]
      exact fun scores => (Bool.false_ne_true scores).elim
    · rw [unwanted, Bool.and_false]
    · rw [meaning_passageFilter]
      exact Bool.and_false _
  · rw [made]
    exact .of here below

/-- A sum that the third pass leaves in a place was there before. -/
theorem plainSum_recast_scope (known : builtIn.Knows q)
    (plain : plainSum (q.recast builtIn (withScope scope) above) = true) : plainSum q = true := by
  have always : Recasts.Fitting builtIn (fun _ _ => True) above q :=
    .of_forall (fun _ _ => trivial) _ _
  obtain ⟨_, same⟩ := (recasts_scope scope).recastBelow_known known always
  rw [Query.recast_eq] at plain
  rcases withScope_wraps scope above (q.recastBelow builtIn (withScope scope)) with
    made | ⟨_, made, other⟩
  · rw [made, plainSum, same] at plain
    exact plain
  · rw [made, other] at plain
    cases plain

/-- The third pass leaves sums flat. -/
theorem everywhere_flat_scope (known : builtIn.Knows q) (scope : PassageScope)
    (there : Everywhere builtIn Flat above q) :
    Everywhere builtIn Flat above (q.recast builtIn (withScope scope) above) := by
  refine everywhere_recast (recasts_scope scope) ?_ known
    (.of_forall (fun _ _ => trivial) _ _) there
  rintro above q q' knownBefore flat is known same below
  have here : Flat above q' := by
    intro plain child member
    have before : plainSum q = true := by
      rw [plainSum, same, is] at plain
      exact plain
    rw [is, Query.recastBelow, Query.recastAll_eq_map] at member
    obtain ⟨child, inside, rfl⟩ := List.mem_map.1 member
    refine Bool.eq_false_of_not_eq_true fun sums => ?_
    have after := plainSum_recast_scope (knownBefore.child child inside) sums
    rw [flat before child inside] at after
    cases after
  rcases withScope_wraps scope above q' with made | ⟨_, made, other⟩
  · rw [made]
    exact .of here below
  · rw [made]
    refine .node (fun sums => ?_) (List.forall_mem_singleton.2 (.of here below))
    rw [other] at sums
    cases sums

def prepared (scorer : String) (scope : PassageScope) (q : Query) : Query :=
  ((q.recast builtIn (withScore scorer) none).recast builtIn flat none).recast builtIn
    (withScope scope) none

theorem remade_none_eq_recast {fits : Option Meaning → Meaning → Prop} {leave : Leaving}
    {step : Recasting} (recasts : Recasts builtIn fits leave step) (known : builtIn.Knows q)
    (fitting : Recasts.Fitting builtIn fits none q) :
    q.remade leave none = .ok (q.recast builtIn step none) :=
  recasts.remade_eq_recast known fitting fun _ _ _ => ⟨nofun, rfl⟩

theorem prepare_eq_prepared {levels : List Parameters} (known : builtIn.Knows q)
    (fitting : Recasts.Fitting builtIn (scorerFits (scorerSetting levels)) none q) :
    prepare builtIn levels q =
      .ok (prepared (scorerSetting levels) (.ofSettings levels) q) := by
  have first := (recasts_scoring (scorerSetting levels)).recast_known known fitting
  have always (q : Query) : Recasts.Fitting builtIn (fun _ _ => True) none q :=
    .of_forall (fun _ _ => trivial) _ _
  have second := recasts_flattening.recast_known first (always _)
  rw [prepare_eq, Query.remadeBy, remade_none_eq_recast (recasts_scoring _) known fitting]
  change Query.remadeBy _ _ = _
  rw [Query.remadeBy, remade_none_eq_recast recasts_flattening first (always _)]
  change Query.remadeBy _ _ = _
  rw [Query.remadeBy, remade_none_eq_recast (recasts_scope _) second (always _)]
  rfl

end Steps

end RankedRetrieval.Preparation

namespace RankedRetrieval.Retrieval

open Vocabulary Preparation

/-- With the built-in vocabulary, and a built-in scorer where none is written, every known query
can be prepared, and what comes of it is left as it is when it is prepared again. -/
theorem prepare_prepare {r : Retrieval} (means : r.vocabulary = builtIn) {parameters : Parameters}
    (scorer : scorerSetting (r.levels parameters) = "dirichlet" ∨
      scorerSetting (r.levels parameters) = "bm25") {q : Query} (known : builtIn.Knows q) :
    ∃ q', r.prepare q parameters = .ok q' ∧ r.prepare q' parameters = .ok q' := by
  simp only [Retrieval.prepare, means]
  set levels := r.levels parameters
  have there : builtIn.knows (scorerSetting levels) = true := by
    rcases scorer with same | same <;> rw [same] <;> rfl
  have scores (children : List Query) :
      isScorer (builtIn.meaning (.node (scorerSetting levels) .empty children)).form = true := by
    rcases scorer with same | same
    · rw [same, meaning_dirichlet]
      rfl
    · rw [same, meaning_bm25]
      rfl
  have fitting (q : Query) : Recasts.Fitting builtIn (scorerFits (scorerSetting levels)) none q :=
    .of_forall (fun _ _ _ => there) _ _
  have always (q : Query) : Recasts.Fitting builtIn (fun _ _ => True) none q :=
    .of_forall (fun _ _ => trivial) _ _
  have known₁ := (recasts_scoring (scorerSetting levels)).recast_known known (fitting q)
  have known₂ := recasts_flattening.recast_known known₁ (always _)
  have known₃ := (recasts_scope (.ofSettings levels)).recast_known known₂ (always _)
  refine ⟨_, prepare_eq_prepared known (fitting q), ?_⟩
  have scored := everywhere_scored_scope known₂ (.ofSettings levels)
    (everywhere_scored_flat known₁ (everywhere_scored known there scores))
  have flattened := everywhere_flat_scope known₂ (.ofSettings levels) (everywhere_flat known₁ none)
  have inScope := everywhere_inScope known₂ (.ofSettings levels) none
  rw [prepared, prepare_eq_prepared known₃ (fitting _), prepared,
    recast_eq_self (fun _ _ => withScore_eq_self) scored,
    recast_eq_self (fun _ _ => flat_eq_self) flattened,
    recast_eq_self (fun _ _ => withScope_eq_self) inScope]

def nestedSums : Query :=
  let text (term : String) := Query.node "text" (.single "term" (.string term)) []
  .node "combine" .empty [
    .node "combine" .empty [text "a", .node "syn" .empty [text "b", .node "counts" .empty []]],
    .node "dirichlet" .empty [text "c"]]

def byPassages : Parameters :=
  { fields := [("passageQuery", .bool true), ("scorer", .string "bm25")] }

def nothingListed : Retrieval :=
  { collection := .ofSteps [], vocabulary := .builtIn, global := .empty }

/-- The sums become one, and each of its three members gets lengths and scopes. -/
theorem prepare_nestedSums :
    scorerSetting (nothingListed.levels byPassages) = "bm25" ∧
      builtIn.Knows nestedSums ∧
      ∃ q', nothingListed.prepare nestedSums byPassages = .ok q' ∧
        nothingListed.prepare q' byPassages = .ok q' ∧ q'.children.length = 3 ∧ q'.size = 18 := by
  have scorer : scorerSetting (nothingListed.levels byPassages) = "bm25" := by decide
  have leaf (operator : String) (parameters : Parameters) (rule : builtIn.knows operator = true) :
      builtIn.Knows (.node operator parameters []) := .node rule (List.forall_mem_nil _)
  have one {operator : String} {q : Query} (rule : builtIn.knows operator = true)
      (known : builtIn.Knows q) : builtIn.Knows (.node operator .empty [q]) :=
    .node rule (List.forall_mem_singleton.2 known)
  have two {operator : String} {q q' : Query} (rule : builtIn.knows operator = true)
      (known : builtIn.Knows q) (known' : builtIn.Knows q') :
      builtIn.Knows (.node operator .empty [q, q']) :=
    .node rule (List.forall_mem_cons.2 ⟨known, List.forall_mem_singleton.2 known'⟩)
  have known : builtIn.Knows nestedSums :=
    two rfl (two rfl (leaf _ _ rfl) (two rfl (leaf _ _ rfl) (leaf _ _ rfl)))
      (one rfl (leaf _ _ rfl))
  obtain ⟨q', first, second⟩ := prepare_prepare (r := nothingListed) rfl (.inr scorer) known
  have computed : (nothingListed.prepare nestedSums byPassages).toOption.all
      (fun q => q.children.length == 3 && q.size == 18) = true := by decide +kernel
  rw [first] at computed
  obtain ⟨members, size⟩ := Bool.and_eq_true_iff.1 computed
  exact ⟨scorer, known, q', first, second, eq_of_beq members, eq_of_beq size⟩

end RankedRetrieval.Retrieval
