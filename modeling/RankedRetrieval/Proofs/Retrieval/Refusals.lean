import RankedRetrieval.Proofs.Plan.Guarded
import RankedRetrieval.Proofs.Retrieval.Exhaustive

set_option autoImplicit false

/-!
# What a query can fail for

Whether a query fails, and for which reason, is decided by the query, the meaning of operators and
the settings: over two collections it succeeds or fails alike (`execute_agree`), whatever numbers
the scores are. No cursor refuses a move on the way.
-/

namespace RankedRetrieval

def QueryError.isMoveBack : QueryError → Bool
  | .invalidMove _ _ _ => true
  | _ => false

/-- Two attempts succeed, and what they come to is related, or both fail for one reason, which is
not that a cursor was to go back. -/
inductive Agree {β γ : Type} (R : β → γ → Prop) :
    Except QueryError β → Except QueryError γ → Prop
  | ok {b : β} {c : γ} (related : R b c) : Agree R (.ok b) (.ok c)
  | error {e : QueryError} (other : e.isMoveBack = false) :
      Agree R (.error e) (.error e)

namespace Agree

variable {β γ β' γ' : Type} {R : β → γ → Prop} {S : β' → γ' → Prop} {x : Except QueryError β}
  {y : Except QueryError γ}

theorem bind (h : Agree R x y) {f : β → Except QueryError β'} {g : γ → Except QueryError γ'}
    (next : ∀ b c, R b c → Agree S (f b) (g c)) : Agree S (x >>= f) (y >>= g) := by
  cases h with
  | ok related => exact next _ _ related
  | error other => exact .error other

theorem bind_same {x : Except QueryError β} (h : Agree Eq x x) {f : β → Except QueryError β'}
    {g : β → Except QueryError γ'} (next : ∀ b, Agree S (f b) (g b)) :
    Agree S (x >>= f) (x >>= g) :=
  h.bind fun b _ same => same ▸ next b

theorem guard {refuse : Prop} [Decidable refuse] {e : QueryError}
    (other : e.isMoveBack = false)
    {f : PUnit → Except QueryError β} {g : PUnit → Except QueryError γ}
    (next : Agree R (f ⟨⟩) (g ⟨⟩)) :
    Agree R (if refuse then throw e >>= f else f ⟨⟩)
      (if refuse then throw e >>= g else g ⟨⟩) := by
  split
  · exact .error other
  · exact next

theorem of_ok {x : Except QueryError β} {y : Except QueryError γ} (left : ∃ b, x = .ok b)
    (right : ∃ c, y = .ok c) : Agree (fun _ _ => True) x y := by
  obtain ⟨b, rfl⟩ := left
  obtain ⟨c, rfl⟩ := right
  exact .ok trivial

theorem outcome (h : Agree R x y) :
    (∃ b c, x = .ok b ∧ y = .ok c) ∨
      ∃ e, x = .error e ∧ y = .error e ∧ e.isMoveBack = false := by
  cases h with
  | ok _ => exact .inl ⟨_, _, rfl, rfl⟩
  | error other => exact .inr ⟨_, rfl, rfl, other⟩

end Agree

mutual

theorem Vocabulary.agree_resolve (v : Vocabulary) (q : Query) :
    Agree Eq (v.resolve q) (v.resolve q) := by
  cases q with
  | node operator parameters children =>
    rw [resolve]
    split
    · exact .error rfl
    · exact .ok rfl
    · exact (v.agree_resolveShared _ children).bind fun _ _ same => .ok (same ▸ rfl)

theorem Vocabulary.agree_resolveShared (v : Vocabulary) (mask : Capabilities) (qs : List Query) :
    Agree Eq (v.resolveShared mask qs) (v.resolveShared mask qs) := by
  cases qs with
  | nil => exact .ok rfl
  | cons q rest =>
    rw [resolveShared]
    have here := v.agree_resolve q
    cases resolved : v.resolve q with
    | ok m => exact v.agree_resolveShared _ rest
    | error e =>
      rw [resolved] at here
      cases here with
      | error other => exact .error other

end

namespace Workshop

variable {α β : Type} [Arithmetic α] [Arithmetic β]

theorem agree_requiredText (operator : String) (parameters : Parameters) (key : String) :
    Agree Eq (requiredText operator parameters key) (requiredText operator parameters key) := by
  unfold requiredText
  split
  · exact .ok rfl
  · exact .error rfl

theorem agree_width (operator : String) (parameters : Parameters) (default : Nat) :
    Agree Eq (width operator parameters default) (width operator parameters default) := by
  unfold width
  dsimp only
  split
  · exact .error rfl
  · split
    · exact .error rfl
    · exact .ok rfl

theorem agree_method (operator : String) (parameters : Parameters) :
    Agree Eq (method operator parameters) (method operator parameters) := by
  unfold method
  split
  · exact .ok rfl
  · exact .ok rfl
  · exact .ok rfl
  · exact .ok rfl
  · exact .error rfl

abbrev SameKind (plan : Plan α) (plan' : Plan β) : Prop := plan'.kind = plan.kind

omit [Arithmetic α] [Arithmetic β] in
theorem agree_answering {plan : Plan α} {plan' : Plan β} (same : SameKind plan plan')
    (question : Capability) (operator : String) :
    Agree SameKind (plan.answering question operator) (plan'.answering question operator) := by
  rw [Plan.answering, Plan.answering, Plan.capabilities, Plan.capabilities, same]
  split
  · exact .ok same
  · exact .error rfl

variable {w w' : Workshop}

omit [Arithmetic α] [Arithmetic β] in
theorem agree_statistics (vocabulary : w'.vocabulary = w.vocabulary) (counted : Query)
    (plan : Plan α) (plan' : Plan β) :
    Agree (fun _ _ => True) (w.statistics counted plan) (w'.statistics counted plan') := by
  have measured := (Cursor.ofPlan plan).measureFrom_ok .empty
  have measured' := (Cursor.ofPlan plan').measureFrom_ok .empty
  rw [statistics, statistics, vocabulary]
  cases w.vocabulary.unfiltered counted with
  | node operator parameters children =>
    dsimp only
    split
    · exact (agree_requiredText operator parameters "term").bind_same fun _ => .ok trivial
    · exact .of_ok measured measured'

theorem agree_buildAll {children : List Query}
    (each : ∀ q ∈ children, Agree SameKind (w.build (α := α) q) (w'.build (α := β) q))
    (question : Capability) (operator : String) :
    Agree (fun _ _ => True) (w.buildAll (α := α) question operator children)
      (w'.buildAll (α := β) question operator children) := by
  induction children with
  | nil =>
    unfold buildAll
    exact .ok trivial
  | cons q rest ih =>
    obtain ⟨here, others⟩ := List.forall_mem_cons.1 each
    unfold buildAll
    refine here.bind fun plan plan' same => ?_
    refine (agree_answering same question operator).bind fun _ _ _ => ?_
    exact (ih others).bind fun _ _ _ => .ok trivial

omit [Arithmetic α] [Arithmetic β] in
theorem agree_single {x : Except QueryError (Plan α)} {y : Except QueryError (Plan β)}
    (h : Agree SameKind x y) (question : Capability) (operator : String)
    {make : Plan α → Plan α} {make' : Plan β → Plan β}
    (same : ∀ plan plan', SameKind (make plan) (make' plan')) :
    Agree SameKind
      (x >>= fun plan => plan.answering question operator >>= fun plan => pure (make plan))
      (y >>= fun plan => plan.answering question operator >>= fun plan => pure (make' plan)) :=
  h.bind fun _ _ kinds => (agree_answering kinds question operator).bind fun plan plan' _ =>
    .ok (same plan plan')

/-- Whether a plan can be built, and for which questions, does not depend on the collection, nor on
what numbers the scores are. -/
theorem agree_build (vocabulary : w'.vocabulary = w.vocabulary) (q : Query) :
    Agree SameKind (w.build (α := α) q) (w'.build (α := β) q) := by
  induction q with
  | node operator parameters children ih =>
    have all (question : Capability) := agree_buildAll ih question operator
    have statistics := agree_statistics (α := α) (β := β) vocabulary
    unfold build
    rw [vocabulary]
    refine (w.vocabulary.agree_resolve _).bind_same fun meaning => ?_
    obtain ⟨capabilities, form⟩ := meaning
    cases form with
    | termExtents | termCounts =>
      refine .guard rfl ?_
      exact (agree_requiredText operator parameters "term").bind_same fun _ => .ok rfl
    | fieldLengths => exact .guard rfl (.ok rfl)
    | prior =>
      refine .guard rfl ?_
      exact (agree_requiredText operator parameters "name").bind_same fun _ => .ok rfl
    | orderedWindow | unorderedWindow =>
      refine .guard rfl ((all .extent).bind fun _ _ _ => ?_)
      exact (agree_width operator parameters _).bind_same fun _ => .ok rfl
    | synonym =>
      refine .guard rfl ?_
      dsimp only
      split
      · exact (all .extent).bind fun _ _ _ => .ok rfl
      · exact (all .count).bind fun _ _ _ => .ok rfl
    | passageFilter | passageLength | logarithm | scale =>
      dsimp only
      split
      · exact agree_single (ih _ (by simp)) _ operator fun _ _ => rfl
      · exact .error rfl
    | dirichlet | bm25 =>
      dsimp only
      split
      · refine (ih _ (by simp)).bind fun _ _ kinds => ?_
        refine (agree_answering kinds .count operator).bind fun _ _ _ => ?_
        refine (statistics _ _ _).bind fun _ _ _ => .ok ?_
        exact (kind_scorer ..).trans (kind_scorer ..).symm
      · refine (ih _ (by simp)).bind fun _ _ kinds => ?_
        refine (agree_answering kinds .length operator).bind fun _ _ _ => ?_
        refine (ih _ (by simp)).bind fun _ _ kinds => ?_
        refine (agree_answering kinds .count operator).bind fun _ _ _ => ?_
        refine (statistics _ _ _).bind fun _ _ _ => .ok ?_
        exact (kind_scorer ..).trans (kind_scorer ..).symm
      · exact .error rfl
    | combine =>
      refine .guard rfl ((all .scored).bind fun _ _ _ => ?_)
      exact (agree_method operator parameters).bind_same fun _ => .ok rfl
    | require =>
      dsimp only
      split
      · refine (ih _ (by simp)).bind fun _ _ _ => ?_
        exact agree_single (ih _ (by simp)) .scored operator fun _ _ => rfl
      · exact .error rfl
    | booleanAnd | booleanOr =>
      exact .guard rfl ((all .indicator).bind fun _ _ _ => .ok rfl)
    | custom => exact .error rfl

end Workshop

section Running

open Plan

variable {α : Type} [Arithmetic α]

def Cursor.scoreGuarded (c : Cursor α) (ctx : Context) (delta : Option (Delta α)) :
    Except QueryError (α × Cursor α × Option (Delta α)) := do
  let scored ← c.plan.scoreGuarded c.position ctx delta
  return (scored.value, { c with position := scored.position }, scored.delta)

def Cursor.catchUpGuarded (c : Cursor α) (d : DocId) : Except QueryError (Cursor α) := do
  let position ← Axis.catchUpGuarded c.plan.advanceGuarded c.position d
  return { c with position }

namespace Scan

variable {rules : ScanRules α}

def evaluateGuarded (rules : ScanRules α) (document : DocId) (s : Scan α)
    (passage : Option Span) : Except QueryError (Scan α) := do
  let scored ← s.root.scoreGuarded { document, passage } (s.delta rules)
  if scored.2.2.any Delta.pruned then
    return { s with root := scored.2.1, stats := { s.stats with pruned := s.stats.pruned + 1 } }
  else
    let entry : Entry α := { score := scored.1, document, passage }
    let enters := s.best.wouldEnter entry
    return {
      s with
      root := scored.2.1
      best := s.best.insert entry
      stats :=
        { s.stats with
          scored := s.stats.scored + 1
          entered := s.stats.entered + (if enters then 1 else 0) } }

def evaluateEach (rules : ScanRules α) (document : DocId) :
    List (Option Span) → Scan α → Except QueryError (Scan α)
  | [], s => .ok s
  | passage :: rest, s => do
    evaluateEach rules document rest (← s.evaluateGuarded rules document passage)

def visitGuarded (rules : ScanRules α) (s : Scan α) : Except QueryError (Scan α) :=
  let document := s.root.document
  let s := { s with stats := { s.stats with visited := s.stats.visited + 1 } }
  match rules.passages with
  | none => s.evaluateGuarded rules document none
  | some scheme => do
    let lengths ← s.lengths.catchUpGuarded document
    let s := { s with lengths }
    evaluateEach rules document
      ((scheme.passages (s.lengths.lengthAt (.whole document))).map some) s

/-- The course of a scan in which every part refuses to go back. A cursor that does not come
forward is refused, too. -/
def finishGuarded (rules : ScanRules α) (s : Scan α) : Except QueryError (Scan α) :=
  if s.root.document = terminated then .ok s
  else if s.isDecided rules then .ok { s with stats := { s.stats with stoppedEarly := true } }
  else
    match s.visitGuarded rules with
    | .error e => .error e
    | .ok visited =>
      match visited.root.plan.advanceGuarded visited.root.position (next s.root.document) with
      | .error e => .error e
      | .ok position =>
        if _ahead : s.root.document < position.document then
          finishGuarded rules { visited with root := { visited.root with position } }
        else .error (.invalidMove s.root.plan.moverName s.root.document position.document)
termination_by distance s.root.document
decreasing_by exact distance_lt _ahead

structure Joined (s : Scan α) : Prop where
  root : s.root.plan.Joined s.root.position
  lengths : s.lengths.plan.Joined s.lengths.position

omit [Arithmetic α] in
theorem Joined.count {s : Scan α} (joined : Joined s) (stats : Stats) : Joined { s with stats } :=
  ⟨joined.root, joined.lengths⟩

theorem evaluateGuarded_eq {s : Scan α} (joined : Joined s) (document : DocId)
    (passage : Option Span) :
    s.evaluateGuarded rules document passage = .ok (s.evaluate rules document passage) := by
  rw [evaluateGuarded, Cursor.scoreGuarded, Plan.scoreGuarded_eq _ joined.root]
  unfold evaluate
  dsimp only
  split
  · rename_i pruned
    exact if_pos pruned
  · rename_i kept
    exact if_neg kept

theorem joined_evaluate {s : Scan α} (joined : Joined s) (document : DocId)
    (passage : Option Span) : Joined (s.evaluate rules document passage) := by
  have scored := s.root.plan.joined_score joined.root { document, passage } (s.delta rules)
  unfold evaluate
  dsimp only
  split
  · exact ⟨scored, joined.lengths⟩
  · exact ⟨scored, joined.lengths⟩

theorem evaluateEach_eq (document : DocId) (passages : List (Option Span)) {s : Scan α}
    (joined : Joined s) :
    evaluateEach rules document passages s =
        .ok (passages.foldl (evaluate rules document) s) ∧
      Joined (passages.foldl (evaluate rules document) s) := by
  induction passages generalizing s with
  | nil => exact ⟨rfl, joined⟩
  | cons passage rest ih =>
    rw [evaluateEach, evaluateGuarded_eq joined]
    exact ih (joined_evaluate joined document passage)

theorem visitGuarded_eq {s : Scan α} (joined : Joined s) :
    s.visitGuarded rules = .ok (s.visit rules) ∧ Joined (s.visit rules) := by
  unfold visitGuarded visit
  dsimp only
  cases rules.passages with
  | none =>
    have counted := joined.count { s.stats with visited := s.stats.visited + 1 }
    exact ⟨evaluateGuarded_eq counted _ _, joined_evaluate counted _ _⟩
  | some scheme =>
    have caught : s.lengths.catchUpGuarded s.root.document =
        .ok (s.lengths.catchUp s.root.document) := by
      rw [Cursor.catchUpGuarded,
        Axis.catchUpGuarded_eq (s.lengths.plan.comesForward.moves _ _ joined.lengths)]
      rfl
    have kept : s.lengths.plan.Joined (s.lengths.catchUp s.root.document).position :=
      Axis.kept_catchUp (fun q target _ => s.lengths.plan.comesForward.keeps q target) _
        joined.lengths
    dsimp only
    rw [caught]
    exact evaluateEach_eq _ _ ⟨joined.root, kept⟩

theorem finishGuarded_eq {s : Scan α} (joined : Joined s) :
    s.finishGuarded rules = s.finish rules := by
  fun_induction finish rules s with
  | case1 s done => rw [finishGuarded, if_pos done]
  | case2 s notDone decided => rw [finishGuarded, if_neg notDone, if_pos decided]
  | case3 s notDone open_ error moved =>
    rw [moveTo_visit] at moved
    cases moved
  | case4 s notDone open_ root moved ih =>
    obtain ⟨visited, joined'⟩ : s.visitGuarded rules = .ok (s.visit rules) ∧
        Joined (s.visit rules) := visitGuarded_eq joined
    rw [moveTo_visit] at moved
    cases moved
    have here := s.document_visit rules
    have forward : (s.visit rules).root.document ≤ next s.root.document := by
      rw [here]
      exact UInt32.le_of_lt (lt_next notDone)
    have ahead : s.root.document < ((s.visit rules).root.toward (next s.root.document)).document :=
      UInt32.lt_of_lt_of_le (lt_next notDone) (Plan.le_document_advance _ _ _)
    rw [finishGuarded, if_neg notDone, if_neg open_, visited]
    dsimp only
    rw [Plan.advanceGuarded_eq joined'.root forward]
    refine (dif_pos ahead).trans (ih ⟨?_, joined'.lengths⟩)
    exact Plan.joined_advance joined'.root _

theorem finish_ok (rules : ScanRules α) (s : Scan α) : ∃ t, s.finish rules = .ok t := by
  fun_induction finish rules s with
  | case1 s done => exact ⟨s, rfl⟩
  | case2 s notDone decided => exact ⟨_, rfl⟩
  | case3 s notDone open_ error moved =>
    rw [moveTo_visit] at moved
    cases moved
  | case4 s notDone open_ root moved ih => exact ih

end Scan

namespace Retrieval

def executeGuarded (r : Retrieval) (q : Query) (parameters : Parameters) :
    Except QueryError (Results α) := do
  let levels := r.levels parameters
  let plan ← r.plan q parameters
  let scheme ← passageScheme levels
  if (r.optionsOf parameters).requested = 0 then return { documents := [], stats := .zero }
  else
    let side : Plan α := .lengths (r.collection.lengths (passageField levels))
    let scan ← Scan.finishGuarded (r.rulesOf parameters plan scheme)
      { root := { plan, position := ← plan.startGuarded, question := plan.kind }
        lengths := { plan := side, position := ← side.startGuarded, question := side.kind }
        best := .empty (r.optionsOf parameters).requested
        stats := .zero }
    return r.results scan

theorem executeGuarded_eq (r : Retrieval) (q : Query) (parameters : Parameters) :
    r.executeGuarded (α := α) q parameters = r.execute q parameters := by
  cases planned : r.plan (α := α) q parameters with
  | error e =>
    rw [executeGuarded, execute, planned]
    rfl
  | ok plan =>
    rw [execute_eq planned, executeGuarded, planned]
    change (passageScheme _ >>= _) = (passageScheme _ >>= _)
    refine bind_congr fun scheme => ?_
    split
    · rfl
    · rw [plan.startGuarded_eq]
      dsimp only
      rw [Plan.startGuarded_eq]
      change (Scan.finishGuarded _ (r.firstScan parameters plan) >>= _) = _
      rw [Scan.finishGuarded_eq ⟨plan.joined_start, Plan.joined_start _⟩]

theorem agree_passageScheme (levels : List Parameters) :
    Agree Eq (passageScheme levels) (passageScheme levels) := by
  unfold passageScheme PassageScheme.ofSettings
  dsimp only
  split
  · split
    · exact .error rfl
    · split
      · exact .error rfl
      · exact .ok rfl
  · exact .ok rfl

theorem agree_execute {β : Type} [Arithmetic β] (r r' : Retrieval)
    (vocabulary : r'.vocabulary = r.vocabulary) (global : r'.global = r.global) (q : Query)
    (parameters : Parameters) :
    Agree (fun _ _ => True) (r.execute (α := α) q parameters)
      (r'.execute (α := β) q parameters) := by
  have levels : r'.levels parameters = r.levels parameters := by rw [levels, levels, global]
  have kinds : Agree Workshop.SameKind ((r.workshop parameters).build (α := α) q)
      ((r'.workshop parameters).build (α := β) q) := Workshop.agree_build vocabulary q
  have plans : Agree Workshop.SameKind (r.plan (α := α) q parameters)
      (r'.plan (α := β) q parameters) :=
    kinds.bind fun _ _ same => Workshop.agree_answering same .scored q.operator
  rcases plans.outcome with ⟨plan, plan', planned, planned'⟩ | ⟨e, failed, failed', other⟩
  · rw [execute_eq planned, execute_eq planned', optionsOf, optionsOf, levels]
    refine (agree_passageScheme (r.levels parameters)).bind_same (S := fun _ _ => True) ?_
    intro scheme
    split_ifs
    · exact .of_ok ⟨_, rfl⟩ ⟨_, rfl⟩
    · obtain ⟨t, finished⟩ := Scan.finish_ok (r.rulesOf parameters plan scheme)
        (r.firstScan parameters plan)
      obtain ⟨t', finished'⟩ := Scan.finish_ok (r'.rulesOf parameters plan' scheme)
        (r'.firstScan parameters plan')
      rw [finished, finished']
      exact .of_ok ⟨_, rfl⟩ ⟨_, rfl⟩
  · rw [execute, execute, failed, failed']
    exact .error other

/-- Over two collections a query succeeds or fails for the same reason, and the reason is never
that a cursor was to go back: no part of a plan refuses while counts are measured, a plan is started
or a query is run. -/
theorem execute_agree (vocabulary : Vocabulary) (global parameters : Parameters) (q : Query)
    (collection collection' : Collection) :
    let r : Retrieval := { collection, vocabulary, global }
    let r' : Retrieval := { collection := collection', vocabulary, global }
    ((∃ results results' : Results α, r.execute q parameters = .ok results ∧
          r'.execute q parameters = .ok results') ∨
        ∃ e, r.execute (α := α) q parameters = .error e ∧
          r'.execute (α := α) q parameters = .error e ∧
          ∀ name document target, e ≠ .invalidMove name document target) ∧
      (∀ plan : Plan α, plan.startGuarded = .ok plan.start ∧
        plan.measureGuarded = plan.measure) ∧
      r.executeGuarded (α := α) q parameters = r.execute q parameters := by
  intro r r'
  refine ⟨?_, fun plan => ⟨plan.startGuarded_eq, plan.measureGuarded_eq⟩, executeGuarded_eq r q _⟩
  have agree : Agree (fun _ _ => True) (r.execute (α := α) q parameters)
      (r'.execute (α := α) q parameters) := agree_execute r r' rfl rfl q parameters
  rcases agree.outcome with ok | ⟨e, failed, failed', other⟩
  · exact .inl ok
  · refine .inr ⟨e, failed, failed', fun name document target same => ?_⟩
    rw [same] at other
    cases other

end Retrieval

end Running

end RankedRetrieval
