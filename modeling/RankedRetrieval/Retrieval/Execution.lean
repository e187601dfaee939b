import RankedRetrieval.Plan.Construction
import RankedRetrieval.Ranking.TopK
import RankedRetrieval.Retrieval.Passages
import RankedRetrieval.Preparation.Pipeline

set_option autoImplicit false

namespace RankedRetrieval

structure Stats where
  /-- Documents on which the cursor stood. -/
  visited : Nat
  /-- Evaluations that were completed. -/
  scored : Nat
  /-- Evaluations that were abandoned. -/
  pruned : Nat
  /-- Evaluations that were among the best at some time. -/
  entered : Nat
  stoppedEarly : Bool
  deriving DecidableEq

def Stats.zero : Stats :=
  { visited := 0, scored := 0, pruned := 0, entered := 0, stoppedEarly := false }

def Stats.efficiency (s : Stats) : Float :=
  let all := s.scored + s.pruned
  if all = 0 then 0.0
  else (Arithmetic.natural s.pruned / Arithmetic.natural all : Float) * 100.0

structure Result (α : Type) where
  /-- The place in the list of results, from one on. -/
  rank : Nat
  document : DocId
  name : String
  score : α
  passage : Option Span

structure Results (α : Type) where
  documents : List (Result α)
  stats : Stats

structure Options where
  requested : Nat
  earlyTermination : Bool
  deltaScoring : Bool
  byPassage : Bool

def Options.ofSettings (levels : List Parameters) : Options where
  requested := Setting.requested levels
  earlyTermination := Setting.value levels Json.asFlag "earlyTermination" false
  deltaScoring := Setting.value levels Json.asFlag "deltaScoring" false
  byPassage := Setting.byPassage levels

/-- What a scan does not change: whether it may stop early, at which score nothing can enter, and
whether sums may be abandoned. -/
structure ScanRules (α : Type) where
  earlyTermination : Bool
  ceiling : α
  delta : Bool
  passages : Option PassageScheme

structure Scan (α : Type) where
  root : Cursor α
  lengths : Cursor α
  best : TopK α
  stats : Stats

namespace Scan

variable {α : Type} [Arithmetic α]

def delta (rules : ScanRules α) (s : Scan α) : Option (Delta α) :=
  if rules.delta then
    s.best.threshold.map fun threshold => { threshold, reached := 0.0, pruned := false }
  else none

def evaluate (rules : ScanRules α) (document : DocId) (s : Scan α) (passage : Option Span) :
    Scan α :=
  let scored := s.root.score { document, passage } (s.delta rules)
  if scored.2.2.any Delta.pruned then
    { s with root := scored.2.1, stats := { s.stats with pruned := s.stats.pruned + 1 } }
  else
    let entry : Entry α := { score := scored.1, document, passage }
    let enters := s.best.wouldEnter entry
    { s with
      root := scored.2.1
      best := s.best.insert entry
      stats :=
        { s.stats with
          scored := s.stats.scored + 1
          entered := s.stats.entered + (if enters then 1 else 0) } }

theorem document_evaluate (rules : ScanRules α) (document : DocId) (s : Scan α)
    (passage : Option Span) :
    (s.evaluate rules document passage).root.document = s.root.document := by
  unfold evaluate
  dsimp only
  split <;> exact Cursor.document_score _ _ _

theorem document_foldl_evaluate (rules : ScanRules α) (document : DocId) (s : Scan α)
    (passages : List (Option Span)) :
    (passages.foldl (evaluate rules document) s).root.document = s.root.document := by
  induction passages generalizing s with
  | nil => rfl
  | cons passage rest ih => rw [List.foldl_cons, ih, document_evaluate]

def visit (rules : ScanRules α) (s : Scan α) : Scan α :=
  let document := s.root.document
  let s := { s with stats := { s.stats with visited := s.stats.visited + 1 } }
  match rules.passages with
  | none => s.evaluate rules document none
  | some scheme =>
    let s := { s with lengths := s.lengths.catchUp document }
    ((scheme.passages (s.lengths.lengthAt (.whole document))).map some).foldl
      (evaluate rules document) s

theorem document_visit (rules : ScanRules α) (s : Scan α) :
    (s.visit rules).root.document = s.root.document := by
  unfold visit
  dsimp only
  split
  · exact document_evaluate _ _ _ _
  · exact document_foldl_evaluate _ _ _ _

/-- Whether no later candidate can enter. -/
def isDecided (rules : ScanRules α) (s : Scan α) : Bool :=
  rules.earlyTermination && s.best.threshold.any (Arithmetic.atMost rules.ceiling)

/-- Visit the documents of the cursor to the end, or until nothing can enter. -/
def finish (rules : ScanRules α) (s : Scan α) : Except QueryError (Scan α) :=
  if _end : s.root.document = terminated then .ok s
  else if s.isDecided rules then .ok { s with stats := { s.stats with stoppedEarly := true } }
  else
    match _moved : (s.visit rules).root.moveTo (next s.root.document) with
    | .error e => .error e
    | .ok root => finish rules { s.visit rules with root }
termination_by distance s.root.document
decreasing_by
  have same := s.document_visit rules
  rw [← same] at _moved _end
  exact Nat.lt_of_lt_of_eq (Cursor.distance_of_moveTo_next _end _moved)
    (congrArg distance same)

end Scan

structure Retrieval where
  collection : Collection
  vocabulary : Vocabulary
  global : Parameters

namespace Retrieval

variable {α : Type} [Arithmetic α]

def levels (r : Retrieval) (parameters : Parameters) : List Parameters := [parameters, r.global]

def workshop (r : Retrieval) (parameters : Parameters) : Workshop :=
  { collection := r.collection, vocabulary := r.vocabulary, levels := r.levels parameters }

def prepare (r : Retrieval) (q : Query) (parameters : Parameters) : Except QueryError Query :=
  Preparation.prepare r.vocabulary (r.levels parameters) q

/-- A document without a name is named by its number. -/
def documentName (r : Retrieval) (d : DocId) : String :=
  (r.collection.documentName? d).getD (toString d.toNat)

def results (r : Retrieval) (s : Scan α) : Results α where
  documents := s.best.toList.zipIdx.map fun (entry, i) =>
    { rank := i + 1
      document := entry.document
      name := r.documentName entry.document
      score := entry.score
      passage := entry.passage }
  stats := s.stats

def passageField (levels : List Parameters) : String :=
  Setting.value levels Json.asText "passageField" defaultField

def plan (r : Retrieval) (q : Query) (parameters : Parameters) : Except QueryError (Plan α) := do
  (← (r.workshop parameters).build q).answering .scored q.operator

def execute (r : Retrieval) (q : Query) (parameters : Parameters) :
    Except QueryError (Results α) := do
  let levels := r.levels parameters
  let options := Options.ofSettings levels
  let plan ← r.plan q parameters
  let scheme ← if options.byPassage then some <$> PassageScheme.ofSettings levels else pure none
  if options.requested = 0 then return { documents := [], stats := .zero }
  else
    let rules : ScanRules α :=
      { earlyTermination := options.earlyTermination
        ceiling := plan.bounds.upper
        delta := options.deltaScoring && plan.supportsDelta
        passages := scheme }
    let scan ← Scan.finish rules
      { root := .ofPlan plan
        lengths := .ofPlan (.lengths (r.collection.lengths (passageField levels)))
        best := .empty options.requested
        stats := .zero }
    return r.results scan

def run (r : Retrieval) (q : Query) (parameters : Parameters) : Except QueryError (Results α) := do
  r.execute (← r.prepare q parameters) parameters

end Retrieval

end RankedRetrieval
