import RankedRetrieval.Plan.Scorers

set_option autoImplicit false

namespace RankedRetrieval

/-- What a plan is built from besides the query: the collection, the meaning of operators, and the
levels of settings, the query's own first. -/
structure Workshop where
  collection : Collection
  vocabulary : Vocabulary
  levels : List Parameters

namespace Workshop

open Arithmetic

variable {α : Type} [Arithmetic α]

def wrongArity (operator : String) (least : Nat) (most : Option Nat) (found : Nat) : QueryError :=
  .malformedTree operator (.arity least most found)

def requiredText (operator : String) (parameters : Parameters) (key : String) :
    Except QueryError String :=
  match parameters.string? key with
  | some text => .ok text
  | none => .error (.malformedTree operator (.missingParameter key))

def largestWidth : Nat := 0xFFFFFFFF

def width (operator : String) (parameters : Parameters) (default : Nat) : Except QueryError Nat :=
  let width := (parameters.read Json.asCount "width").getD default
  if largestWidth < width then .error (.malformedTree operator .widthOutOfRange)
  else if width = 0 then .error (.malformedTree operator .widthNotPositive)
  else .ok width

def method (operator : String) (parameters : Parameters) : Except QueryError Method :=
  match parameters.string? "method" with
  | none | some "sum" | some "wsum" => .ok .sum
  | some "max" => .ok .greatest
  | some name => .error (.malformedTree operator (.unknownMethod name))

def mode (parameters : Parameters) : Mode :=
  if parameters.string? "mode" = some "and" then .all else .any

def normalize (weights : List α) : List α :=
  let sum := total weights
  if atMost sum 0.0 && atMost 0.0 sum then weights else weights.map (· / sum)

/-- The weights of so many children: settings named by their places, else one. -/
def weights (parameters : Parameters) (count : Nat) : List α :=
  let given := (List.range count).map fun i =>
    Arithmetic.given (((parameters.read Json.asReal (toString i)).getD 1.0))
  if (parameters.read Json.asFlag "norm").getD false then normalize given else given

def realSetting (w : Workshop) (parameters : Parameters) (key : String) (default : Float) : α :=
  given (Setting.value (parameters :: w.levels) Json.asReal key default)

def priorPlan (w : Workshop) (name : String) : Plan α :=
  let priors := w.collection.prior name
  .prior (priors.entries.map fun entry => (entry.1, given entry.2)) (given priors.default)

/-- The statistics of the counts of a scorer. Those of a term, filtered or not, are known; any
others are measured. -/
def statistics (w : Workshop) (counted : Query) (plan : Plan α) :
    Except QueryError TermStatistics :=
  match w.vocabulary.unfiltered counted with
  | .node operator parameters children =>
    if w.vocabulary.isTermLeaf (.node operator parameters children) then do
      let term ← requiredText operator parameters "term"
      return w.collection.termStatistics (Query.fieldOf parameters) term
    else plan.measure

def scorer (w : Workshop) (form : Form) (parameters : Parameters) (lengths counts : Plan α)
    (term : TermStatistics) (field : FieldStatistics) (bounds : LengthBounds) : Plan α :=
  match form with
  | .bm25 =>
    .bm25 lengths counts
      { k1 := w.realSetting parameters "k1" 1.2
        b := w.realSetting parameters "b" 0.75
        term
        field
        lengths := bounds }
  | _ =>
    .dirichlet lengths counts
      { mu := w.realSetting parameters "mu" 1500.0, term, field, lengths := bounds }

mutual

def build (w : Workshop) : Query → Except QueryError (Plan α)
  | .node operator parameters children => do
    let meaning ← w.vocabulary.resolve (.node operator parameters children)
    let found := children.length
    match meaning.form with
    | .termExtents =>
      if found ≠ 0 then throw (wrongArity operator 0 (some 0) found)
      let term ← requiredText operator parameters "term"
      return .extents (w.collection.postings (Query.fieldOf parameters) term)
    | .termCounts =>
      if found ≠ 0 then throw (wrongArity operator 0 (some 0) found)
      let term ← requiredText operator parameters "term"
      return .counts (w.collection.postings (Query.fieldOf parameters) term)
    | .fieldLengths =>
      if found ≠ 0 then throw (wrongArity operator 0 (some 0) found)
      return .lengths (w.collection.lengths (Query.fieldOf parameters))
    | .prior =>
      if found ≠ 0 then throw (wrongArity operator 0 (some 0) found)
      return w.priorPlan (← requiredText operator parameters "name")
    | .orderedWindow =>
      if found = 0 then throw (wrongArity operator 1 none found)
      let plans ← w.buildAll .extent operator children
      return .window .ordered (← width operator parameters 1) plans
    | .unorderedWindow =>
      if found = 0 then throw (wrongArity operator 1 none found)
      let plans ← w.buildAll .extent operator children
      return .window .unordered (← width operator parameters (4 * found)) plans
    | .synonym =>
      if found = 0 then throw (wrongArity operator 1 none found)
      if meaning.has .extent then return .synonym (← w.buildAll .extent operator children)
      else return .synonymCounts (← w.buildAll .count operator children)
    | .passageFilter =>
      match children with
      | [child] => return .passageFilter (← (← w.build child).answering .extent operator)
      | _ => throw (wrongArity operator 1 (some 1) found)
    | .passageLength =>
      match children with
      | [child] => return .passageLength (← (← w.build child).answering .length operator)
      | _ => throw (wrongArity operator 1 (some 1) found)
    | .dirichlet | .bm25 =>
      match children with
      | [counted] =>
        let field := Query.scorerField parameters counted.fieldHint
        let lengths := .lengths (w.collection.lengths field)
        let counts ← (← w.build counted).answering .count operator
        let term ← w.statistics counted counts
        let stats := w.collection.fieldStatistics field
        let bounds :=
          w.vocabulary.lengthBounds { plain := true, clipped := false } counted field stats
        return w.scorer meaning.form parameters lengths counts term stats bounds
      | [side, counted] =>
        let lengths ← (← w.build side).answering .length operator
        let field := Query.fieldOf side.source.parameters
        let counts ← (← w.build counted).answering .count operator
        let term ← w.statistics counted counts
        let stats := w.collection.fieldStatistics field
        let bounds :=
          w.vocabulary.lengthBounds (w.vocabulary.lengthSource side) counted field stats
        return w.scorer meaning.form parameters lengths counts term stats bounds
      | _ => throw (wrongArity operator 1 (some 2) found)
    | .combine =>
      if found = 0 then throw (wrongArity operator 1 none found)
      let plans ← w.buildAll .scored operator children
      return .combine (← method operator parameters) (mode parameters) plans
        (weights parameters found)
    | .logarithm =>
      match children with
      | [child] => return .log (← (← w.build child).answering .scored operator)
      | _ => throw (wrongArity operator 1 (some 1) found)
    | .scale =>
      match children with
      | [child] =>
        let plan ← (← w.build child).answering .scored operator
        return .scale (given ((parameters.read Json.asReal "weight").getD 1.0)) plan
      | _ => throw (wrongArity operator 1 (some 1) found)
    | .require =>
      match children with
      | [filter, scorer] =>
        let filter ← w.build filter
        return .require filter (← (← w.build scorer).answering .scored operator)
      | _ => throw (wrongArity operator 2 (some 2) found)
    | .booleanAnd =>
      if found = 0 then throw (wrongArity operator 1 none found)
      return .boolean .all (← w.buildAll .indicator operator children)
    | .booleanOr =>
      if found = 0 then throw (wrongArity operator 1 none found)
      return .boolean .any (← w.buildAll .indicator operator children)
    | .custom _ => throw (.malformedTree operator .noCursor)

def buildAll (w : Workshop) (question : Capability) (operator : String) :
    List Query → Except QueryError (List (Plan α))
  | [] => return []
  | q :: rest => do
    let plan ← (← w.build q).answering question operator
    return plan :: (← w.buildAll question operator rest)

end

end Workshop

end RankedRetrieval
