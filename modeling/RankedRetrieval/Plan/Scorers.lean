import RankedRetrieval.Plan.Progress
import RankedRetrieval.Query.Vocabulary
import RankedRetrieval.Setting.Levels

set_option autoImplicit false

namespace RankedRetrieval

def Query.fieldOf (parameters : Parameters) : String :=
  (ownField parameters).getD defaultField

def Query.source : Query → Query
  | .node _ _ [child] => child.source
  | q => q

namespace Vocabulary

def isTermLeaf (v : Vocabulary) (q : Query) : Bool :=
  match v.form? q.operator with
  | some .termExtents | some .termCounts => true
  | _ => false

/-- How the lengths of a scorer are written: whether they are those of a field in the end, and
whether they are clipped to passages. -/
structure LengthSource where
  plain : Bool
  clipped : Bool

def lengthSource (v : Vocabulary) : Query → LengthSource
  | .node operator _ children =>
    match v.form? operator, children with
    | some .passageLength, [child] => { v.lengthSource child with clipped := true }
    | some .fieldLengths, _ => { plain := true, clipped := false }
    | _, _ => { plain := false, clipped := false }

def unfiltered (v : Vocabulary) : Query → Query
  | .node operator parameters children =>
    match v.form? operator, children with
    | some .passageFilter, [child] => v.unfiltered child
    | _, _ => .node operator parameters children

def isFiltered (v : Vocabulary) : Query → Bool
  | .node operator _ [_] => v.form? operator == some .passageFilter
  | _ => false

mutual

def termsIn (v : Vocabulary) (field : String) : Query → Bool
  | .node operator parameters children =>
    (!v.isTermLeaf (.node operator parameters []) || Query.fieldOf parameters == field) &&
      v.allTermsIn field children

def allTermsIn (v : Vocabulary) (field : String) : List Query → Bool
  | [] => true
  | q :: rest => v.termsIn field q && v.allTermsIn field rest

end

/-- What may be assumed of the lengths of a scorer. Counts stay within lengths for the occurrences
of terms beside the lengths of their own field, and beside clipped lengths only if they are filtered
to the passage too. Clipped lengths have no useful least value. -/
def lengthBounds (v : Vocabulary) (lengths : LengthSource) (counted : Query) (field : String)
    (stats : FieldStatistics) : LengthBounds :=
  let inner := v.unfiltered counted
  let sameField := lengths.plain && v.termsIn field inner
  { shortest := if sameField && !lengths.clipped then stats.minLength else 0
    countsWithinLength :=
      sameField && v.isTermLeaf inner && (v.isFiltered counted || !lengths.clipped) }

end Vocabulary

def Cursor.measureFrom {α : Type} (c : Cursor α) (stats : TermStatistics) :
    Except QueryError TermStatistics :=
  if _end : c.document = terminated then .ok stats
  else
    match _moved : c.moveTo (next c.document) with
    | .error e => .error e
    | .ok moved => moved.measureFrom (stats.add (c.countAt (.whole c.document)))
termination_by distance c.document
decreasing_by exact Cursor.distance_of_moveTo_next _end _moved

def Plan.measure {α : Type} (plan : Plan α) : Except QueryError TermStatistics :=
  (Cursor.ofPlan plan).measureFrom .empty

end RankedRetrieval
