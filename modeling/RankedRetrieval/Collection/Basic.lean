import RankedRetrieval.Document
import RankedRetrieval.Score.Statistics
import RankedRetrieval.Span.Basic
import RankedRetrieval.Table

set_option autoImplicit false

namespace RankedRetrieval

structure Posting where
  document : DocId
  spans : List Span

structure Field where
  lengths : Array (DocId × Nat)
  postings : Table String (Array Posting)

/-- Scores of documents; documents that are not listed have the default. -/
structure Priors where
  entries : Array (DocId × Float)
  default : Float

structure Collection where
  names : Array String
  fields : Table String Field
  priors : Table String Priors

namespace Collection

def documentCount (c : Collection) : Nat := c.names.size

def documentName? (c : Collection) (d : DocId) : Option String := c.names[d.toNat]?

def postings (c : Collection) (field term : String) : Array Posting :=
  (((c.fields.get? field).bind fun f => f.postings.get? term).getD #[])

def lengths (c : Collection) (field : String) : Array (DocId × Nat) :=
  ((c.fields.get? field).map Field.lengths).getD #[]

def prior (c : Collection) (name : String) : Priors :=
  (c.priors.get? name).getD { entries := #[], default := 0.0 }

def termStatistics (c : Collection) (field term : String) : TermStatistics :=
  let counts := (c.postings field term).toList.map fun p => p.spans.length
  { documentFrequency := counts.length
    collectionFrequency := counts.foldl (· + ·) 0
    maxCount := counts.max?.getD 0 }

def fieldStatistics (c : Collection) (field : String) : FieldStatistics :=
  .ofLengths ((c.lengths field).toList.map Prod.snd)

end Collection

end RankedRetrieval
