set_option autoImplicit false

namespace RankedRetrieval

structure TermStatistics where
  /-- The number of documents in which it occurs. -/
  documentFrequency : Nat
  collectionFrequency : Nat
  /-- The largest count of one document. -/
  maxCount : Nat
  deriving DecidableEq

structure FieldStatistics where
  documentCount : Nat
  collectionLength : Nat
  minLength : Nat
  maxLength : Nat
  deriving DecidableEq

def TermStatistics.empty : TermStatistics :=
  { documentFrequency := 0, collectionFrequency := 0, maxCount := 0 }

/-- Take in the count of one more document, if it is positive. -/
def TermStatistics.add (s : TermStatistics) (count : Nat) : TermStatistics :=
  if count = 0 then s
  else
    { documentFrequency := s.documentFrequency + 1
      collectionFrequency := s.collectionFrequency + count
      maxCount := max s.maxCount count }

def FieldStatistics.ofLengths (lengths : List Nat) : FieldStatistics where
  documentCount := lengths.length
  collectionLength := lengths.foldl (· + ·) 0
  minLength := lengths.min?.getD 0
  maxLength := lengths.max?.getD 0

structure LengthBounds where
  /-- No document with a positive count is shorter. -/
  shortest : Nat
  /-- A count is never larger than the length beside it. -/
  countsWithinLength : Bool

def LengthBounds.best (b : LengthBounds) (count : Nat) : Nat :=
  if b.countsWithinLength then max count b.shortest else b.shortest

end RankedRetrieval
