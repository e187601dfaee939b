import RankedRetrieval.Document
import RankedRetrieval.Score.Arithmetic
import RankedRetrieval.Span.Basic

set_option autoImplicit false

namespace RankedRetrieval

structure Entry (α : Type) where
  score : α
  document : DocId
  passage : Option Span

namespace Entry

variable {α : Type}

/-- The place of a passage among those of its document; the whole document comes first. -/
def passageRank (e : Entry α) : Nat :=
  match e.passage with
  | none => 0
  | some p => p.start + 1

/-- Less is the better rank. -/
def rank [Arithmetic α] (e f : Entry α) : Ordering :=
  (Arithmetic.order f.score e.score).then
    ((compare e.document.toNat f.document.toNat).then (compare e.passageRank f.passageRank))

end Entry

end RankedRetrieval
