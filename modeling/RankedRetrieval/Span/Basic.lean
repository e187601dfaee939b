set_option autoImplicit false

namespace RankedRetrieval

structure Span where
  start : Nat
  stop : Nat
  deriving DecidableEq

namespace Span

def token (position : Nat) : Span := { start := position, stop := position + 1 }

def contains (outer inner : Span) : Bool := outer.start ≤ inner.start && inner.stop ≤ outer.stop

/-- The order by start, then by stop. -/
def precedes (s t : Span) : Bool := s.start < t.start || (s.start == t.start && s.stop ≤ t.stop)

def arrange (spans : List Span) : List Span := (spans.mergeSort precedes).eraseReps

end Span

def clippedLength (passage : Option Span) (length : Nat) : Nat :=
  match passage with
  | some p => min length p.stop - p.start
  | none => length

def restrict (passage : Option Span) (spans : List Span) : List Span :=
  match passage with
  | some p => spans.filter p.contains
  | none => spans

end RankedRetrieval
