import RankedRetrieval.Ranking.Entry
import RankedRetrieval.Ranking.Heap

set_option autoImplicit false

namespace RankedRetrieval

structure TopK (α : Type) where
  capacity : Nat
  /-- A heap with the worst entry first. -/
  entries : Array (Entry α)

namespace TopK

variable {α : Type}

def empty (capacity : Nat) : TopK α := { capacity, entries := #[] }

def size (t : TopK α) : Nat := t.entries.size

def isFull (t : TopK α) : Bool := t.capacity ≤ t.size

def worst? (t : TopK α) : Option (Entry α) := t.entries[0]?

/-- The score that a candidate has to exceed, once there is no more room. -/
def threshold (t : TopK α) : Option α := if t.isFull then t.worst?.map Entry.score else none

def wouldEnter [Arithmetic α] (t : TopK α) (e : Entry α) : Bool :=
  if t.capacity = 0 then false
  else
    match t.worst? with
    | some worst => !t.isFull || e.rank worst == .lt
    | none => true

/-- The accumulator after a candidate, which drives out the worst entry if there is no room. -/
def insert [Arithmetic α] (t : TopK α) (e : Entry α) : TopK α :=
  if !t.wouldEnter e then t
  else
    let kept := if t.isFull then Heap.pop Entry.rank t.entries else t.entries
    { t with entries := Heap.push Entry.rank kept e }

def tryInsert [Arithmetic α] (t : TopK α) (e : Entry α) : Bool × TopK α :=
  if !t.wouldEnter e then (false, t) else (true, t.insert e)

def toList [Arithmetic α] (t : TopK α) : List (Entry α) := Heap.sorted Entry.rank t.entries

end TopK

end RankedRetrieval
