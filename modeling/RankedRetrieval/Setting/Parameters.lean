import RankedRetrieval.Json.Printer
import RankedRetrieval.Json.Reader

set_option autoImplicit false

namespace RankedRetrieval

namespace Json

def asFlag : Json → Option Bool
  | .bool b => some b
  | .string s => Decimal.readBool s
  | _ => none

def asReal : Json → Option Float
  | .number n => some n.toFloat
  | .string s => Decimal.readFloat s
  | _ => none

/-- A natural number within a word, or its text. -/
def asCount : Json → Option Nat
  | .number n => n.toNat?
  | .string s => Decimal.readNat s
  | _ => none

def asText : Json → Option String
  | .string s => some s
  | .number n => some n.render
  | .bool true => some "true"
  | .bool false => some "false"
  | _ => none

end Json

structure Parameters where
  fields : Fields

namespace Parameters

def empty : Parameters := { fields := [] }

def single (key : String) (value : Json) : Parameters := { fields := [(key, value)] }

def get? (p : Parameters) (key : String) : Option Json := Table.get? key p.fields

def contains (p : Parameters) (key : String) : Bool := (p.get? key).isSome

def set (p : Parameters) (key : String) (value : Json) : Parameters :=
  { fields := Table.insert key value p.fields }

def remove (p : Parameters) (key : String) : Parameters := { fields := Table.erase key p.fields }

def isEmpty (p : Parameters) : Bool := p.fields.isEmpty

def size (p : Parameters) : Nat := p.fields.length

def keys (p : Parameters) : List String := p.fields.map Prod.fst

/-- These parameters with `backoff` filling every key they do not set. -/
def backedBy (p backoff : Parameters) : Parameters :=
  { fields := p.fields.foldr (fun field all => Table.insert field.1 field.2 all) backoff.fields }

def read {α : Type} (p : Parameters) (as : Json → Option α) (key : String) : Option α :=
  (p.get? key).bind as

def string? (p : Parameters) (key : String) : Option String := p.read Json.asString? key

def toJson (p : Parameters) : Json := .object p.fields

def render (p : Parameters) : String := p.toJson.render

def same (p q : Parameters) : Bool := Json.sameFields p.fields q.fields

def ofJson? : Json → Option Parameters
  | .object fields => some { fields }
  | _ => none

def parse (text : String) : Option Parameters := (Json.parse text).bind ofJson?

@[simp] theorem get?_empty (key : String) : empty.get? key = none := rfl

theorem get?_set (p : Parameters) (key other : String) (value : Json) :
    (p.set key value).get? other = if key = other then some value else p.get? other :=
  Table.get?_insert key other value p.fields

theorem get?_remove (p : Parameters) (key other : String) :
    (p.remove key).get? other = if key = other then none else p.get? other :=
  Table.get?_erase key other p.fields

/-- Key by key, the first of the two that has it decides. -/
theorem get?_backedBy (p backoff : Parameters) (key : String) :
    (p.backedBy backoff).get? key = (p.get? key).or (backoff.get? key) := by
  obtain ⟨fields⟩ := p
  unfold backedBy get?
  induction fields with
  | nil => rfl
  | cons field rest ih =>
    simp only [List.foldr_cons, Table.get?_insert, Table.get?]
    by_cases h : field.1 = key
    · simp [h]
    · simp only [h, if_false]
      exact ih

end Parameters

end RankedRetrieval
