import RankedRetrieval.Decimal.Reading
import RankedRetrieval.Table

set_option autoImplicit false

namespace RankedRetrieval

inductive Number where
  | int (value : Int)
  | real (value : Float)

def Number.toFloat : Number → Float
  | .int n => if n < 0 then -n.natAbs.toUInt64.toFloat else n.natAbs.toUInt64.toFloat
  | .real x => x

def Number.toNat? : Number → Option Nat
  | .int n => if n < 0 then none else some n.toNat
  | .real _ => none

def Number.same : Number → Number → Bool
  | .int a, .int b => a == b
  | .real a, .real b => a == b
  | _, _ => false

inductive Json where
  | null
  | bool (value : Bool)
  | number (value : Number)
  | string (value : String)
  | array (items : List Json)
  | object (fields : List (String × Json))

instance : Inhabited Json := ⟨.null⟩

namespace Json

abbrev int (n : Int) : Json := .number (.int n)

def asString? : Json → Option String
  | .string s => some s
  | _ => none

def asArray? : Json → Option (List Json)
  | .array items => some items
  | _ => none

end Json

abbrev Fields := Table String Json

def Fields.ofList (fields : List (String × Json)) : Fields :=
  fields.foldl (fun all field => Table.insert field.1 field.2 all) []

namespace Json

def field? (key : String) : Json → Option Json
  | .object fields => Table.get? key fields
  | _ => none

mutual

/-- Equality of values. Whole numbers and doubles differ, and doubles compare as numbers. -/
def same : Json → Json → Bool
  | .null, .null => true
  | .bool a, .bool b => a == b
  | .number a, .number b => a.same b
  | .string a, .string b => a == b
  | .array a, .array b => sameItems a b
  | .object a, .object b => sameFields a b
  | _, _ => false

def sameItems : List Json → List Json → Bool
  | [], [] => true
  | a :: as, b :: bs => same a b && sameItems as bs
  | _, _ => false

def sameFields : List (String × Json) → List (String × Json) → Bool
  | [], [] => true
  | (j, a) :: as, (k, b) :: bs => j == k && same a b && sameFields as bs
  | _, _ => false

end

end Json

end RankedRetrieval
