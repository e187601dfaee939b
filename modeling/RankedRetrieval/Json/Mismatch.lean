import RankedRetrieval.Json.Printer
import RankedRetrieval.Text.Quoted

set_option autoImplicit false

namespace RankedRetrieval.Json

inductive Mismatch where
  | missingField (name : String)
  | wrongType (found : Json) (expected : String)
  | wrongLength (found : Nat) (expected : String)
  | notTextOrNumber (found : Json)

def describe : Json → String
  | .null => "null"
  | .bool true => "boolean `true`"
  | .bool false => "boolean `false`"
  | .number (.int n) => "integer `" ++ toString n ++ "`"
  | .number (.real x) => "floating point `" ++ (Number.real x).render ++ "`"
  | .string s => "string " ++ Text.quoted s
  | .array _ => "sequence"
  | .object _ => "map"

def Mismatch.message : Mismatch → String
  | .missingField name => "missing field `" ++ name ++ "`"
  | .wrongType found expected => "invalid type: " ++ found.describe ++ ", expected " ++ expected
  | .wrongLength found expected => "invalid length " ++ toString found ++ ", expected " ++ expected
  | .notTextOrNumber found => "expected a string or number, found " ++ found.render

end RankedRetrieval.Json
