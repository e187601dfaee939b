import RankedRetrieval.Json.Mismatch
import RankedRetrieval.Query.Basic

set_option autoImplicit false

namespace RankedRetrieval

namespace Query

def expectedQuery : String := "struct NodeSpec"

def readOperator : Json → Except Json.Mismatch String
  | .string s => .ok s
  | found => .error (.wrongType found "a string")

def readParameters : Json → Except Json.Mismatch Parameters
  | .object fields => .ok { fields }
  | found => .error (.wrongType found "a map")

structure Parts where
  operator : Option String
  parameters : Option Parameters
  children : Option (List Query)

def Parts.none : Parts := { operator := .none, parameters := .none, children := .none }

def Parts.query? (p : Parts) : Option Query :=
  p.operator.map fun operator =>
    .node operator (p.parameters.getD .empty) (p.children.getD [])

mutual

def ofJson : Json → Except Json.Mismatch Query
  | .object fields =>
    match ofFields fields .none with
    | .error e => .error e
    | .ok parts =>
      match parts.query? with
      | some q => .ok q
      | none => .error (.missingField "operator")
  | .array items => ofItems items
  | found => .error (.wrongType found expectedQuery)

/-- The fields are read by key, so the first fault by key is the one reported. -/
def ofFields : List (String × Json) → Parts → Except Json.Mismatch Parts
  | [], parts => .ok parts
  | (key, value) :: rest, parts =>
    if key = "operator" then
      match readOperator value with
      | .error e => .error e
      | .ok operator => ofFields rest { parts with operator := some operator }
    else if key = "parameters" then
      match readParameters value with
      | .error e => .error e
      | .ok parameters => ofFields rest { parts with parameters := some parameters }
    else if key = "children" then
      match ofChildren value with
      | .error e => .error e
      | .ok children => ofFields rest { parts with children := some children }
    else ofFields rest parts

def ofItems : List Json → Except Json.Mismatch Query
  | [] => .error (.wrongLength 0 (expectedQuery ++ " with 3 elements"))
  | [operator] => do return .node (← readOperator operator) .empty []
  | [operator, parameters] => do
    return .node (← readOperator operator) (← readParameters parameters) []
  | operator :: parameters :: children :: rest => do
    let q := Query.node (← readOperator operator) (← readParameters parameters)
      (← ofChildren children)
    if rest.isEmpty then return q
    else throw (.wrongLength (rest.length + 3) "fewer elements in array")

def ofChildren : Json → Except Json.Mismatch (List Query)
  | .array items => ofAll items
  | found => .error (.wrongType found "a sequence")

def ofAll : List Json → Except Json.Mismatch (List Query)
  | [] => .ok []
  | item :: rest => do return (← ofJson item) :: (← ofAll rest)

end

mutual

def toJson : Query → Json
  | node operator parameters children =>
    let below := if children.isEmpty then [] else [("children", .array (toJsonAll children))]
    let settings := if parameters.isEmpty then [] else [("parameters", parameters.toJson)]
    .object (below ++ [("operator", .string operator)] ++ settings)

def toJsonAll : List Query → List Json
  | [] => []
  | q :: rest => toJson q :: toJsonAll rest

end

def writtenOperator : Json.Written → Option String
  | .string raw => Json.decodeString raw
  | _ => none

def writtenParameters (depth : Nat) : Json.Written → Option Parameters
  | .object fields => (Json.Written.value depth (.object fields)).bind Parameters.ofJson?
  | _ => none

mutual

/-- The query that JSON as written describes. `depth` is one more than the arrays and objects that
may still open. -/
def ofWritten (depth : Nat) : Json.Written → Option Query
  | .object fields =>
    if depth ≤ 1 then none else (writtenFields (depth - 1) fields .none).bind Parts.query?
  | .array items => if depth ≤ 1 then none else writtenItems (depth - 1) items
  | _ => none

/-- A field may come once; one that a query does not have must be in order and is passed over. -/
def writtenFields (depth : Nat) : List (List Char × Json.Written) → Parts → Option Parts
  | [], parts => some parts
  | (raw, value) :: rest, parts =>
    match Json.decodeString raw with
    | none => none
    | some key =>
      if key = "operator" then
        if parts.operator.isSome then none
        else (writtenOperator value).bind fun operator =>
          writtenFields depth rest { parts with operator := some operator }
      else if key = "parameters" then
        if parts.parameters.isSome then none
        else (writtenParameters depth value).bind fun parameters =>
          writtenFields depth rest { parts with parameters := some parameters }
      else if key = "children" then
        if parts.children.isSome then none
        else (writtenChildren depth value).bind fun children =>
          writtenFields depth rest { parts with children := some children }
      else if value.wellFormed then writtenFields depth rest parts
      else none

def writtenItems (depth : Nat) : List Json.Written → Option Query
  | [operator] => do return .node (← writtenOperator operator) .empty []
  | [operator, parameters] => do
    return .node (← writtenOperator operator) (← writtenParameters depth parameters) []
  | [operator, parameters, children] => do
    return .node (← writtenOperator operator) (← writtenParameters depth parameters)
      (← writtenChildren depth children)
  | _ => none

def writtenChildren (depth : Nat) : Json.Written → Option (List Query)
  | .array items => if depth ≤ 1 then none else writtenAll (depth - 1) items
  | _ => none

def writtenAll (depth : Nat) : List Json.Written → Option (List Query)
  | [] => some []
  | item :: rest => do return (← ofWritten depth item) :: (← writtenAll depth rest)

end

def parse (text : String) : Option Query :=
  (Json.Written.read text).bind (ofWritten Json.depthLimit)

end Query

end RankedRetrieval
