import RankedRetrieval.Query.Description
import RankedRetrieval.Retrieval.Execution

set_option autoImplicit false

namespace RankedRetrieval

structure BatchQuery where
  number : String
  query : Query
  parameters : Parameters

structure BatchFailure where
  number : String
  cause : QueryError

namespace BatchFailure

def heading (f : BatchFailure) : String := "query " ++ f.number ++ " failed"

def message (f : BatchFailure) : String := f.heading ++ ": " ++ f.cause.message

end BatchFailure

namespace BatchQuery

def toJson (b : BatchQuery) : Json :=
  .object (Table.insert "number" (.string b.number)
    (Table.insert "query" b.query.toJson b.parameters.fields))

def readNumber (fields : Fields) : Except Json.Mismatch String :=
  match Table.get? "number" fields with
  | none => .ok ""
  | some (.string s) => .ok s
  | some (.number n) => .ok n.render
  | some found => .error (.notTextOrNumber found)

/-- An entry with a query of its own has a number and parameters beside it; any other entry is a
query. -/
def ofJson (entry : Json) : Except Json.Mismatch BatchQuery :=
  match entry with
  | .object fields =>
    match Table.get? "query" fields with
    | some query => do
      return {
        number := ← readNumber fields
        query := ← Query.ofJson query
        parameters := { fields := Table.erase "query" (Table.erase "number" fields) } }
    | none => bare entry
  | _ => bare entry
where
  bare (entry : Json) : Except Json.Mismatch BatchQuery := do
    return { number := "", query := ← Query.ofJson entry, parameters := .empty }

def entriesOf (batch : Parameters) (key : String) : List Json :=
  match batch.get? key with
  | none => []
  | some (.array entries) => entries
  | some entry => [entry]

def readEntries (key : String) : List Json → Except QueryError (List BatchQuery)
  | [] => .ok []
  | entry :: rest =>
    match ofJson entry with
    | .error fault => .error (.invalidConfig (.badEntry key fault))
    | .ok b => (readEntries key rest).map (b :: ·)

/-- Number the queries that have no number, in order from `next` on. -/
def numberFrom (next : Nat) : List BatchQuery → List BatchQuery
  | [] => []
  | b :: rest =>
    if b.number.isEmpty then
      { b with number := "unk-" ++ toString next } :: numberFrom (next + 1) rest
    else b :: numberFrom next rest

def collect (batch : Parameters) : Except QueryError (List BatchQuery) := do
  let first ← readEntries "query" (entriesOf batch "query")
  let others ← readEntries "queries" (entriesOf batch "queries")
  return numberFrom 0 (first ++ others)

def effective (b : BatchQuery) (batch : Parameters) : Parameters :=
  let backoff := (batch.remove "query").remove "queries"
  let parameters := b.parameters.backedBy backoff
  match backoff.get? "requested" with
  | some requested => parameters.set "requested" requested
  | none => parameters

end BatchQuery

namespace Retrieval

variable {α : Type} [Arithmetic α]

def runOne (r : Retrieval) (batch : Parameters) (b : BatchQuery) :
    Except BatchFailure (Results α) :=
  (r.run b.query (b.effective batch)).mapError fun cause => { number := b.number, cause }

def runBatch (r : Retrieval) (queries : List BatchQuery) (batch : Parameters) :
    List (Except BatchFailure (Results α)) :=
  queries.map (r.runOne batch)

end Retrieval

end RankedRetrieval
