import RankedRetrieval.Failure
import RankedRetrieval.Query.Basic

set_option autoImplicit false

namespace RankedRetrieval

inductive Form where
  | termExtents
  | termCounts
  | fieldLengths
  | prior
  | orderedWindow
  | unorderedWindow
  | synonym
  | passageFilter
  | passageLength
  | dirichlet
  | bm25
  | combine
  | logarithm
  | scale
  | require
  | booleanAnd
  | booleanOr
  /-- A form of a caller's own, for which there is no cursor. -/
  | custom (name : String)
  deriving DecidableEq

namespace Form

def byName : List (String × Form) := [
  ("TermExtents", termExtents), ("TermCounts", termCounts), ("FieldLengths", fieldLengths),
  ("Prior", prior), ("OrderedWindow", orderedWindow), ("UnorderedWindow", unorderedWindow),
  ("Synonym", synonym), ("PassageFilter", passageFilter), ("PassageLength", passageLength),
  ("Dirichlet", dirichlet), ("Bm25", bm25), ("Combine", combine), ("Logarithm", logarithm),
  ("Scale", scale), ("Require", require), ("BooleanAnd", booleanAnd), ("BooleanOr", booleanOr)]

def ofName (name : String) : Form := (byName.lookup name).getD (custom name)

def name : Form → String
  | custom name => "Custom(" ++ Text.quoted name ++ ")"
  | form => ((byName.find? fun entry => entry.2 == form).map Prod.fst).getD ""

end Form

inductive Rule where
  /-- The same capabilities whatever the children. -/
  | fixed (capabilities : Capabilities) (form : Form)
  /-- The capabilities of `mask` that all children share. -/
  | shared (mask : Capabilities) (form : Form)

def Rule.form : Rule → Form
  | fixed _ form => form
  | shared _ form => form

structure Meaning where
  capabilities : Capabilities
  form : Form

def Meaning.has (m : Meaning) (c : Capability) : Bool := m.capabilities.has c

/-- The rules by operator; the first rule for an operator counts. -/
structure Vocabulary where
  rules : List (String × Rule)

namespace Vocabulary

def builtIn : Vocabulary :=
  let positional := Capability.extent.offers
  let scored := Capability.scored.offers
  let lengths := Capability.length.offers
  let indicator := Capability.indicator.offers
  { rules := [
      ("extents", .fixed positional .termExtents),
      ("text", .fixed positional .termExtents),
      ("counts", .fixed Capability.count.offers .termCounts),
      ("lengths", .fixed lengths .fieldLengths),
      ("prior", .fixed scored .prior),
      ("od", .fixed positional .orderedWindow),
      ("ordered", .fixed positional .orderedWindow),
      ("uw", .fixed positional .unorderedWindow),
      ("unordered", .fixed positional .unorderedWindow),
      ("syn", .shared positional .synonym),
      ("synonym", .shared positional .synonym),
      ("passage-filter", .fixed positional .passageFilter),
      ("passage-length", .fixed lengths .passageLength),
      ("dirichlet", .fixed scored .dirichlet),
      ("bm25", .fixed scored .bm25),
      ("combine", .fixed scored .combine),
      ("log", .fixed scored .logarithm),
      ("scale", .fixed scored .scale),
      ("require", .fixed scored .require),
      ("band", .fixed indicator .booleanAnd),
      ("and", .fixed indicator .booleanAnd),
      ("bor", .fixed indicator .booleanOr),
      ("or", .fixed indicator .booleanOr)] }

def rule? (v : Vocabulary) (operator : String) : Option Rule := v.rules.lookup operator

def register (v : Vocabulary) (operator : String) (rule : Rule) : Vocabulary :=
  { rules := (operator, rule) :: v.rules }

def knows (v : Vocabulary) (operator : String) : Bool := (v.rule? operator).isSome

def form? (v : Vocabulary) (operator : String) : Option Form := (v.rule? operator).map Rule.form

mutual

/-- What a query means. It fails only for an operator without a rule. -/
def resolve (v : Vocabulary) : Query → Except QueryError Meaning
  | .node operator _ children =>
    match v.rule? operator with
    | none => .error (.unknownOperator operator)
    | some (.fixed capabilities form) => .ok { capabilities, form }
    | some (.shared mask form) =>
      (v.resolveShared mask children).map ({ capabilities := ·, form })

def resolveShared (v : Vocabulary) (mask : Capabilities) :
    List Query → Except QueryError Capabilities
  | [] => .ok mask
  | q :: rest =>
    match v.resolve q with
    | .ok meaning => v.resolveShared (mask.inter meaning.capabilities) rest
    | .error e => .error e

end

def shareBy {β : Type} (meaning : β → Except QueryError Meaning) (mask : Capabilities) :
    List β → Except QueryError Capabilities
  | [] => .ok mask
  | x :: rest =>
    match meaning x with
    | .ok m => shareBy meaning (mask.inter m.capabilities) rest
    | .error e => .error e

theorem resolveShared_map {β : Type} (v : Vocabulary) (query : β → Query) (mask : Capabilities)
    (items : List β) :
    v.resolveShared mask (items.map query) =
      shareBy (fun x => v.resolve (query x)) mask items := by
  induction items generalizing mask with
  | nil => rfl
  | cons x rest ih =>
    rw [List.map_cons, resolveShared, shareBy]
    cases v.resolve (query x) with
    | error e => rfl
    | ok m => exact ih _

/-- The form depends on the operator alone. -/
theorem form_of_resolve {v : Vocabulary} {q : Query} {m : Meaning} (h : v.resolve q = .ok m) :
    v.form? q.operator = some m.form := by
  obtain ⟨operator, parameters, children⟩ := q
  simp only [resolve] at h
  unfold form? Query.operator
  split at h
  · cases h
  · cases h
    simp_all [Rule.form]
  · rename_i mask form _
    cases share : v.resolveShared mask children with
    | error e =>
      rw [share] at h
      cases h
    | ok capabilities =>
      rw [share] at h
      cases h
      simp_all [Rule.form]

end Vocabulary

end RankedRetrieval
