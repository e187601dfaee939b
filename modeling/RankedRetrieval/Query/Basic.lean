import RankedRetrieval.Setting.Levels

set_option autoImplicit false

namespace RankedRetrieval

inductive Query where
  | node (operator : String) (parameters : Parameters) (children : List Query)

namespace Query

def operator : Query → String
  | node operator _ _ => operator

def parameters : Query → Parameters
  | node _ parameters _ => parameters

def children : Query → List Query
  | node _ _ children => children

mutual

def size : Query → Nat
  | node _ _ children => sizeAll children + 1

def sizeAll : List Query → Nat
  | [] => 0
  | q :: rest => size q + sizeAll rest

end

def ownField (parameters : Parameters) : Option String := parameters.string? "field"

mutual

/-- The field named by the first node that names one, a node before those below it. -/
def firstField : Query → Option String
  | node _ parameters children => (ownField parameters).or (firstFieldOf children)

def firstFieldOf : List Query → Option String
  | [] => none
  | q :: rest => (firstField q).or (firstFieldOf rest)

end

theorem firstFieldOf_eq_findSome? (qs : List Query) :
    firstFieldOf qs = qs.findSome? firstField := by
  induction qs with
  | nil => rfl
  | cons q rest ih =>
    rw [firstFieldOf, List.findSome?_cons, ih]
    cases q.firstField <;> rfl

def fieldHint (q : Query) : String := q.firstField.getD defaultField

/-- The field whose lengths a scorer of one child reads: its own, else the one named below it. -/
def scorerField (parameters : Parameters) (below : String) : String :=
  (ownField parameters).getD below

/-- The text of a setting: a string without quotes, any other value as JSON. -/
def settingText : Json → String
  | .string s => s
  | value => value.render

def parametersText (p : Parameters) : String :=
  String.join (p.fields.map fun field => ":" ++ field.1 ++ "=" ++ settingText field.2)

mutual

/-- The query on one line, as in `#combine(#extents:term=a() #extents:term=b())`. -/
def render : Query → String
  | node operator parameters children =>
    "#" ++ operator ++ parametersText parameters ++ "(" ++
      " ".intercalate (renderAll children) ++ ")"

def renderAll : List Query → List String
  | [] => []
  | q :: rest => render q :: renderAll rest

end

mutual

def same : Query → Query → Bool
  | node op ps cs, node op' ps' cs' => op == op' && ps.same ps' && sameAll cs cs'

def sameAll : List Query → List Query → Bool
  | [], [] => true
  | q :: qs, r :: rs => same q r && sameAll qs rs
  | _, _ => false

end

end Query

end RankedRetrieval
