set_option autoImplicit false

namespace RankedRetrieval

inductive Capability where
  /-- Does the document match? -/
  | indicator
  /-- What is its score? -/
  | scored
  /-- Where are the occurrences in it? -/
  | extent
  /-- How long is it? -/
  | length
  /-- How many occurrences are in it? -/
  | count
  deriving DecidableEq

namespace Capability

def all : List Capability := [indicator, scored, extent, length, count]

def name : Capability → String
  | indicator => "indicator"
  | scored => "scored"
  | extent => "extent"
  | length => "length"
  | count => "count"

def ofName? (name : String) : Option Capability := all.find? fun c => c.name == name

end Capability

structure Capabilities where
  indicator : Bool
  scored : Bool
  extent : Bool
  length : Bool
  count : Bool
  deriving DecidableEq

namespace Capabilities

def has (s : Capabilities) : Capability → Bool
  | .indicator => s.indicator
  | .scored => s.scored
  | .extent => s.extent
  | .length => s.length
  | .count => s.count

def ofList (cs : List Capability) : Capabilities where
  indicator := cs.contains .indicator
  scored := cs.contains .scored
  extent := cs.contains .extent
  length := cs.contains .length
  count := cs.contains .count

def inter (s t : Capabilities) : Capabilities where
  indicator := s.indicator && t.indicator
  scored := s.scored && t.scored
  extent := s.extent && t.extent
  length := s.length && t.length
  count := s.count && t.count

def toList (s : Capabilities) : List Capability := Capability.all.filter s.has

def isEmpty (s : Capabilities) : Bool := s.toList.isEmpty

def render (s : Capabilities) : String :=
  "\x7b" ++ ", ".intercalate (s.toList.map Capability.name) ++ "\x7d"

@[simp] theorem has_ofList (cs : List Capability) (c : Capability) :
    (ofList cs).has c = cs.contains c := by
  cases c <;> rfl

@[simp] theorem has_inter (s t : Capabilities) (c : Capability) :
    (s.inter t).has c = (s.has c && t.has c) := by
  cases c <;> rfl

@[ext] theorem ext_has {s t : Capabilities} (h : ∀ c, s.has c = t.has c) : s = t := by
  cases s
  cases t
  have a := h .indicator
  have b := h .scored
  have c := h .extent
  have d := h .length
  have e := h .count
  simp only [has] at a b c d e
  subst a b c d e
  rfl

end Capabilities

/-- What a cursor that answers one question can also be asked: every cursor says whether it
matches, and the occurrences can be counted. -/
def Capability.offers : Capability → Capabilities
  | .indicator => .ofList [.indicator]
  | .count => .ofList [.count, .indicator]
  | .extent => .ofList [.extent, .count, .indicator]
  | .length => .ofList [.length, .indicator]
  | .scored => .ofList [.scored, .indicator]

end RankedRetrieval
