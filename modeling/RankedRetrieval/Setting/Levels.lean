import RankedRetrieval.Setting.Parameters

set_option autoImplicit false

namespace RankedRetrieval

namespace Setting

def find? {α : Type} (levels : List Parameters) (as : Json → Option α) (key : String) : Option α :=
  levels.findSome? fun level => level.read as key

def value {α : Type} (levels : List Parameters) (as : Json → Option α) (key : String)
    (default : α) : α :=
  (find? levels as key).getD default

/-- A flag with several names, at one level: none if no name is there, else whether some name that
is there holds. -/
def anyName (names : List String) (level : Parameters) : Option Bool :=
  match names.filterMap (level.read Json.asFlag) with
  | [] => none
  | flags => some (flags.any id)

/-- A flag with several names. The first level that has one of them decides. -/
def flag (levels : List Parameters) (names : List String) (default : Bool) : Bool :=
  (levels.findSome? (anyName names)).getD default

end Setting

def defaultField : String := "document"

def Setting.requested (levels : List Parameters) : Nat :=
  Setting.value levels Json.asCount "requested" 1000

def Setting.byPassage (levels : List Parameters) : Bool :=
  Setting.flag levels ["passageQuery", "extentQuery"] false

end RankedRetrieval
