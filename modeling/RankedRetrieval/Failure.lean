import RankedRetrieval.Capability
import RankedRetrieval.Document
import RankedRetrieval.Json.Mismatch

set_option autoImplicit false

namespace RankedRetrieval

inductive Malformation where
  | arity (least : Nat) (most : Option Nat) (found : Nat)
  | missingParameter (key : String)
  | widthOutOfRange
  | widthNotPositive
  | unknownMethod (name : String)
  | noCursor

inductive Misconfiguration where
  | notPositive (key : String)
  | badEntry (key : String) (fault : Json.Mismatch)

inductive QueryError where
  /-- No rule says what the operator means. -/
  | unknownOperator (operator : String)
  /-- A child cannot be asked what its parent asks. -/
  | capabilityMismatch (operator : String) (expected : Capability) (found : Capabilities)
  /-- A cursor was asked to go back. -/
  | invalidMove (cursor : String) (current target : DocId)
  | malformedTree (operator : String) (fault : Malformation)
  | invalidConfig (fault : Misconfiguration)

def arityText (least : Nat) : Option Nat → String
  | some most => if most = least then toString least else toString least ++ "..=" ++ toString most
  | none => "at least " ++ toString least

def Malformation.message : Malformation → String
  | .arity least most found =>
    "expected " ++ arityText least most ++ " children, found " ++ toString found
  | .missingParameter key => "missing `" ++ key ++ "` parameter"
  | .widthOutOfRange => "width out of range"
  | .widthNotPositive => "width must be positive"
  | .unknownMethod name => "unknown method `" ++ name ++ "`"
  | .noCursor => "registered operator has no cursor implementation"

def Misconfiguration.message : Misconfiguration → String
  | .notPositive key => key ++ " must be positive"
  | .badEntry key fault => key ++ ": " ++ fault.message

def QueryError.message : QueryError → String
  | .unknownOperator operator => "unknown operator `" ++ operator ++ "`"
  | .capabilityMismatch operator expected found =>
    "capability mismatch at `" ++ operator ++ "`: expected a " ++ expected.name ++
      " child, found " ++ found.render
  | .invalidMove cursor current target =>
    "invalid move: `" ++ cursor ++ "` is at document " ++ toString current.toNat ++
      " and cannot move back to " ++ toString target.toNat
  | .malformedTree operator fault =>
    "malformed query tree at `" ++ operator ++ "`: " ++ fault.message
  | .invalidConfig fault => "invalid configuration: " ++ fault.message

end RankedRetrieval
