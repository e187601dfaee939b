import RankedRetrieval.Json.Token
import RankedRetrieval.Json.Value

set_option autoImplicit false

namespace RankedRetrieval.Json

inductive Written where
  | null
  | bool (value : Bool)
  | number (n : Numeral)
  | string (raw : List Char)
  | array (items : List Written)
  | object (fields : List (List Char × Written))

inductive Frame where
  | array (items : List Written)
  | object (fields : List (List Char × Written)) (key : List Char)

inductive Stage where
  | value
  | firstItem
  | firstKey
  | key
  | colon
  | next
  deriving DecidableEq

structure Assembly where
  frames : List Frame
  stage : Stage
  result : Option Written

def Assembly.empty : Assembly := { frames := [], stage := .value, result := none }

def Assembly.finish (frames : List Frame) (value : Written) : Assembly :=
  match frames with
  | [] => { frames := [], stage := .next, result := some value }
  | .array items :: outer =>
    { frames := .array (value :: items) :: outer, stage := .next, result := none }
  | .object fields key :: outer =>
    { frames := .object ((key, value) :: fields) key :: outer, stage := .next, result := none }

def Assembly.close (frames : List Frame) (c : Char) : Option Assembly :=
  match frames with
  | .array items :: outer =>
    if c = ']' then some (Assembly.finish outer (.array items.reverse)) else none
  | .object fields _ :: outer =>
    if c = '\x7d' then some (Assembly.finish outer (.object fields.reverse)) else none
  | [] => none

def named (letters : List Char) : Option Written :=
  match String.ofList letters with
  | "null" => some .null
  | "true" => some (.bool true)
  | "false" => some (.bool false)
  | _ => none

def Assembly.begin (frames : List Frame) : Token → Option Assembly
  | .mark c =>
    if c = '[' then some { frames := .array [] :: frames, stage := .firstItem, result := none }
    else if c = '\x7b' then
      some { frames := .object [] [] :: frames, stage := .firstKey, result := none }
    else none
  | .string raw => some (Assembly.finish frames (.string raw))
  | .number n => some (Assembly.finish frames (.number n))
  | .name letters => (named letters).map (Assembly.finish frames)

def Assembly.setKey (frames : List Frame) (raw : List Char) : Option Assembly :=
  match frames with
  | .object fields _ :: outer =>
    some { frames := .object fields raw :: outer, stage := .colon, result := none }
  | _ => none

def Assembly.step (a : Assembly) (t : Token) : Option Assembly :=
  match a.stage, t with
  | .value, t => Assembly.begin a.frames t
  | .firstItem, t =>
    match t with
    | .mark ']' => Assembly.close a.frames ']'
    | t => Assembly.begin a.frames t
  | .firstKey, .mark c => Assembly.close a.frames c
  | .firstKey, .string raw => Assembly.setKey a.frames raw
  | .key, .string raw => Assembly.setKey a.frames raw
  | .colon, .mark ':' => some { a with stage := .value }
  | .next, .mark ',' =>
    match a.frames with
    | .array _ :: _ => some { a with stage := .value }
    | .object _ _ :: _ => some { a with stage := .key }
    | [] => none
  | .next, .mark c => Assembly.close a.frames c
  | _, _ => none

def Written.read (text : String) : Option Written :=
  (tokens text).bind fun ts => (ts.foldlM Assembly.step Assembly.empty).bind Assembly.result

end RankedRetrieval.Json
