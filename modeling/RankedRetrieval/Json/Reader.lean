import RankedRetrieval.Json.Written

set_option autoImplicit false

namespace RankedRetrieval.Json

def hexValue (c : Char) : Option Nat :=
  if c.isDigit then some (c.toNat - 48)
  else if 'a' ≤ c && c ≤ 'f' then some (c.toNat - 87)
  else if 'A' ≤ c && c ≤ 'F' then some (c.toNat - 55)
  else none

def hex4 (a b c d : Char) : Option Nat := do
  return (((← hexValue a) * 16 + (← hexValue b)) * 16 + (← hexValue c)) * 16 + (← hexValue d)

def simpleEscape (c : Char) : Option Char :=
  match c with
  | '"' => some '"'
  | '\\' => some '\\'
  | '/' => some '/'
  | 'b' => some (Char.ofNat 8)
  | 'f' => some (Char.ofNat 12)
  | 'n' => some '\n'
  | 'r' => some '\r'
  | 't' => some '\t'
  | _ => none

def isHighSurrogate (n : Nat) : Bool := 0xD800 ≤ n && n ≤ 0xDBFF

def isLowSurrogate (n : Nat) : Bool := 0xDC00 ≤ n && n ≤ 0xDFFF

def joinSurrogates (high low : Nat) : Char :=
  Char.ofNat (0x10000 + (high - 0xD800) * 0x400 + (low - 0xDC00))

/-- The text of a string, last character first. `high` is the first half of a surrogate pair whose
second half must follow at once. -/
def decodeFrom (done : List Char) (high : Option Nat) : List Char → Option (List Char)
  | [] => if high.isSome then none else some done
  | '\\' :: 'u' :: a :: b :: c :: d :: rest =>
    (hex4 a b c d).bind fun n =>
      match high with
      | some h =>
        if isLowSurrogate n then decodeFrom (joinSurrogates h n :: done) none rest else none
      | none =>
        if isHighSurrogate n then decodeFrom done (some n) rest
        else if isLowSurrogate n then none
        else decodeFrom (Char.ofNat n :: done) none rest
  | '\\' :: c :: rest =>
    if high.isSome then none
    else (simpleEscape c).bind fun e => decodeFrom (e :: done) none rest
  | c :: rest => if high.isSome || c = '\\' then none else decodeFrom (c :: done) none rest

def decodeString (raw : List Char) : Option String :=
  (decodeFrom [] none raw).map fun done => String.ofList done.reverse

def wellEscaped : List Char → Bool
  | [] => true
  | '\\' :: 'u' :: a :: b :: c :: d :: rest => (hex4 a b c d).isSome && wellEscaped rest
  | '\\' :: c :: rest => (simpleEscape c).isSome && wellEscaped rest
  | c :: rest => c ≠ '\\' && wellEscaped rest

structure Scaled where
  significand : Nat
  exponent : Int
  full : Bool

def Scaled.wholeDigit (s : Scaled) (c : Char) : Scaled :=
  let next := s.significand * 10 + (c.toNat - 48)
  if s.full || Decimal.largestWord < next then { s with exponent := s.exponent + 1, full := true }
  else { s with significand := next }

def Scaled.fractionDigit (s : Scaled) (c : Char) : Scaled :=
  let next := s.significand * 10 + (c.toNat - 48)
  if s.full || Decimal.largestWord < next then { s with full := true }
  else { s with significand := next, exponent := s.exponent - 1 }

def Numeral.scaled (n : Numeral) : Scaled :=
  let whole := n.whole.foldl Scaled.wholeDigit { significand := 0, exponent := 0, full := false }
  n.fraction.foldl Scaled.fractionDigit { whole with full := false }

def Numeral.exponent (n : Numeral) : Int :=
  match n.power with
  | none => 0
  | some (negative, digits) =>
    let value : Int := Decimal.digitsValue digits
    if negative then -value else value

def powerOfTen (n : Nat) : Float := Decimal.nearest (Nat.pow 10 n) 1

/-- The significand times a power of ten, rounded at each step; none if too large for a double.
Beyond the powers that are doubles, a division by the largest of them comes first. -/
def scale (significand : Nat) (exponent : Int) : Option Float :=
  let x := significand.toUInt64.toFloat
  if significand = 0 then some x
  else if 308 < exponent then none
  else if 0 ≤ exponent then
    let y := x * powerOfTen exponent.toNat
    if y.isInf then none else some y
  else if -308 ≤ exponent then some (x / powerOfTen (-exponent).toNat)
  else if -616 ≤ exponent then some (x / powerOfTen 308 / powerOfTen (-exponent - 308).toNat)
  else some 0.0

def Numeral.toFloat (n : Numeral) : Option Float :=
  let s := n.scaled
  (scale s.significand (s.exponent + n.exponent)).map fun x => if n.negative then -x else x

def Numeral.isWhole (n : Numeral) : Bool := n.fraction.isEmpty && n.power.isNone

/-- A number written as a whole number is one, if it is a word with or without sign. A negative
zero is a double. -/
def Numeral.value (n : Numeral) : Option Number :=
  let magnitude := Decimal.digitsValue n.whole
  if n.isWhole && !n.negative && magnitude ≤ Decimal.largestWord then some (.int magnitude)
  else if n.isWhole && n.negative && 0 < magnitude && magnitude ≤ 0x8000000000000000 then
    some (.int (-magnitude))
  else n.toFloat.map .real

mutual

def Written.value (depth : Nat) : Written → Option Json
  | .null => some .null
  | .bool b => some (.bool b)
  | .number n => n.value.map .number
  | .string raw => (decodeString raw).map .string
  | .array items =>
    if depth ≤ 1 then none else (Written.items (depth - 1) items).map .array
  | .object fields =>
    if depth ≤ 1 then none
    else (Written.fields (depth - 1) fields).map fun all => .object (Fields.ofList all)

def Written.items (depth : Nat) : List Written → Option (List Json)
  | [] => some []
  | item :: rest => do return (← Written.value depth item) :: (← Written.items depth rest)

def Written.fields (depth : Nat) : List (List Char × Written) → Option (List (String × Json))
  | [] => some []
  | (key, value) :: rest => do
    return (← decodeString key, ← Written.value depth value) :: (← Written.fields depth rest)

end

mutual

def Written.wellFormed : Written → Bool
  | .string raw => wellEscaped raw
  | .array items => Written.allWellFormed items
  | .object fields => Written.fieldsWellFormed fields
  | _ => true

def Written.allWellFormed : List Written → Bool
  | [] => true
  | item :: rest => item.wellFormed && Written.allWellFormed rest

def Written.fieldsWellFormed : List (List Char × Written) → Bool
  | [] => true
  | (key, value) :: rest =>
    wellEscaped key && value.wellFormed && Written.fieldsWellFormed rest

end

/-- One more than the number of arrays and objects that may be open at once. -/
def depthLimit : Nat := 128

def parse (text : String) : Option Json := (Written.read text).bind (Written.value depthLimit)

end RankedRetrieval.Json
