import RankedRetrieval.Decimal.Nearest

set_option autoImplicit false

namespace RankedRetrieval.Decimal

structure Literal where
  whole : List Char
  fraction : List Char
  power : Int

def digitsValue (digits : List Char) : Nat :=
  digits.foldl (fun value c => 10 * value + (c.toNat - '0'.toNat)) 0

def splitSign : List Char → Bool × List Char
  | '-' :: rest => (true, rest)
  | '+' :: rest => (false, rest)
  | text => (false, text)

def readPower : List Char → Option Int
  | [] => some 0
  | c :: rest =>
    if c = 'e' || c = 'E' then
      let (negative, digits) := splitSign rest
      if digits.isEmpty || !digits.all Char.isDigit then none
      else some (if negative then -(digitsValue digits : Int) else digitsValue digits)
    else none

def readLiteral (text : List Char) : Option Literal :=
  let whole := text.takeWhile Char.isDigit
  let (fraction, rest) :=
    match text.dropWhile Char.isDigit with
    | '.' :: rest => (rest.takeWhile Char.isDigit, rest.dropWhile Char.isDigit)
    | rest => ([], rest)
  if whole.isEmpty && fraction.isEmpty then none
  else (readPower rest).map fun power => { whole, fraction, power }

def Literal.value (l : Literal) : Float :=
  nearestScientific (digitsValue (l.whole ++ l.fraction)) (l.power - l.fraction.length)

def infinity : Float := Float.ofBits 0x7FF0000000000000

def notANumber : Float := Float.ofBits 0x7FF8000000000000

def named (text : List Char) : Option Float :=
  match String.ofList (text.map Char.toLower) with
  | "inf" | "infinity" => some infinity
  | "nan" => some notANumber
  | _ => none

def readFloat (text : String) : Option Float :=
  let (negative, rest) := splitSign text.toList
  let magnitude := named rest <|> (readLiteral rest).map Literal.value
  magnitude.map fun x => if negative then -x else x

def largestWord : Nat := 0xFFFFFFFFFFFFFFFF

def readNat (text : String) : Option Nat :=
  let digits :=
    match text.toList with
    | '+' :: rest => rest
    | digits => digits
  if digits.isEmpty || !digits.all Char.isDigit then none
  else if digitsValue digits ≤ largestWord then some (digitsValue digits) else none

def readBool : String → Option Bool
  | "true" => some true
  | "false" => some false
  | _ => none

end RankedRetrieval.Decimal
