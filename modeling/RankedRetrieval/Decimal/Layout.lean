import RankedRetrieval.Decimal.Shortest

set_option autoImplicit false

namespace RankedRetrieval.Decimal

/-- The exponents of the leading digit, from `least` to below `limit`, that are written without a
power of ten. -/
structure Layout where
  least : Int
  limit : Int

def zeros (n : Nat) : String := String.ofList (List.replicate n '0')

def withPoint (digits : List Char) (exponent : Int) : String :=
  let point : Int := digits.length + exponent
  if 0 ≤ exponent then String.ofList digits ++ zeros exponent.toNat ++ ".0"
  else if 0 < point then
    String.ofList (digits.take point.toNat) ++ "." ++ String.ofList (digits.drop point.toNat)
  else "0." ++ zeros (-point).toNat ++ String.ofList digits

def withPower (digits : List Char) (lead : Int) : String :=
  let head := String.ofList (digits.take 1)
  let tail := if digits.length ≤ 1 then "" else "." ++ String.ofList (digits.drop 1)
  let sign := if 0 ≤ lead then "+" else "-"
  head ++ tail ++ "e" ++ sign ++ toString lead.natAbs

def Layout.digits (layout : Layout) (d : Digits) : String :=
  let text := Nat.toDigits 10 d.digits
  let lead : Int := text.length + d.exponent - 1
  if layout.least ≤ lead && lead < layout.limit then withPoint text d.exponent
  else withPower text lead

def Layout.render (layout : Layout) (x : Float) : String :=
  let bits := x.toBits.toNat
  let magnitude := bits % 0x8000000000000000
  let sign := if bits < 0x8000000000000000 then "" else "-"
  sign ++ (if magnitude = 0 then "0.0" else layout.digits (shortest magnitude))

end RankedRetrieval.Decimal
