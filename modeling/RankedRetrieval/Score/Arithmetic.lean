set_option autoImplicit false

namespace RankedRetrieval

class Arithmetic (α : Type) extends Add α, Sub α, Mul α, Div α, OfScientific α where
  natural : Nat → α
  /-- The number that a setting or a prior gives. -/
  given : Float → α
  ln : α → α
  atMost : α → α → Bool
  /-- The order in which scores rank. -/
  order : α → α → Ordering
  larger : α → α → α
  smaller : α → α → α
  /-- The greatest of several numbers. -/
  greatest : List α → α

namespace Arithmetic

variable {α : Type} [Arithmetic α]

/-- The sum of a list, from the left. -/
def total (xs : List α) : α := xs.foldl (fun sum x => sum + x) 0.0

def isPositiveOrZero (x : α) : Bool := atMost 0.0 x

end Arithmetic

/-- The larger of two doubles; a number is preferred to what is not one, and of two zeros the second
is taken. -/
def largerFloat (x y : Float) : Float := if y.isNaN then x else if y < x then x else y

def smallerFloat (x y : Float) : Float := if y.isNaN then x else if x < y then x else y

/-- The place of a double in the total order of doubles, by its bits. All that is not a number has
the bits of a single double, which comes after the numbers. -/
def floatRank (x : Float) : Nat :=
  let bits := x.toBits.toNat
  if bits < 0x8000000000000000 then bits + 0x8000000000000000 else 0xFFFFFFFFFFFFFFFF - bits

instance : Arithmetic Float where
  natural n := n.toUInt64.toFloat
  given x := x
  ln := Float.log
  atMost x y := x ≤ y
  order x y := compare (floatRank x) (floatRank y)
  larger := largerFloat
  smaller := smallerFloat
  greatest xs := xs.foldl largerFloat (Float.ofBits 0xFFF0000000000000)

structure Bounds (α : Type) where
  lower : α
  upper : α

def Bounds.scale {α : Type} [Arithmetic α] (weight : α) (b : Bounds α) : Bounds α :=
  if Arithmetic.isPositiveOrZero weight then
    { lower := weight * b.lower, upper := weight * b.upper }
  else { lower := weight * b.upper, upper := weight * b.lower }

end RankedRetrieval
