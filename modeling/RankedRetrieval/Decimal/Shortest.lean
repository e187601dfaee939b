import RankedRetrieval.Decimal.Nearest

set_option autoImplicit false

namespace RankedRetrieval.Decimal

structure Digits where
  digits : Nat
  exponent : Int
  deriving DecidableEq

/-- A positive finite double `m * 2 ^ q`, scaled to `value / den`, with the ends of the interval of
reals that round to it. The ends belong to the interval when `closed` holds. -/
structure Interval where
  low : Nat
  value : Nat
  high : Nat
  den : Nat
  closed : Bool

/-- The interval of a positive finite double, from its bits. Below a power of two the doubles lie
twice as dense, so the lower end comes closer there. -/
def Interval.ofBits (bits : Nat) : Interval :=
  let field := (bits >>> 52) % 0x800
  let fraction := bits % 0x10000000000000
  let m := if field = 0 then fraction else fraction + 0x10000000000000
  let q : Int := ((max field 1 : Nat) : Int) - 1075
  let dense := fraction = 0 && 1 < field
  let up := if 0 ≤ q then 1 <<< q.toNat else 1
  let den := 4 * (if 0 ≤ q then 1 else 1 <<< (-q).toNat)
  { low := (4 * m - (if dense then 1 else 2)) * up
    value := 4 * m * up
    high := (4 * m + 2) * up
    den
    closed := m % 2 = 0 }

def Interval.holds (i : Interval) (d : Nat) (g : Int) : Bool :=
  let point := if 0 ≤ g then d * Nat.pow 10 g.toNat * i.den else d * i.den
  let scale := if 0 ≤ g then 1 else Nat.pow 10 (-g).toNat
  if i.closed then i.low * scale ≤ point && point ≤ i.high * scale
  else i.low * scale < point && point < i.high * scale

/-- The neighbour of the value on the grid of `10 ^ g` that lies in the interval: the nearer of
two, the even one of two equally near. -/
def Interval.onGrid (i : Interval) (g : Int) : Option Nat :=
  let num := if 0 ≤ g then i.value else i.value * Nat.pow 10 (-g).toNat
  let den := if 0 ≤ g then i.den * Nat.pow 10 g.toNat else i.den
  let d := num / den
  match i.holds d g, i.holds (d + 1) g with
  | false, false => none
  | true, false => some d
  | false, true => some (d + 1)
  | true, true => some (roundDiv num den)

theorem Interval.holds_of_onGrid {i : Interval} {g : Int} {d : Nat} (h : i.onGrid g = some d) :
    i.holds d g = true := by
  simp only [Interval.onGrid] at h
  split at h
  · simp at h
  · simp_all
  · simp_all
  · rename_i a b
    rw [Option.some.injEq] at h
    subst h
    rcases roundDiv_eq_or (if 0 ≤ g then i.value else i.value * Nat.pow 10 (-g).toNat)
      (if 0 ≤ g then i.den * Nat.pow 10 g.toNat else i.den) with e | e <;> rw [e] <;> assumption

def Interval.search (i : Interval) : Nat → Int → Digits
  | 0, g => { digits := 0, exponent := g }
  | fuel + 1, g =>
    match i.onGrid g with
    | some d => { digits := d, exponent := g }
    | none => i.search fuel (g - 1)

theorem Interval.search_holds (i : Interval) (fuel : Nat) (g : Int) :
    (i.search fuel g).digits = 0 ∨
      i.holds (i.search fuel g).digits (i.search fuel g).exponent = true := by
  induction fuel generalizing g with
  | zero => exact .inl rfl
  | succ fuel ih =>
    simp only [Interval.search]
    split
    · exact .inr (Interval.holds_of_onGrid ‹_›)
    · exact ih (g - 1)

def Interval.coarse (i : Interval) : Int :=
  if i.den ≤ i.value then (Nat.toDigits 10 (i.value / i.den)).length
  else 2 - ((Nat.toDigits 10 (i.den / i.value)).length : Int)

/-- The fewest digits that read back as the positive finite double with these bits. Seventeen
digits always do. -/
def shortest (bits : Nat) : Digits :=
  let i := Interval.ofBits bits
  i.search 20 i.coarse

end RankedRetrieval.Decimal
