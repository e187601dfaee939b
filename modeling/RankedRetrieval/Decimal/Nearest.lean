set_option autoImplicit false

namespace RankedRetrieval.Decimal

/-- The quotient rounded to the nearest natural number, a tie to the even one. -/
def roundDiv (num den : Nat) : Nat :=
  let q := num / den
  let twice := 2 * (num % den)
  if twice < den then q else if den < twice then q + 1 else q + q % 2

theorem roundDiv_eq_or (num den : Nat) :
    roundDiv num den = num / den ∨ roundDiv num den = num / den + 1 := by
  unfold roundDiv
  dsimp only
  split
  · exact .inl rfl
  · split
    · exact .inr rfl
    · rcases Nat.mod_two_eq_zero_or_one (num / den) with e | e <;> rw [e] <;> simp

theorem roundDiv_error {num den : Nat} (h : 0 < den) :
    2 * num ≤ 2 * (den * roundDiv num den) + den ∧
      2 * (den * roundDiv num den) ≤ 2 * num + den := by
  have split := Nat.div_add_mod num den
  have small := Nat.mod_lt num h
  unfold roundDiv
  generalize num / den = q at *
  generalize num % den = r at *
  dsimp only
  split
  · omega
  · split
    · rw [Nat.mul_add]; omega
    · rcases Nat.mod_two_eq_zero_or_one q with e | e <;> rw [e, Nat.mul_add] <;> omega

/-- The exponent `q` for which `num / den` is about `2 ^ 53 * 2 ^ q`, or the least exponent. -/
def binaryExponent (num den : Nat) : Int :=
  let estimate : Int := (num.log2 : Int) - (den.log2 : Int)
  let below : Bool :=
    if 0 ≤ estimate then num < den <<< estimate.toNat else num <<< (-estimate).toNat < den
  max ((if below then estimate - 1 else estimate) - 52) (-1074)

def nearestBits (num den : Nat) : Nat :=
  if num = 0 then 0
  else
    let q := binaryExponent num den
    let m := if 0 ≤ q then roundDiv num (den <<< q.toNat) else roundDiv (num <<< (-q).toNat) den
    min (((q + 1074).toNat <<< 52) + m) 0x7FF0000000000000

def nearest (num den : Nat) : Float := Float.ofBits (nearestBits num den).toUInt64

/-- The double nearest to `digits * 10 ^ exponent`. Outside the range of the doubles no power of
ten is formed. -/
def nearestScientific (digits : Nat) (exponent : Int) : Float :=
  let magnitude : Int := (Nat.toDigits 10 digits).length + exponent
  if digits = 0 || magnitude < -330 then 0.0
  else if 320 < magnitude then Float.ofBits 0x7FF0000000000000
  else if 0 ≤ exponent then nearest (digits * Nat.pow 10 exponent.toNat) 1
  else nearest digits (Nat.pow 10 (-exponent).toNat)

end RankedRetrieval.Decimal
