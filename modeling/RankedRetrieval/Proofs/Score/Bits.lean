import RankedRetrieval.Proofs.Score.Order

set_option autoImplicit false

namespace RankedRetrieval

open Arithmetic

def bitsRank (bits : Nat) : Nat :=
  if bits < 0x8000000000000000 then bits + 0x8000000000000000 else 0xFFFFFFFFFFFFFFFF - bits

theorem floatRank_eq_bitsRank (x : Float) : floatRank x = bitsRank x.toBits.toNat := rfl

theorem bitsRank_inj {x y : UInt64} (h : bitsRank x.toNat = bitsRank y.toNat) : x = y := by
  have := x.toNat_lt
  have := y.toNat_lt
  refine UInt64.toNat_inj.1 ?_
  unfold bitsRank at h
  split at h <;> split at h <;> omega

/-- A double as it is stored. Many of them are not a number. -/
structure RawDouble where
  bits : UInt64
  deriving DecidableEq

namespace RawDouble

def ofFloat (x : Float) : RawDouble := { bits := x.toBits }

def toFloat (x : RawDouble) : Float := Float.ofBits x.bits

def rank (x : RawDouble) : Nat := bitsRank x.bits.toNat

def larger (x y : RawDouble) : RawDouble :=
  if y.toFloat.isNaN then x else if y.toFloat < x.toFloat then x else y

def smaller (x y : RawDouble) : RawDouble :=
  if y.toFloat.isNaN then x else if x.toFloat < y.toFloat then x else y

instance : Arithmetic RawDouble where
  add x y := ofFloat (x.toFloat + y.toFloat)
  sub x y := ofFloat (x.toFloat - y.toFloat)
  mul x y := ofFloat (x.toFloat * y.toFloat)
  div x y := ofFloat (x.toFloat / y.toFloat)
  ofScientific m negative e := ofFloat (OfScientific.ofScientific m negative e)
  natural n := ofFloat (natural n)
  given := ofFloat
  ln x := ofFloat (ln x.toFloat)
  atMost x y := atMost x.toFloat y.toFloat
  order x y := compare x.rank y.rank
  larger := larger
  smaller := smaller
  greatest xs := xs.foldl larger { bits := 0xFFF0000000000000 }

instance : Std.TransCmp (order (α := RawDouble)) := inferInstanceAs (Std.TransCmp (compareOn rank))

instance : Std.LawfulEqCmp (order (α := RawDouble)) where
  eq_of_compare {x y} h := by
    have same := bitsRank_inj (Nat.compare_eq_eq.1 h)
    obtain ⟨bits⟩ := x
    exact congrArg RawDouble.mk same

end RawDouble

instance : Std.LawfulEqCmp (order (α := Float)) where
  compare_self := Nat.compare_eq_eq.2 rfl
  eq_of_compare {x y} h := by
    have same : floatRank x = floatRank y := Nat.compare_eq_eq.1 h
    rw [floatRank_eq_bitsRank, floatRank_eq_bitsRank] at same
    exact eq_of_toBits (congrArg UInt64.toNat (bitsRank_inj same))

end RankedRetrieval
