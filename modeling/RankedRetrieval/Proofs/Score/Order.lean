import Mathlib
import RankedRetrieval.Score.Arithmetic

set_option autoImplicit false

namespace RankedRetrieval

namespace Arithmetic

variable {α : Type} [Arithmetic α]

/-- What is not a number is not at most itself. -/
def isNumber (x : α) : Bool := atMost x x

/-- A number that ranks with the zero it equals, if it equals zero. -/
def isProper (x : α) : Bool :=
  isNumber x && (!(atMost x 0.0 && atMost 0.0 x) || order x 0.0 == .eq)

end Arithmetic

open Arithmetic

class Comparison (α : Type) [Arithmetic α] : Prop where
  trans : ∀ {x y z : α}, atMost x y → atMost y z → atMost x z
  left : ∀ {x y : α}, atMost x y → isNumber x
  right : ∀ {x y : α}, atMost x y → isNumber y
  ranked : ∀ {x y : α}, isProper x → isProper y → atMost x y → order y x ≠ .lt
  addends : ∀ {x y : α}, isNumber (x + y) → isNumber x ∧ isNumber y

/-- Sums, and products with a weight that is not negative, grow with what they are made of. -/
structure MonotoneArithmetic (α : Type) [Arithmetic α] : Prop where
  add : ∀ {a b c d : α}, atMost a b → atMost c d → isNumber (a + c) → isNumber (b + d) →
    atMost (a + c) (b + d)
  mul : ∀ {w a b : α}, isPositiveOrZero w → atMost a b → isNumber (w * a) → isNumber (w * b) →
    atMost (w * a) (w * b)

section Double

open Float.Model UnpackedFloat

/-- Where a double lies among all doubles, counted from zero; none for what is not a number. -/
def place? : UnpackedFloat → Option Int
  | .notANumber => none
  | .infinity s => some (s.apply (2047 * 2 ^ 52))
  | .zero _ => some 0
  | .finite s m e _ => some (s.apply ((e + 1074) * 2 ^ 52 + m))

/-- A mantissa has 53 digits, or fewer at the least exponent. -/
structure Representable (m : Nat) (e : Int) : Prop where
  least : -1074 ≤ e
  fits : m < 2 ^ 53
  subnormal : m < 2 ^ 52 → e = -1074

def Rounded : UnpackedFloat → Prop
  | .finite _ m e _ => Representable m e
  | _ => True

def Canonical : UnpackedFloat → Prop
  | .finite _ m e _ => Representable m e ∧ e ≤ 971
  | _ => True

theorem Canonical.rounded {x : UnpackedFloat} (h : Canonical x) : Rounded x := by
  cases x with
  | finite s m e pos => exact h.1
  | _ => trivial

theorem compare_places {m m' : Nat} {e e' : Int} (h : Representable m e)
    (h' : Representable m' e') :
    (compare e e').then (compare m m') =
      compare ((e + 1074) * 2 ^ 52 + m) ((e' + 1074) * 2 ^ 52 + m') := by
  obtain ⟨least, fits, subnormal⟩ := h
  obtain ⟨least', fits', subnormal'⟩ := h'
  rcases Int.lt_trichotomy e e' with lt | rfl | gt
  · rw [Int.compare_eq_lt.2 lt, Int.compare_eq_lt.2 (by omega)]
    rfl
  · rw [Int.compare_eq_eq.2 rfl]
    rcases Nat.lt_trichotomy m m' with lt | rfl | gt
    · rw [Nat.compare_eq_lt.2 lt, Int.compare_eq_lt.2 (by omega)]
      rfl
    · rw [Nat.compare_eq_eq.2 rfl, Int.compare_eq_eq.2 rfl]
      rfl
    · rw [Nat.compare_eq_gt.2 gt, Int.compare_eq_gt.2 (by omega)]
      rfl
  · rw [Int.compare_eq_gt.2 gt, Int.compare_eq_gt.2 (by omega)]
    rfl

theorem eq_compare_of_lt {i j : Int} (h : i < j) : some Ordering.lt = some (compare i j) := by
  rw [Int.compare_eq_lt.2 h]

theorem eq_compare_of_gt {i j : Int} (h : j < i) : some Ordering.gt = some (compare i j) := by
  rw [Int.compare_eq_gt.2 h]

theorem compare_neg (i j : Int) : compare (-i) (-j) = compare j i := by
  rcases Int.lt_trichotomy i j with lt | rfl | gt
  · rw [Int.compare_eq_gt.2 lt, Int.compare_eq_gt.2 (by omega)]
  · rw [Int.compare_eq_eq.2 rfl, Int.compare_eq_eq.2 rfl]
  · rw [Int.compare_eq_lt.2 gt, Int.compare_eq_lt.2 (by omega)]

theorem compare_eq {x y : UnpackedFloat} (hx : Canonical x) (hy : Canonical y) {i j : Int}
    (px : place? x = some i) (py : place? y = some j) : x.compare y = some (compare i j) := by
  cases x with
  | notANumber => cases px
  | infinity s =>
    cases px
    cases y with
    | notANumber => cases py
    | infinity s' => cases py; cases s <;> cases s' <;> rfl
    | zero s' => cases py; cases s <;> rfl
    | finite s' m e pos =>
      cases py
      obtain ⟨⟨low, narrow, _⟩, high⟩ := hy
      cases s <;> cases s' <;> simp only [UnpackedFloat.compare, Sign.apply]
      · exact eq_compare_of_lt (by omega)
      · exact eq_compare_of_lt (by omega)
      · exact eq_compare_of_gt (by omega)
      · exact eq_compare_of_gt (by omega)
  | zero s =>
    cases px
    cases y with
    | notANumber => cases py
    | infinity s' => cases py; cases s' <;> rfl
    | zero s' => cases py; rfl
    | finite s' m e pos =>
      cases py
      obtain ⟨⟨low, narrow, _⟩, high⟩ := hy
      cases s' <;> simp only [UnpackedFloat.compare, Sign.apply]
      · exact eq_compare_of_gt (by omega)
      · exact eq_compare_of_lt (by omega)
  | finite s m e pos =>
    cases px
    cases y with
    | notANumber => cases py
    | infinity s' =>
      cases py
      obtain ⟨⟨low, narrow, _⟩, high⟩ := hx
      cases s <;> cases s' <;> simp only [UnpackedFloat.compare, Sign.apply]
      · exact eq_compare_of_gt (by omega)
      · exact eq_compare_of_lt (by omega)
      · exact eq_compare_of_gt (by omega)
      · exact eq_compare_of_lt (by omega)
    | zero s' =>
      cases py
      obtain ⟨⟨low, narrow, _⟩, high⟩ := hx
      cases s <;> simp only [UnpackedFloat.compare, Sign.apply]
      · exact eq_compare_of_lt (by omega)
      · exact eq_compare_of_gt (by omega)
    | finite s' m' e' pos' =>
      cases py
      -- of two signs the order is plain, and of one it is that of the magnitudes
      have places := compare_places hx.1 hy.1
      have low := hx.1.least
      have low' := hy.1.least
      cases s <;> cases s' <;> simp only [UnpackedFloat.compare, Sign.apply]
      · rw [places, Int.compare_swap, compare_neg]
      · exact eq_compare_of_lt (by omega)
      · exact eq_compare_of_gt (by omega)
      · rw [places]

theorem toNat_unpackExponent (b : BitVec 64) :
    (@unpackExponent Format.binary64 b).toNat = b.toNat / 2 ^ 52 % 2 ^ 11 := by
  simp [unpackExponent, BitVec.extractLsb, Nat.shiftRight_eq_div_pow]

theorem toNat_unpackMantissa (b : BitVec 64) :
    (@unpackMantissa Format.binary64 b).toNat = b.toNat % 2 ^ 52 := by
  simp [unpackMantissa, BitVec.extractLsb, Nat.shiftRight_eq_div_pow]

theorem toNat_unpackSign (b : BitVec 64) :
    (@unpackSign Format.binary64 b).toNat = b.toNat / 2 ^ 63 := by
  have := b.isLt
  simp [unpackSign, BitVec.extractLsb, Nat.shiftRight_eq_div_pow]
  omega

theorem apply_unpackSign (b : BitVec 64) (i : Int) :
    (Sign.ofBitVec (@unpackSign Format.binary64 b)).apply i =
      if b.toNat < 2 ^ 63 then i else -i := by
  have sign := toNat_unpackSign b
  have bound := b.isLt
  have positive : @unpackSign Format.binary64 b = 0#1 ↔ b.toNat < 2 ^ 63 := by
    rw [← BitVec.toNat_inj, sign, BitVec.toNat_zero]
    omega
  unfold Sign.ofBitVec
  simp only [positive]
  split <;> rfl

theorem unpackExponent_eq_largest_iff (b : BitVec 64) :
    @unpackExponent Format.binary64 b = -1#11 ↔ b.toNat / 2 ^ 52 % 2 ^ 11 = 2047 := by
  rw [← BitVec.toNat_inj, toNat_unpackExponent]
  rfl

theorem unpackExponent_eq_zero_iff (b : BitVec 64) :
    @unpackExponent Format.binary64 b = 0#11 ↔ b.toNat / 2 ^ 52 % 2 ^ 11 = 0 := by
  rw [← BitVec.toNat_inj, toNat_unpackExponent]
  rfl

theorem unpackMantissa_eq_zero_iff (b : BitVec 64) :
    @unpackMantissa Format.binary64 b = 0#52 ↔ b.toNat % 2 ^ 52 = 0 := by
  rw [← BitVec.toNat_inj, toNat_unpackMantissa]
  rfl

theorem toNat_implicit_append (b : BitVec 64) :
    (1#1 ++ @unpackMantissa Format.binary64 b).toNat = 2 ^ 52 + b.toNat % 2 ^ 52 := by
  have narrow : b.toNat % 2 ^ 52 < 2 ^ 52 := Nat.mod_lt _ (by decide)
  rw [BitVec.toNat_append, toNat_unpackMantissa, Nat.shiftLeft_eq]
  exact (Nat.two_pow_add_eq_or_of_lt narrow 1).symm

/-- The bits of a double count its places from zero, apart from the sign. -/
theorem unpack_eq (b : BitVec 64) :
    Canonical (UnpackedFloat.unpack Format.binary64 b) ∧
      place? (UnpackedFloat.unpack Format.binary64 b) =
        if 2047 * 2 ^ 52 < b.toNat % 2 ^ 63 then none
        else some (if b.toNat < 2 ^ 63 then (b.toNat % 2 ^ 63 : Int) else -(b.toNat % 2 ^ 63)) := by
  have exponent := toNat_unpackExponent b
  have mantissa := toNat_unpackMantissa b
  have implicit := toNat_implicit_append b
  have sign := apply_unpackSign b
  have largest := unpackExponent_eq_largest_iff b
  have least := unpackExponent_eq_zero_iff b
  have empty := unpackMantissa_eq_zero_iff b
  unfold UnpackedFloat.unpack
  have bias : (Format.binary64.exponentBias : Int) = 1023 := rfl
  simp only [largest, least, empty, exponent, mantissa, implicit, bias]
  split
  · split
    · have place : (2047 * 2 ^ 52 : Int) = b.toNat % 2 ^ 63 := by omega
      refine ⟨trivial, ?_⟩
      rw [place?, place, sign, if_neg (c := 2047 * 2 ^ 52 < b.toNat % 2 ^ 63) (by omega)]
    · refine ⟨trivial, ?_⟩
      rw [place?, if_pos (by omega)]
  · split
    · split
      · have place : (b.toNat % 2 ^ 63 : Int) = 0 := by omega
        refine ⟨trivial, ?_⟩
        rw [place?, place, if_neg (by omega)]
        simp
      · refine ⟨⟨⟨by omega, by omega, by omega⟩, by omega⟩, ?_⟩
        rw [place?, sign, if_neg (c := 2047 * 2 ^ 52 < b.toNat % 2 ^ 63) (by omega)]
        have place : ((b.toNat / 2 ^ 52 % 2 ^ 11 : Nat) - (1023 + (52 : Nat)) + 1 + 1074 : Int) *
            2 ^ 52 + (b.toNat % 2 ^ 52 : Nat) = b.toNat % 2 ^ 63 := by omega
        rw [place]
    · refine ⟨⟨⟨by omega, by omega, by omega⟩, by omega⟩, ?_⟩
      rw [place?, sign, if_neg (c := 2047 * 2 ^ 52 < b.toNat % 2 ^ 63) (by omega)]
      have place : ((b.toNat / 2 ^ 52 % 2 ^ 11 : Nat) - (1023 + (52 : Nat)) + 1074 : Int) * 2 ^ 52 +
          (2 ^ 52 + b.toNat % 2 ^ 52 : Nat) = b.toNat % 2 ^ 63 := by omega
      rw [place]

def placeOf (x : Float) : Option Int := place? x.toModel.unpack

theorem placeOf_eq (x : Float) :
    placeOf x =
      if 2047 * 2 ^ 52 < x.toBits.toNat % 2 ^ 63 then none
      else some (if x.toBits.toNat < 2 ^ 63 then (x.toBits.toNat % 2 ^ 63 : Int)
        else -(x.toBits.toNat % 2 ^ 63)) :=
  (unpack_eq x.toModel.toBits.toBitVec).2

theorem atMost_eq (x y : Float) :
    atMost x y = (x.toModel.unpack.compare y.toModel.unpack).any (·.isLE) := by
  have le : x ≤ y ↔ x.toModel.unpack.le y.toModel.unpack = true := decide_eq_true_iff
  rw [Bool.eq_iff_iff]
  exact decide_eq_true_iff.trans le

theorem eq_notANumber_of_place? {x : UnpackedFloat} (h : place? x = none) : x = .notANumber := by
  cases x with
  | notANumber => rfl
  | _ => cases h

theorem compare_notANumber (x : UnpackedFloat) : x.compare .notANumber = none := by
  cases x <;> rfl

theorem compare_unpack (x y : Float) :
    x.toModel.unpack.compare y.toModel.unpack =
      (placeOf x).bind fun i => (placeOf y).map (compare i) := by
  cases px : placeOf x with
  | none =>
    rw [eq_notANumber_of_place? px]
    rfl
  | some i =>
    cases py : placeOf y with
    | none =>
      rw [eq_notANumber_of_place? py]
      exact compare_notANumber _
    | some j => exact compare_eq (unpack_eq _).1 (unpack_eq _).1 px py

theorem atMost_iff {x y : Float} :
    atMost x y = true ↔ ∃ i j, placeOf x = some i ∧ placeOf y = some j ∧ i ≤ j := by
  rw [atMost_eq, compare_unpack]
  cases placeOf x with
  | none => simp
  | some i => cases placeOf y <;> simp [Int.isLE_compare]

theorem isNumber_iff {x : Float} : isNumber x = true ↔ ∃ i, placeOf x = some i := by
  rw [isNumber, atMost_iff]
  constructor
  · rintro ⟨i, _, here, _, _⟩
    exact ⟨i, here⟩
  · rintro ⟨i, here⟩
    exact ⟨i, i, here, here, Int.le_refl i⟩

theorem lt_iff {x y : Float} :
    x < y ↔ ∃ i j, placeOf x = some i ∧ placeOf y = some j ∧ i < j := by
  have lt : x < y ↔ x.toModel.unpack.lt y.toModel.unpack = true := decide_eq_true_iff
  rw [lt, UnpackedFloat.lt, beq_iff_eq, compare_unpack]
  cases placeOf x with
  | none => simp
  | some i => cases placeOf y <;> simp [Int.compare_eq_lt]

theorem atMost_of_not_lt {x y : Float} (above : ¬ y < x) (number : isNumber x = true)
    (number' : isNumber y = true) : atMost x y = true := by
  obtain ⟨i, here⟩ := isNumber_iff.1 number
  obtain ⟨j, there⟩ := isNumber_iff.1 number'
  refine atMost_iff.2 ⟨i, j, here, there, Int.not_lt.1 fun lt => above ?_⟩
  exact lt_iff.2 ⟨j, i, there, here, lt⟩

theorem placeOf_zero : placeOf 0.0 = some 0 := by decide +kernel

theorem floatRank_zero : floatRank 0.0 = 2 ^ 63 := by decide +kernel

/-- The rank of a proper double follows its place. -/
theorem floatRank_eq {x : Float} (proper : isProper x = true) {i : Int}
    (here : placeOf x = some i) :
    (floatRank x : Int) = if 0 ≤ i then 2 ^ 63 + i else 2 ^ 63 - 1 + i := by
  have bits := placeOf_eq x
  have bound := x.toBits.toNat_lt
  rw [here] at bits
  have zero : i = 0 → floatRank x = 2 ^ 63 := by
    rintro rfl
    have below : atMost x 0.0 = true := atMost_iff.2 ⟨0, 0, here, placeOf_zero, Int.le_refl 0⟩
    have above : atMost 0.0 x = true := atMost_iff.2 ⟨0, 0, placeOf_zero, here, Int.le_refl 0⟩
    rw [isProper, below, above] at proper
    have same : order x 0.0 = .eq := by simpa using (Bool.and_eq_true_iff.1 proper).2
    rw [← floatRank_zero]
    exact Nat.compare_eq_eq.1 same
  split at bits
  · cases bits
  · have place := Option.some.inj bits
    unfold floatRank at zero ⊢
    dsimp only at zero ⊢
    split at place
    · rw [if_pos (by assumption), if_pos (by omega)]
      omega
    · by_cases none : i = 0
      · rw [zero none, none]
        rfl
      · rw [if_neg (by assumption), if_neg (by omega)]
        omega

theorem isNaN_eq (x : Float) : x.isNaN = !isNumber x := by
  have number := isNumber_iff (x := x)
  change x.toModel.unpack.isNaN = _
  unfold placeOf at number
  cases model : x.toModel.unpack with
  | notANumber =>
    rw [model] at number
    have : isNumber x = false := Bool.eq_false_iff.2 fun yes => by
      obtain ⟨i, there⟩ := number.1 yes
      cases there
    rw [this]
    rfl
  | _ =>
    rw [model] at number
    rw [number.2 ⟨_, rfl⟩]
    rfl

theorem eq_of_toBits {x y : Float} (h : x.toBits.toNat = y.toBits.toNat) : x = y := by
  obtain ⟨⟨bits, valid⟩⟩ := x
  obtain ⟨⟨bits', valid'⟩⟩ := y
  obtain rfl : bits = bits' := UInt64.toNat_inj.1 h
  rfl

theorem eq_zero_of_placeOf {x : Float} (here : placeOf x = some 0) (nonzero : x ≠ -0.0) :
    x = 0.0 := by
  have positive : (0.0 : Float).toBits.toNat = 0 := by decide +kernel
  have negative : (-0.0 : Float).toBits.toNat = 2 ^ 63 := by decide +kernel
  have apart : x.toBits.toNat ≠ 2 ^ 63 := fun sign =>
    nonzero (eq_of_toBits (sign.trans negative.symm))
  have bits := placeOf_eq x
  have bound := x.toBits.toNat_lt
  rw [here] at bits
  refine eq_of_toBits ?_
  rw [positive]
  split at bits
  · cases bits
  · have := Option.some.inj bits
    split at this <;> omega

theorem placeOf_of_atMost_zero {x : Float} (below : atMost x 0.0 = true)
    (above : atMost 0.0 x = true) : placeOf x = some 0 := by
  obtain ⟨i, j, here, zero, le⟩ := atMost_iff.1 below
  obtain ⟨j', i', zero', here', le'⟩ := atMost_iff.1 above
  obtain rfl := Option.some.inj (placeOf_zero.symm.trans zero)
  obtain rfl := Option.some.inj (placeOf_zero.symm.trans zero')
  obtain rfl := Option.some.inj (here.symm.trans here')
  rw [here, Int.le_antisymm le le']

theorem isProper_iff {x : Float} : isProper x = true ↔ x.isNaN = false ∧ x ≠ -0.0 := by
  rw [isNaN_eq]
  constructor
  · intro proper
    refine ⟨?_, ?_⟩
    · rw [(Bool.and_eq_true_iff.1 proper).1]
      rfl
    · rintro rfl
      exact absurd proper (by decide +kernel)
  · rintro ⟨number, nonzero⟩
    rw [Bool.not_eq_false'] at number
    refine Bool.and_eq_true_iff.2 ⟨number, ?_⟩
    cases zero : atMost x 0.0 && atMost 0.0 x with
    | false => rfl
    | true =>
      obtain ⟨below, above⟩ := Bool.and_eq_true_iff.1 zero
      rw [eq_zero_of_placeOf (placeOf_of_atMost_zero below above) nonzero]
      decide +kernel

theorem unpack_pack_notANumber :
    (Float.Model.pack .notANumber).unpack = .notANumber :=
  eq_notANumber_of_place? (by decide +kernel)

/-- An operation that makes no number of what is not one. -/
theorem isNumber_of_operation {operation : UnpackedFloat → UnpackedFloat → UnpackedFloat}
    (left : ∀ y, operation .notANumber y = .notANumber)
    (right : ∀ x, operation x .notANumber = .notANumber) {x y : Float}
    (h : ∃ i, place? (Float.Model.pack
      (operation x.toModel.unpack y.toModel.unpack)).unpack = some i) :
    isNumber x = true ∧ isNumber y = true := by
  obtain ⟨i, there⟩ := h
  constructor
  · refine isNumber_iff.2 (Option.isSome_iff_exists.1 (Option.isSome_iff_ne_none.2 fun none => ?_))
    rw [eq_notANumber_of_place? none, left, unpack_pack_notANumber] at there
    cases there
  · refine isNumber_iff.2 (Option.isSome_iff_exists.1 (Option.isSome_iff_ne_none.2 fun none => ?_))
    rw [eq_notANumber_of_place? none, right, unpack_pack_notANumber] at there
    cases there

theorem isNumber_of_add {x y : Float} (h : isNumber (x + y) = true) :
    isNumber x = true ∧ isNumber y = true :=
  isNumber_of_operation (fun _ => rfl) (fun x => by cases x <;> rfl) (isNumber_iff.1 h)

theorem isNumber_of_mul {x y : Float} (h : isNumber (x * y) = true) :
    isNumber x = true ∧ isNumber y = true :=
  isNumber_of_operation (fun _ => rfl) (fun x => by cases x <;> rfl) (isNumber_iff.1 h)

instance : Comparison Float where
  trans := by
    intro x y z h h'
    obtain ⟨i, j, hi, hj, le⟩ := atMost_iff.1 h
    obtain ⟨j', k, hj', hk, le'⟩ := atMost_iff.1 h'
    obtain rfl : j = j' := Option.some.inj (hj.symm.trans hj')
    exact atMost_iff.2 ⟨i, k, hi, hk, Int.le_trans le le'⟩
  left := by
    intro x y h
    obtain ⟨i, _, hi, _, _⟩ := atMost_iff.1 h
    exact isNumber_iff.2 ⟨i, hi⟩
  right := by
    intro x y h
    obtain ⟨_, j, _, hj, _⟩ := atMost_iff.1 h
    exact isNumber_iff.2 ⟨j, hj⟩
  ranked := by
    intro x y px py h
    obtain ⟨i, j, hi, hj, le⟩ := atMost_iff.1 h
    have rx := floatRank_eq px hi
    have ry := floatRank_eq py hj
    refine Nat.compare_ne_lt.2 ?_
    split at rx <;> split at ry <;> omega
  addends := isNumber_of_add

end Double

end RankedRetrieval
