import Mathlib
import RankedRetrieval.Score.Arithmetic

set_option autoImplicit false

namespace RankedRetrieval

open Arithmetic

variable {α : Type} [Arithmetic α]

inductive Expression (α : Type) where
  | value (x : α)
  | sum (terms : List (Expression α))
  | greatest (terms : List (Expression α))
  | times (weight : α) (term : Expression α)
  | log (term : Expression α)

namespace Expression

mutual

def eval : Expression α → α
  | value x => x
  | sum terms => total (evalAll terms)
  | greatest terms => Arithmetic.greatest (evalAll terms)
  | times weight term => weight * term.eval
  | log term => ln term.eval

def evalAll : List (Expression α) → List α
  | [] => []
  | term :: rest => term.eval :: evalAll rest

end

theorem evalAll_eq_map (terms : List (Expression α)) : evalAll terms = terms.map eval := by
  induction terms with
  | nil => rfl
  | cons term rest ih => rw [evalAll, ih, List.map_cons]

end Expression

def unitWeight (α : Type) [Arithmetic α] : α := given 1.0

open Expression in
/-- The second expression is the first with sums that are terms of sums opened. -/
inductive Regrouped : Expression α → Expression α → Prop
  | refl (e : Expression α) : Regrouped e e
  | trans {e e' e'' : Expression α} (first : Regrouped e e') (second : Regrouped e' e'') :
      Regrouped e e''
  | opened (before inner after : List (Expression α)) :
      Regrouped (.sum (before ++ .times (unitWeight α) (.sum inner) :: after))
        (.sum (before ++ inner ++ after))
  | sum (before after : List (Expression α)) {e e' : Expression α} (there : Regrouped e e') :
      Regrouped (.sum (before ++ e :: after)) (.sum (before ++ e' :: after))
  | greatest (before after : List (Expression α)) {e e' : Expression α} (there : Regrouped e e') :
      Regrouped (.greatest (before ++ e :: after)) (.greatest (before ++ e' :: after))
  | times (weight : α) {e e' : Expression α} (there : Regrouped e e') :
      Regrouped (.times weight e) (.times weight e')
  | log {e e' : Expression α} (there : Regrouped e e') : Regrouped (.log e) (.log e')

namespace Regrouped

theorem throughout {around : List (Expression α) → Expression α}
    (one : ∀ before after {e e' : Expression α}, Regrouped e e' →
      Regrouped (around (before ++ e :: after)) (around (before ++ e' :: after)))
    {terms terms' : List (Expression α)} (each : List.Forall₂ Regrouped terms terms') :
    Regrouped (around terms) (around terms') := by
  suffices ∀ before, Regrouped (around (before ++ terms)) (around (before ++ terms')) from this []
  induction each with
  | nil => exact fun before => .refl _
  | @cons e e' terms terms' first _ ih =>
    intro before
    have rest := ih (before ++ [e'])
    rw [List.append_assoc, List.append_assoc] at rest
    exact .trans (one before terms first) rest

end Regrouped

/-- The laws by which the order of additions does not matter, nor a weight of one. -/
structure Exact (α : Type) [Arithmetic α] : Prop where
  zero_add : ∀ x : α, 0.0 + x = x
  add_zero : ∀ x : α, x + 0.0 = x
  add_assoc : ∀ x y z : α, x + y + z = x + (y + z)
  unit_mul : ∀ x : α, unitWeight α * x = x

namespace Exact

theorem foldl_add (exact : Exact α) (x : α) (xs : List α) :
    xs.foldl (fun sum x => sum + x) x = x + total xs := by
  induction xs generalizing x with
  | nil => exact (exact.add_zero x).symm
  | cons y ys ih => rw [List.foldl_cons, total, List.foldl_cons, ih, ih, exact.zero_add,
      exact.add_assoc]

theorem total_append (exact : Exact α) (xs ys : List α) :
    total (xs ++ ys) = total xs + total ys := by
  rw [total, List.foldl_append, exact.foldl_add]
  rfl

theorem total_cons (exact : Exact α) (x : α) (xs : List α) : total (x :: xs) = x + total xs := by
  rw [total, List.foldl_cons, exact.foldl_add, exact.zero_add]

end Exact

/-- In exact arithmetic sums may be grouped as one likes. -/
theorem Regrouped.eval_eq (exact : Exact α) {e e' : Expression α} (h : Regrouped e e') :
    e'.eval = e.eval := by
  induction h with
  | refl e => rfl
  | trans _ _ ih ih' => exact ih'.trans ih
  | opened before inner after =>
    simp only [Expression.eval, Expression.evalAll_eq_map, List.map_append, List.map_cons,
      exact.total_append, exact.total_cons, exact.unit_mul, exact.add_assoc]
  | sum before after _ ih | greatest before after _ ih =>
    simp only [Expression.eval, Expression.evalAll_eq_map, List.map_append, List.map_cons, ih]
  | times weight _ ih => rw [Expression.eval, Expression.eval, ih]
  | log _ ih => rw [Expression.eval, Expression.eval, ih]

section Reals

open Float.Model UnpackedFloat

/-- The real number that a double stands for; zero for what is not finite. -/
noncomputable def realOf : UnpackedFloat → ℝ
  | .finite sign mantissa exponent _ => (sign.apply mantissa : ℤ) * (2 : ℝ) ^ exponent
  | _ => 0

noncomputable instance : Arithmetic ℝ where
  natural n := n
  given x := realOf x.toModel.unpack
  ln := Real.log
  atMost x y := decide (x ≤ y)
  order := compare
  larger := max
  smaller := min
  greatest xs := xs.max?.getD 0

theorem given_real {x : Float} {mantissa : Nat} {exponent : Int} {some : 0 < mantissa}
    (unpacked : x.toModel.unpack = .finite .positive mantissa exponent some) :
    (given x : ℝ) = mantissa * (2 : ℝ) ^ exponent := by
  change realOf x.toModel.unpack = _
  rw [unpacked, realOf, Sign.apply, Int.cast_natCast]

theorem unitWeight_real : unitWeight ℝ = 1 := by
  have one : (1.0 : Float).toModel.unpack =
      .finite .positive 4503599627370496 (-52) (by decide) := rfl
  rw [unitWeight, given_real one]
  norm_num

theorem exact_real : Exact ℝ where
  zero_add := by norm_num
  add_zero := by norm_num
  add_assoc := add_assoc
  unit_mul x := by rw [unitWeight_real, one_mul]

end Reals

end RankedRetrieval
