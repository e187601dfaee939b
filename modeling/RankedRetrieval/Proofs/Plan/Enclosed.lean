import RankedRetrieval.Proofs.Plan.Driven
import RankedRetrieval.Proofs.Plan.Expressions

set_option autoImplicit false

/-!
# Ranges of combined scores

In exact arithmetic the range of a combination is made of the ranges of its parts as its score is
made of their scores. So if the leaves of a plan score within their ranges, and logarithms are taken
of positive ranges only, the plan scores within its own, at every document and wherever it has been
driven to (`encloses_score`).
-/

namespace RankedRetrieval

open Arithmetic

structure Bounds.Encloses (b : Bounds ℝ) (x : ℝ) : Prop where
  lower : b.lower ≤ x
  upper : x ≤ b.upper

section Ranges

theorem isPositiveOrZero_iff {weight : ℝ} : isPositiveOrZero weight = true ↔ 0 ≤ weight := by
  change decide ((0.0 : ℝ) ≤ weight) = true ↔ 0 ≤ weight
  norm_num

theorem Bounds.Encloses.scale {b : Bounds ℝ} {x : ℝ} (h : b.Encloses x) (weight : ℝ) :
    (b.scale weight).Encloses (weight * x) := by
  unfold Bounds.scale
  split
  · rename_i positive
    have positive := isPositiveOrZero_iff.1 positive
    exact ⟨mul_le_mul_of_nonneg_left h.lower positive, mul_le_mul_of_nonneg_left h.upper positive⟩
  · rename_i negative
    have negative := le_of_not_ge (mt isPositiveOrZero_iff.2 negative)
    exact ⟨mul_le_mul_of_nonpos_left h.upper negative, mul_le_mul_of_nonpos_left h.lower negative⟩

theorem Bounds.Encloses.log {b : Bounds ℝ} {x : ℝ} (h : b.Encloses x) (positive : 0 < b.lower) :
    Bounds.Encloses { lower := ln b.lower, upper := ln b.upper } (ln x) where
  lower := Real.log_le_log positive h.lower
  upper := Real.log_le_log (positive.trans_le h.lower) h.upper

variable {xs ys : List ℝ}

theorem foldl_mono {f : ℝ → ℝ → ℝ} (mono : ∀ {a b x y : ℝ}, a ≤ b → x ≤ y → f a x ≤ f b y)
    (h : List.Forall₂ (· ≤ ·) xs ys) {a b : ℝ} (le : a ≤ b) : xs.foldl f a ≤ ys.foldl f b := by
  induction h generalizing a b with
  | nil => exact le
  | cons first _ ih => exact ih (mono le first)

theorem total_mono (h : List.Forall₂ (· ≤ ·) xs ys) : total xs ≤ total ys :=
  foldl_mono (fun le le' => add_le_add le le') h (le_refl 0.0)

theorem greatest_mono (h : List.Forall₂ (· ≤ ·) xs ys) : greatest xs ≤ greatest ys := by
  cases h with
  | nil => exact le_refl _
  | @cons x y xs ys first rest =>
    change (x :: xs).max?.getD 0 ≤ (y :: ys).max?.getD 0
    rw [List.max?_cons', List.max?_cons']
    exact foldl_mono (fun le le' => max_le_max le le') rest first

theorem foldOf_mono (method : Method) (h : List.Forall₂ (· ≤ ·) xs ys) :
    Plan.bounds.foldOf method xs ≤ Plan.bounds.foldOf method ys := by
  cases method with
  | sum => exact total_mono h
  | greatest => exact greatest_mono h

end Ranges

namespace Plan

def scoresItself {α : Type} : Plan α → Bool
  | .prior _ _ | .dirichlet _ _ _ | .bm25 _ _ _ => true
  | _ => false

/-- What the range of a plan takes for granted: the leaves score the document within their ranges,
and a logarithm is taken of a range above zero. -/
structure Grounded (plan : Plan ℝ) (p : Position) (ctx : Context) : Prop where
  leaves : ∀ leaf r, Part plan p leaf r → leaf.scoresItself = true →
    leaf.bounds.Encloses (leaf.score r ctx none).value
  logs : ∀ child r, Part plan p (.log child) r → 0 < child.bounds.lower

variable {ctx : Context}

section Parts

theorem Grounded.part {plan child : Plan ℝ} {p q : Position} (h : Grounded plan p ctx)
    (below : ∀ part r, Part child q part r → Part plan p part r) : Grounded child q ctx where
  leaves leaf r among := h.leaves leaf r (below leaf r among)
  logs inner r among := h.logs inner r (below _ r among)

/-- Scores that are known lie between the least and the greatest of them. -/
theorem encloses_prior (entries : Array (DocId × ℝ)) (default : ℝ) (p : Position) (ctx : Context) :
    (prior entries default).bounds.Encloses ((prior entries default).score p ctx none).value := by
  have member : ((prior entries default).score p ctx none).value ∈
      default :: entries.toList.map Prod.snd := by
    rw [score]
    dsimp only
    cases found : entryAt Prod.fst entries p ctx.document with
    | none => exact List.mem_cons_self
    | some entry =>
      have listed := (Option.filter_eq_some_iff.1 found).1
      exact List.mem_cons_of_mem _ (List.mem_map_of_mem
        (Array.mem_toList_iff.2 (Array.mem_of_getElem? listed)))
  constructor
  · exact (List.min?_eq_some_iff.1 List.min?_cons').2 _ member
  · exact (List.max?_eq_some_iff.1 List.max?_cons').2 _ member

theorem grounded_prior (entries : Array (DocId × ℝ)) (default : ℝ) (p : Position) (ctx : Context) :
    Grounded (.prior entries default) p ctx where
  leaves leaf r part _ := by
    cases part
    exact encloses_prior entries default p ctx
  logs child r part := nomatch part

theorem Grounded.log {child : Plan ℝ} {p : Position} (h : Grounded child p ctx)
    (positive : 0 < child.bounds.lower) : Grounded (.log child) p ctx where
  leaves leaf r part itself := by
    cases part with
    | self => cases itself
    | log below => exact h.leaves leaf r below itself
  logs inner r part := by
    cases part with
    | self => exact positive
    | log below => exact h.logs inner r below

theorem Grounded.scale {child : Plan ℝ} {p : Position} (h : Grounded child p ctx) (weight : ℝ) :
    Grounded (.scale weight child) p ctx where
  leaves leaf r part itself := by
    cases part with
    | self => cases itself
    | scale below => exact h.leaves leaf r below itself
  logs inner r part := by
    cases part with
    | scale below => exact h.logs inner r below

theorem grounded_combine {method : Method} {mode : Mode} {children : List (Plan ℝ)}
    {weights : List ℝ} {p : Position} (each : ∀ child ∈ children, ∀ q, Grounded child q ctx) :
    Grounded (.combine method mode children weights) p ctx where
  leaves leaf r part itself := by
    cases part with
    | self => cases itself
    | combine member below =>
      exact (each _ (List.of_mem_zip member).1 _).leaves leaf r below itself
  logs inner r part := by
    cases part with
    | combine member below => exact (each _ (List.of_mem_zip member).1 _).logs inner r below

theorem grounded_require {filter scorer : Plan ℝ} {p : Position}
    (h : Grounded scorer (p.part 1) ctx) : Grounded (.require filter scorer) p ctx where
  leaves leaf r part itself := by
    cases part with
    | self => cases itself
    | require below => exact h.leaves leaf r below itself
  logs inner r part := by
    cases part with
    | require below => exact h.logs inner r below

end Parts

section Combinations

variable {children : List (Plan ℝ)} {parts : List Position}

theorem encloses_contributions
    (each : List.Forall₂ (fun (child : Plan ℝ) q =>
      child.bounds.Encloses (child.score q ctx none).value) children parts) (weights : List ℝ) :
    List.Forall₂ Bounds.Encloses (contributions children weights)
      ((expressions children weights parts ctx).map Expression.eval) := by
  induction each generalizing weights with
  | nil => exact .nil
  | @cons child q children parts first _ ih =>
    cases weights with
    | nil => exact .nil
    | cons weight weights =>
      rw [contributions, expressions, List.map_cons, Expression.eval, eval_expression]
      exact .cons (first.scale weight) (ih weights)

theorem encloses_combine (method : Method) (mode : Mode) (weights : List ℝ) {p : Position}
    (each : List.Forall₂ (fun (child : Plan ℝ) q =>
      child.bounds.Encloses (child.score q ctx none).value) children p.parts) :
    (combine method mode children weights).bounds.Encloses
      ((combine method mode children weights).score p ctx none).value := by
  have terms := encloses_contributions each weights
  rw [← eval_expression, expression, Expression.eval_combined]
  constructor
  · refine foldOf_mono method (List.forall₂_map_left_iff.2 ?_)
    exact terms.imp fun _ _ within => within.lower
  · refine foldOf_mono method (List.forall₂_map_right_iff.2 ?_)
    exact (terms.imp fun _ _ within => within.upper).flip

/-- A plan scores within its range whatever it is made of, be the document one of its own or not. -/
theorem encloses_score (plan : Plan ℝ) (d : DocId) (p : Position) (driven : Driven plan d p)
    (ctx : Context) (grounded : Grounded plan p ctx) :
    plan.bounds.Encloses (plan.score p ctx none).value := by
  induction plan generalizing p with
  | prior | dirichlet | bm25 => exact grounded.leaves _ p (.self _ p) rfl
  | combine method mode children weights ih =>
    refine encloses_combine method mode weights (List.forall₂_iff_zip.2 ⟨?_, ?_⟩)
    · exact (driven_combine driven).length_eq
    · intro child q member
      exact ih child (List.of_mem_zip member).1 q (List.forall₂_zip (driven_combine driven) member)
        (grounded.part fun _ _ among => .combine member among)
  | log child ih =>
    have inner := ih p (driven_log driven) (grounded.part fun _ _ among => .log among)
    exact inner.log (grounded.logs child p (.self _ p))
  | scale weight child ih =>
    exact (ih p (driven_scale driven) (grounded.part fun _ _ among => .scale among)).scale weight
  | require filter scorer _ ih =>
    have inner := ih (p.part 1) (driven_require driven)
      (grounded.part fun _ _ among => .require among)
    rw [score]
    dsimp only
    -- away from the filter the lower end stands in for the score
    split
    · exact inner
    · exact ⟨le_refl _, inner.lower.trans inner.upper⟩
  | _ => exact ⟨le_refl _, le_refl _⟩

end Combinations

section Example

noncomputable def someKnown : Plan ℝ := .prior #[(1, natural 4), (3, natural 2)] 1

/-- Of some documents, a score that is taken away twice, less three times its logarithm. -/
noncomputable def discounted : Plan ℝ :=
  .require (.lengths #[(3, 5)])
    (.combine .sum .any [.scale (-natural 2) someKnown, .log someKnown] [1, -natural 3])

theorem encloses_discounted : Driven discounted 0 discounted.start ∧
    Grounded discounted discounted.start (.whole 3) ∧
      Grounded discounted discounted.start (.whole 1) ∧
      discounted.bounds.Encloses (discounted.score discounted.start (.whole 3) none).value ∧
      discounted.bounds.Encloses (discounted.score discounted.start (.whole 1) none).value := by
  have positive : 0 < someKnown.bounds.lower := by
    norm_num [someKnown, bounds, Arithmetic.smaller, natural]
  have grounded (d : DocId) : Grounded discounted discounted.start (.whole d) := by
    have each : ∀ child ∈ [.scale (-natural 2) someKnown, .log someKnown], ∀ q,
        Grounded child q (.whole d) := by
      refine List.forall_mem_cons.2 ⟨fun q => ?_, List.forall_mem_singleton.2 fun q => ?_⟩
      · exact (grounded_prior _ _ q _).scale _
      · exact (grounded_prior _ _ q _).log positive
    exact grounded_require (grounded_combine each)
  exact ⟨.start, grounded 3, grounded 1, encloses_score discounted 0 _ .start _ (grounded 3),
    encloses_score discounted 0 _ .start _ (grounded 1)⟩

end Example

end Plan

end RankedRetrieval
