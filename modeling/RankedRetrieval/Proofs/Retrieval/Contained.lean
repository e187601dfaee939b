import RankedRetrieval.Proofs.Retrieval.Bounded

set_option autoImplicit false

/-!
# Counts within lengths

What a scorer assumes of the counts and lengths it reads is found from how the two are written. The
counts it reads stay within the lengths beside them, unless a length is clipped twice by a passage
that starts after the document does, and no document with a count is shorter than the shortest that
is assumed (`reads_within_bounds`).
-/

namespace RankedRetrieval

namespace Plan

open Axis

variable {α : Type}

structure Pairing (α : Type) where
  side : Plan α
  counted : Plan α
  bounds : LengthBounds

def pairing? : Plan α → Option (Pairing α)
  | .dirichlet side counted model => some { side, counted, bounds := model.lengths }
  | .bm25 side counted model => some { side, counted, bounds := model.lengths }
  | _ => none

namespace Pairing

def count (x : Pairing α) (p : Position) (ctx : Context) : Nat := x.counted.countAt (p.part 1) ctx

def length (x : Pairing α) (p : Position) (ctx : Context) : Nat :=
  x.side.lengthAt (catchUp x.side.advance (p.part 0) ctx.document) ctx

end Pairing

section Reads

variable [Arithmetic α] {plan : Plan α} {x : Pairing α} {p : Position} {d : DocId}

omit [Arithmetic α] in
theorem isScorer_of_pairing (paired : plan.pairing? = some x) : plan.isScorer = true := by
  cases plan with
  | dirichlet | bm25 => rfl
  | _ => cases paired

theorem attends_of_pairing (walkable : plan.trim.Walkable) (paired : plan.pairing? = some x)
    (driven : Driven plan d p) :
    x.side.trim.Walkable ∧ x.counted.trim.Walkable ∧ Attends x.side x.counted d p := by
  cases plan with
  | dirichlet side counted model =>
    cases paired
    exact ⟨walkable.1, walkable.2, driven.attends walkable⟩
  | bm25 side counted model =>
    cases paired
    exact ⟨walkable.1, walkable.2, driven.attends_bm25 walkable⟩
  | _ => cases paired

end Reads

end Plan

namespace Workshop

open Plan

section Assumed

variable {α : Type} [Arithmetic α] {w : Workshop} {steps : List DraftStep} {q : Query}
  {plan : Plan α} {x : Pairing α}

theorem pairing?_scorer (w : Workshop) (form : Form) (parameters : Parameters)
    (side counted : Plan α) (term : TermStatistics) (field : FieldStatistics)
    (bounds : LengthBounds) :
    (w.scorer form parameters side counted term field bounds).pairing? =
      some { side, counted, bounds } := by
  unfold scorer
  split <;> rfl

/-- What a scorer that is built assumes holds of what its parts hold. -/
theorem holds_within_bounds (collected : w.collection = .ofSteps steps)
    (built : w.build q = .ok plan) (paired : plan.pairing? = some x) (ctx : Context) :
    (x.bounds.countsWithinLength = true → ClippedOnce x.side ctx.passage →
        x.counted.totalIn ctx ≤ x.side.lengthIn ctx) ∧
      (0 < x.counted.totalIn ctx → x.bounds.shortest ≤ x.side.lengthIn ctx) := by
  obtain ⟨_, _, _, _, _, _, _, _, rfl, measures, built', answers, _⟩ :=
    exists_parts collected built (isScorer_of_pairing paired)
  rw [scorerOf, pairing?_scorer] at paired
  cases paired
  exact ⟨fun within once => totalIn_le_length collected measures built' within ctx once,
    shortest_le_length collected measures built' answers⟩

end Assumed

/-- Wherever a scorer stands in a query, and however it is driven: if it assumes that counts stay
within lengths, then no count that it reads exceeds the length it reads, unless that is clipped
twice, and where it reads any count, the length is no less than the shortest it assumes. -/
theorem reads_within_bounds {α : Type} [Arithmetic α] (steps : List DraftStep) (w : Workshop)
    (q : Query) (plan : Plan α) (collected : w.collection = .ofSteps steps)
    (built : w.build q = .ok plan) (d : DocId) (p r : Position) (driven : Driven plan d p)
    (part : Plan α) (among : Part plan p part r) (x : Pairing α) (paired : part.pairing? = some x)
    (ctx : Context) (le : d ≤ ctx.document) (notDone : ctx.document ≠ terminated) :
    (x.bounds.countsWithinLength = true → ClippedOnce x.side ctx.passage →
        x.count r ctx ≤ x.length r ctx) ∧
      (0 < x.count r ctx → x.bounds.shortest ≤ x.length r ctx) := by
  have ordered : w.collection.Ordered := collected ▸ Collection.ordered_ofSteps steps
  obtain ⟨q', built'⟩ := build_part among built
  obtain ⟨measured, walkable, attends⟩ := attends_of_pairing
    ((built_of_build w q' built').walkable_trim ordered) paired (driven_of_part driven among)
  have fewer : x.count r ctx ≤ x.counted.totalIn ctx := attends.countAt_le walkable ctx notDone
  have same : x.length r ctx = x.side.lengthIn ctx := attends.lengthAt_eq measured ctx le notDone
  obtain ⟨room, listed⟩ := holds_within_bounds collected built' paired ctx
  rw [same]
  exact ⟨fun within once => fewer.trans (room within once),
    fun some => listed (Nat.lt_of_lt_of_le some fewer)⟩

section Example

def clippedLengths : Nat → Query
  | 0 => .node "lengths" .empty []
  | times + 1 => .node "passage-length" .empty [clippedLengths times]

def passageLikelihood (times : Nat) : Query :=
  .node "dirichlet" .empty [clippedLengths times,
    .node "passage-filter" .empty [.node "extents" (.single "term" (.string "a")) []]]

def lateTerms : Workshop := Cursor.workshopOf 0 ["b", "b", "b", "b", "a", "a", "a", "a"]

def secondHalf : Context := { document := 0, passage := some ⟨4, 8⟩ }

def readsAtStart (plan : Plan Float) (ctx : Context) : Option (Nat × Nat) :=
  plan.pairing?.bind fun x =>
    if x.bounds.countsWithinLength then some (x.count plan.start ctx, x.length plan.start ctx)
    else none

theorem reads_of_readsAtStart {plan : Plan Float} {ctx : Context} {count length : Nat}
    (h : readsAtStart plan ctx = some (count, length)) :
    ∃ x, plan.pairing? = some x ∧ x.bounds.countsWithinLength = true ∧
      x.count plan.start ctx = count ∧ x.length plan.start ctx = length := by
  obtain ⟨x, paired, h⟩ := Option.bind_eq_some_iff.1 h
  split at h
  · rename_i within
    obtain ⟨rfl, rfl⟩ := Prod.mk.inj (Option.some.inj h)
    exact ⟨x, paired, within, rfl, rfl⟩
  · cases h

theorem exists_build {q : Query} (test : Plan Float → Bool)
    (h : (lateTerms.build (α := Float) q).toOption.any test = true) :
    ∃ plan, lateTerms.build (α := Float) q = .ok plan ∧ test plan = true := by
  cases built : lateTerms.build (α := Float) q with
  | error e =>
    rw [built] at h
    cases h
  | ok plan =>
    rw [built] at h
    exact ⟨plan, rfl, h⟩

/-- Clipped once, the length of the passage has room for its four terms. -/
theorem reads_within_bounds_once : ∃ (plan : Plan Float) (x : Pairing Float),
    lateTerms.build (passageLikelihood 1) = .ok plan ∧ plan.pairing? = some x ∧
      x.bounds.countsWithinLength = true ∧ ClippedOnce x.side secondHalf.passage ∧
      0 < x.count plan.start secondHalf ∧
      x.count plan.start secondHalf ≤ x.length plan.start secondHalf ∧
      x.bounds.shortest ≤ x.length plan.start secondHalf := by
  obtain ⟨plan, built, tested⟩ := exists_build (q := passageLikelihood 1)
    (fun plan => readsAtStart plan secondHalf = some (4, 4) &&
      plan.pairing?.any fun x : Pairing Float => decide (x.side.clips ≤ 1)) (by decide +kernel)
  rw [Bool.and_eq_true, decide_eq_true_eq] at tested
  obtain ⟨x, paired, within, four, _⟩ := reads_of_readsAtStart tested.1
  have once : ClippedOnce x.side secondHalf.passage := by
    rw [paired] at tested
    exact .inl (of_decide_eq_true tested.2)
  have reads := reads_within_bounds [.tokens 0 "document" ["b", "b", "b", "b", "a", "a", "a", "a"]]
    lateTerms (passageLikelihood 1) plan rfl built 0 _ _ .start plan (.self plan _) x paired
    secondHalf (UInt32.le_refl 0) (by decide)
  have some : 0 < x.count plan.start secondHalf := four ▸ Nat.succ_pos 3
  exact ⟨plan, x, built, paired, within, once, some, reads.1 within once, reads.2 some⟩

/-- Clipped twice, it has none: the length of the passage is taken for that of a document which ends
before the passage starts. -/
theorem count_above_length_twice : ∃ (plan : Plan Float) (x : Pairing Float),
    lateTerms.build (passageLikelihood 2) = .ok plan ∧ plan.pairing? = some x ∧
      x.bounds.countsWithinLength = true ∧ x.count plan.start secondHalf = 4 ∧
      x.length plan.start secondHalf = 0 := by
  obtain ⟨plan, built, tested⟩ := exists_build (q := passageLikelihood 2)
    (fun plan => readsAtStart plan secondHalf = some (4, 0)) (by decide +kernel)
  obtain ⟨x, paired, within, four, none⟩ := reads_of_readsAtStart (of_decide_eq_true tested)
  exact ⟨plan, x, built, paired, within, four, none⟩

end Example

end Workshop

end RankedRetrieval
