import RankedRetrieval.Proofs.Retrieval.Pruning
import RankedRetrieval.Proofs.Score.Bits

set_option autoImplicit false

/-!
# The threshold and the order of ranks

A scan leaves a candidate out when its score is at most the threshold, as a number; an accumulator
refuses it when it does not rank before the worst entry. Ranks go on by document and passage where
scores are equal, and a later candidate loses there, so the two come to the same for all numbers but
the zeros: the positive zero is at most the negative one and ranks before it.
-/

namespace RankedRetrieval

open Arithmetic

section Double

/-- A number ranks by its place. Ranks leave one gap at zero, for there are two zeros. -/
theorem floatRank_of_placeOf {x : Float} {i : Int} (here : placeOf x = some i) :
    0 ≤ i ∧ (floatRank x : Int) = 2 ^ 63 + i ∨ i ≤ 0 ∧ (floatRank x : Int) = 2 ^ 63 - 1 + i := by
  have bits := placeOf_eq x
  have bound := x.toBits.toNat_lt
  rw [here] at bits
  split at bits
  · cases bits
  · have place := Option.some.inj bits
    unfold floatRank
    dsimp only
    split at place
    · rw [if_pos (by assumption)]
      omega
    · rw [if_neg (by assumption)]
      omega

theorem eq_of_floatRank {x y : Float} (same : floatRank x = floatRank y) : x = y := by
  have equal : order x y = .eq := Nat.compare_eq_eq.2 same
  exact Std.LawfulEqCmp.eq_of_compare equal

theorem floatRank_neg_zero : floatRank (-0.0) = 2 ^ 63 - 1 := by decide +kernel

/-- A number ranks above another if it exceeds it, and the positive zero above the negative one. -/
theorem order_eq_lt_iff {x y : Float} (number : isNumber x = true) (number' : isNumber y = true) :
    order y x = .lt ↔ ¬ atMost x y = true ∨ (x = 0.0 ∧ y = -0.0) := by
  obtain ⟨i, here⟩ := isNumber_iff.1 number
  obtain ⟨j, there⟩ := isNumber_iff.1 number'
  have rank := floatRank_of_placeOf here
  have rank' := floatRank_of_placeOf there
  have compared : atMost x y = true ↔ i ≤ j := by
    rw [atMost_iff, here, there]
    constructor
    · rintro ⟨_, _, ⟨⟩, ⟨⟩, le⟩
      exact le
    · exact fun le => ⟨i, j, rfl, rfl, le⟩
  have zeros : (x = 0.0 ∧ y = -0.0) ↔ floatRank x = 2 ^ 63 ∧ floatRank y = 2 ^ 63 - 1 := by
    constructor
    · rintro ⟨rfl, rfl⟩
      exact ⟨floatRank_zero, floatRank_neg_zero⟩
    · rintro ⟨positive, negative⟩
      exact ⟨eq_of_floatRank (positive.trans floatRank_zero.symm),
        eq_of_floatRank (negative.trans floatRank_neg_zero.symm)⟩
  have ranked : order y x = .lt ↔ floatRank y < floatRank x := Nat.compare_eq_lt
  rw [ranked, compared, zeros]
  omega

theorem atMost_zero_neg_zero : atMost (0.0 : Float) (-0.0) = true := by decide +kernel

end Double

namespace Entry

variable {α : Type} [Arithmetic α]

/-- A later candidate ranks first only by its score. -/
theorem rank_eq_lt_iff {e f : Entry α} (before : f.Before e) :
    e.rank f = .lt ↔ order f.score e.score = .lt := by
  have later : (compare e.document.toNat f.document.toNat).then
      (compare e.passageRank f.passageRank) = .gt := by
    rcases before with earlier | ⟨same, earlier⟩
    · rw [UInt32.lt_iff_toNat_lt] at earlier
      rw [Nat.compare_eq_gt.2 earlier]
      rfl
    · rw [same, Nat.compare_eq_eq.2 rfl, Nat.compare_eq_gt.2 earlier]
      rfl
  rw [rank, later]
  cases order f.score e.score <;> decide

end Entry

namespace TopK

/-- With room for something and no room left, there is a worst entry, and it decides. -/
theorem wouldEnter_of_isFull {α : Type} [Arithmetic α] {t : TopK α} (room : 0 < t.capacity)
    (full : t.isFull = true) :
    ∃ worst ∈ t.entries.toList, t.threshold = some worst.score ∧
      ∀ e : Entry α, t.wouldEnter e = (e.rank worst == .lt) := by
  have filled : 0 < t.entries.size := Nat.lt_of_lt_of_le room (isFull_iff.1 full)
  have there := worst?_eq_some filled
  refine ⟨t.entries[0], by simp, ?_, fun e => ?_⟩
  · rw [threshold, if_pos full, there]
    rfl
  · rw [wouldEnter, if_neg (Nat.pos_iff_ne_zero.1 room), there, full]
    rfl

/-- A later candidate is refused exactly if its score is at most the threshold, as both tests of a
scan put it, unless it is the positive zero and the threshold the negative one. -/
theorem refused_iff_atMost_threshold (t : TopK Float) (e : Entry Float) (room : 0 < t.capacity)
    (full : t.isFull = true) (number : e.score.isNaN = false)
    (kept : ∀ f ∈ t.entries.toList, f.score.isNaN = false ∧ f.Before e) :
    ∃ threshold, t.threshold = some threshold ∧
      ((atMost e.score threshold = true ↔ t.wouldEnter e = false) ↔
        ¬ (e.score = 0.0 ∧ threshold = -0.0)) ∧
      (∀ (rules : ScanRules Float) (s : Scan Float), s.best = t → rules.earlyTermination = true →
        rules.ceiling = e.score → s.isDecided rules = atMost e.score threshold) ∧
      ∀ (reached : Float) (rest : List (Bounds Float)), rest ≠ [] →
        Plan.ceiling reached rest = e.score →
        Plan.cannotExceed t.threshold reached rest = atMost e.score threshold := by
  obtain ⟨worst, inside, there, decides⟩ := wouldEnter_of_isFull room full
  obtain ⟨number', before⟩ := kept worst inside
  have enters : t.wouldEnter e = true ↔
      ¬ atMost e.score worst.score = true ∨ (e.score = 0.0 ∧ worst.score = -0.0) := by
    rw [isNaN_eq, Bool.not_eq_false'] at number number'
    rw [decides, beq_iff_eq, Entry.rank_eq_lt_iff before, order_eq_lt_iff number number']
  refine ⟨worst.score, there, ?_, ?_, ?_⟩
  · rw [← Bool.not_eq_true, enters]
    by_cases zeros : e.score = 0.0 ∧ worst.score = -0.0
    · have below : atMost e.score worst.score = true := by
        rw [zeros.1, zeros.2]
        exact atMost_zero_neg_zero
      exact iff_of_false (fun same => same.1 below (.inr zeros)) (not_not_intro zeros)
    · simp [zeros]
  · intro rules s best early ceiling
    rw [Scan.isDecided, best, early, there, ← ceiling]
    rfl
  · intro reached rest some same
    have filled : rest.isEmpty = false := by simpa using some
    rw [there, ← same]
    simp [Plan.cannotExceed, filled]

section Example

def single (score : Float) : TopK Float :=
  { capacity := 1, entries := #[{ score, document := 0, passage := none }] }

def rival (score : Float) : Entry Float :=
  { score, document := 0, passage := some { start := 4, stop := 8 } }

theorem before_rival {f : Entry Float} (score score' : Float)
    (h : f ∈ (single score).entries.toList) : f.Before (rival score') := by
  obtain rfl : f = { score, document := 0, passage := none } := by simpa [single] using h
  exact .inr ⟨rfl, Nat.succ_pos 4⟩

theorem number_of_mem_single {f : Entry Float} {score : Float} (number : score.isNaN = false)
    (h : f ∈ (single score).entries.toList) : f.score.isNaN = false := by
  obtain rfl : f = { score, document := 0, passage := none } := by simpa [single] using h
  exact number

theorem refused_iff_atMost_threshold_tied :
    0 < (single 1.5).capacity ∧ (single 1.5).isFull = true ∧ (rival 1.5).score.isNaN = false ∧
      (∀ f ∈ (single 1.5).entries.toList, f.score.isNaN = false ∧ f.Before (rival 1.5)) ∧
      ∃ threshold, (single 1.5).threshold = some threshold ∧
        atMost (rival 1.5).score threshold = true ∧
        (single 1.5).wouldEnter (rival 1.5) = false := by
  have number : (1.5 : Float).isNaN = false := by decide +kernel
  have kept : ∀ f ∈ (single 1.5).entries.toList, f.score.isNaN = false ∧ f.Before (rival 1.5) :=
    fun f inside => ⟨number_of_mem_single number inside, before_rival _ _ inside⟩
  obtain ⟨threshold, there, agree, _⟩ :=
    refused_iff_atMost_threshold (single 1.5) (rival 1.5) (by decide) (by decide) number kept
  obtain rfl : 1.5 = threshold := Option.some.inj there
  have below : atMost (rival 1.5).score 1.5 = true := by decide +kernel
  have apart : ¬ ((rival 1.5).score = 0.0 ∧ (1.5 : Float) = -0.0) := by decide +kernel
  exact ⟨by decide, by decide, number, kept, 1.5, there, below, (agree.2 apart).1 below⟩

/-- The positive zero is at most the negative one that is the threshold, and enters. -/
theorem enters_at_threshold_zero :
    0 < (single (-0.0)).capacity ∧ (single (-0.0)).isFull = true ∧
      (rival 0.0).score.isNaN = false ∧
      (∀ f ∈ (single (-0.0)).entries.toList, f.score.isNaN = false ∧ f.Before (rival 0.0)) ∧
      ∃ threshold, (single (-0.0)).threshold = some threshold ∧
        ¬ (atMost (rival 0.0).score threshold = true ↔
          (single (-0.0)).wouldEnter (rival 0.0) = false) := by
  have number : (0.0 : Float).isNaN = false := by decide +kernel
  have number' : (-0.0 : Float).isNaN = false := by decide +kernel
  have below : atMost (rival 0.0).score (-0.0) = true := atMost_zero_neg_zero
  have enters : (single (-0.0)).wouldEnter (rival 0.0) = true := by decide +kernel
  refine ⟨by decide, by decide, number, fun f inside =>
    ⟨number_of_mem_single number' inside, before_rival _ _ inside⟩, -0.0, rfl, fun agree => ?_⟩
  rw [agree.1 below] at enters
  cases enters

end Example

end TopK

end RankedRetrieval
