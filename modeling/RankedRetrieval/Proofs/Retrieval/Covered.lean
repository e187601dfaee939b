import Mathlib.Algebra.Order.Floor.Div
import Mathlib.Data.List.Perm.Subperm
import RankedRetrieval.Retrieval.Passages

set_option autoImplicit false

/-!
# Passages of a document, one shift after the other

The passages of a document are known in advance: each starts one shift after the one before, and the
last is the first to reach the end (`passages_eq`). Where no shift is longer than a passage they
cover the document (`passages_cover`). Longer shifts leave gaps, and the last passage lies within
the document just when the document does not end in one (`passages_within`).
-/

namespace RankedRetrieval.PassageScheme

def passageAt (s : PassageScheme) (length shifts : Nat) : Span where
  start := min (shifts * s.shift) maxPosition
  stop := min (shifts * s.shift + s.size) length

/-- The shifts from the first passage to the one that reaches the end. -/
def lastShift (s : PassageScheme) (length : Nat) : Nat := (length - s.size) ⌈/⌉ s.shift

variable (s : PassageScheme) {length : Nat}

theorem lastShift_le_iff {k : Nat} : s.lastShift length ≤ k ↔ length ≤ k * s.shift + s.size := by
  rw [lastShift, ceilDiv_le_iff_le_mul s.shift_pos, Nat.mul_comm]
  omega

theorem lt_lastShift_iff {k : Nat} : k < s.lastShift length ↔ k * s.shift + s.size < length := by
  have last : s.lastShift length ≤ k ↔ length ≤ k * s.shift + s.size := s.lastShift_le_iff
  omega

/-- From any passage on, the loop goes through the shifts up to the last. -/
theorem passagesFrom_eq (bounded : length ≤ maxPosition) (k more : Nat)
    (last : k + more = s.lastShift length) :
    s.passagesFrom length bounded (min (k * s.shift) maxPosition) =
      (List.range' k (more + 1)).map (s.passageAt length) := by
  induction more generalizing k with
  | zero =>
    rw [Nat.add_zero] at last
    have reached := s.lastShift_le_iff.1 (Nat.le_of_eq last.symm)
    rw [passagesFrom, dif_pos (by omega)]
    simp only [Nat.zero_add, List.range'_one, List.map_cons, List.map_nil, passageAt,
      List.cons.injEq, Span.mk.injEq, and_true, true_and]
    omega
  | succ more ih =>
    have short := s.lt_lastShift_iff.1 (show k < s.lastShift length by omega)
    have next : min (min (k * s.shift) maxPosition + s.shift) maxPosition =
        min ((k + 1) * s.shift) maxPosition := by
      rw [Nat.succ_mul]
      omega
    rw [passagesFrom, dif_neg (by omega), next, ih (k + 1) (by omega), List.range'_succ (s := k),
      List.map_cons]
    simp only [passageAt, List.cons.injEq, Span.mk.injEq, true_and, and_true]
    omega

theorem passages_eq (bounded : length ≤ maxPosition) :
    s.passages length = (List.range (s.lastShift length + 1)).map (s.passageAt length) := by
  have from_start := s.passagesFrom_eq bounded 0 (s.lastShift length) (Nat.zero_add _)
  simp only [passages, List.range_eq_range', ← from_start, Nat.min_eq_left bounded, Nat.zero_mul,
    Nat.zero_min]

theorem passages_concat (bounded : length ≤ maxPosition) :
    s.passages length = (List.range (s.lastShift length)).map (s.passageAt length) ++
      [s.passageAt length (s.lastShift length)] := by
  rw [s.passages_eq bounded, List.range_succ, List.map_append, List.map_singleton]

section Gaps

structure Within (s : PassageScheme) (length : Nat) (passage : Span) : Prop where
  forward : passage.start < passage.stop
  inside : passage.stop ≤ length
  short : passage.stop - passage.start ≤ s.size

/-- The last token stands behind the passage that is the last to start in front of it. -/
def EndsInGap (s : PassageScheme) (length : Nat) : Prop := s.size ≤ (length - 1) % s.shift

theorem stop_passageAt (bounded : length ≤ maxPosition) (k : Nat) :
    (s.passageAt length k).stop ≤ length ∧
      (s.passageAt length k).stop - (s.passageAt length k).start ≤ s.size := by
  simp only [passageAt]
  omega

theorem within_of_lt (bounded : length ≤ maxPosition) {k : Nat} (earlier : k < s.lastShift length) :
    s.Within length (s.passageAt length k) := by
  have short := s.lt_lastShift_iff.1 earlier
  have some := s.size_pos
  constructor <;> simp only [passageAt] <;> omega

theorem within_last_iff (bounded : length ≤ maxPosition) :
    s.Within length (s.passageAt length (s.lastShift length)) ↔
      s.lastShift length * s.shift < length := by
  have reached := s.lastShift_le_iff.1 (Nat.le_refl (s.lastShift length))
  have some := s.size_pos
  constructor
  · intro within
    have forward := within.forward
    simp only [passageAt] at forward
    omega
  · intro before
    constructor <;> simp only [passageAt] <;> omega

theorem endsInGap_iff (some : 0 < length) :
    s.EndsInGap length ↔ length ≤ s.lastShift length * s.shift := by
  have shift_pos := s.shift_pos
  have parts := Nat.div_add_mod' (length - 1) s.shift
  have rest := Nat.mod_lt (length - 1) shift_pos
  constructor
  · intro gap
    have earlier : (length - 1) / s.shift < s.lastShift length := by
      rw [lt_lastShift_iff]
      unfold EndsInGap at gap
      omega
    have later := Nat.mul_le_mul_right s.shift (Nat.succ_le_of_lt earlier)
    rw [Nat.succ_mul] at later
    omega
  · intro behind
    cases last : s.lastShift length with
    | zero =>
      rw [last, Nat.zero_mul] at behind
      omega
    | succ k =>
      have short := s.lt_lastShift_iff.1 (show k < s.lastShift length by omega)
      rw [last] at behind
      have whole : (length - 1) / s.shift = k := Nat.div_eq_of_lt_le (by omega) (by omega)
      rw [whole] at parts
      unfold EndsInGap
      omega

/-- The passages come to an end. None reaches beyond the document or is too long, and all but the
last lie within the document. The last one does, too, just when the document does not end in a gap;
otherwise it starts behind the end. An empty document has the empty passage. -/
theorem passages_within (s : PassageScheme) (length : Nat) (bounded : length ≤ maxPosition) :
    (s.passages length).length = (length - s.size) ⌈/⌉ s.shift + 1 ∧
      s.passages 0 = [{ start := 0, stop := 0 }] ∧
      (∀ passage ∈ s.passages length,
        passage.stop ≤ length ∧ passage.stop - passage.start ≤ s.size) ∧
      (∀ passage ∈ (s.passages length).dropLast, s.Within length passage) ∧
      (0 < length →
        ((∀ passage ∈ s.passages length, s.Within length passage) ↔ ¬s.EndsInGap length) ∧
          (s.EndsInGap length → ∃ last, (s.passages length).getLast? = some last ∧
            length ≤ last.start ∧ last.stop = length)) := by
  have listed := s.passages_eq bounded
  have split := s.passages_concat bounded
  refine ⟨?_, ?_, ?_, ?_, fun some => ⟨?_, fun gap => ?_⟩⟩
  · simp only [listed, List.length_map, List.length_range, lastShift]
  · rw [s.passages_eq (Nat.zero_le maxPosition)]
    simp [lastShift, passageAt]
  · rw [listed]
    simp only [List.forall_mem_map]
    intro k _
    exact s.stop_passageAt bounded k
  · rw [split, List.dropLast_concat]
    simp only [List.forall_mem_map, List.mem_range]
    intro k earlier
    exact s.within_of_lt bounded earlier
  · rw [split, s.endsInGap_iff some, Nat.not_le, ← s.within_last_iff bounded]
    simp only [List.forall_mem_append, List.forall_mem_singleton, List.forall_mem_map,
      List.mem_range]
    constructor
    · intro all
      exact all.2
    · intro last
      exact ⟨fun k earlier => s.within_of_lt bounded earlier, last⟩
  · have behind := (s.endsInGap_iff some).1 gap
    refine ⟨s.passageAt length (s.lastShift length), ?_, ?_, ?_⟩
    · rw [split, List.getLast?_concat]
    · simp only [passageAt]
      omega
    · simp only [passageAt]
      omega

def threeOfFive : PassageScheme where
  size := 3
  shift := 5
  size_pos := by decide
  shift_pos := by decide

/-- A document of eight tokens ends with the second passage. -/
theorem passages_within_apart : 8 ≤ maxPosition ∧ ¬threeOfFive.EndsInGap 8 ∧
    (threeOfFive.passages 8).length = 2 ∧
    ∀ passage ∈ threeOfFive.passages 8, threeOfFive.Within 8 passage := by
  have bounded : 8 ≤ maxPosition := by decide
  have noGap : ¬threeOfFive.EndsInGap 8 := by
    unfold EndsInGap
    decide
  obtain ⟨count, _, _, _, whole⟩ := passages_within threeOfFive 8 bounded
  exact ⟨bounded, noGap, count, (whole (by decide)).1.2 noGap⟩

def oneOfThree : PassageScheme where
  size := 1
  shift := 3
  size_pos := by decide
  shift_pos := by decide

/-- A document of two tokens ends in a gap: its second passage starts at three and stops at two. -/
theorem passages_beyond_end : oneOfThree.passages 2 =
      [{ start := 0, stop := 1 }, { start := 3, stop := 2 }] ∧
    ¬∀ (s : PassageScheme) (length : Nat), length ≤ maxPosition → 0 < length →
      ∀ passage ∈ s.passages length, s.Within length passage := by
  have listed : oneOfThree.passages 2 =
      [{ start := 0, stop := 1 }, { start := 3, stop := 2 }] := by
    rw [oneOfThree.passages_eq (by decide)]
    decide
  refine ⟨listed, fun all => ?_⟩
  have last : { start := 3, stop := 2 } ∈ oneOfThree.passages 2 := by
    rw [listed]
    decide
  have forward := (all oneOfThree 2 (by decide) (by decide) _ last).forward
  exact absurd forward (by decide)

end Gaps

section Cover

theorem mul_shift_le (overlap : s.shift ≤ s.size) {k : Nat} (within : k ≤ s.lastShift length) :
    k * s.shift ≤ length := by
  cases k with
  | zero => omega
  | succ k =>
    have short := s.lt_lastShift_iff.1 within
    rw [Nat.succ_mul]
    omega

/-- Where no shift is longer than a passage, no start is cut off. -/
theorem passageAt_eq (bounded : length ≤ maxPosition) (overlap : s.shift ≤ s.size) {k : Nat}
    (within : k ≤ s.lastShift length) :
    s.passageAt length k =
      { start := k * s.shift, stop := min (k * s.shift + s.size) length } := by
  have inside := s.mul_shift_le overlap within
  simp only [passageAt, Span.mk.injEq, and_true]
  omega

theorem exists_passageAt (bounded : length ≤ maxPosition) (overlap : s.shift ≤ s.size)
    {position : Nat} (inside : position < length) :
    ∃ k ≤ s.lastShift length, (s.passageAt length k).contains (.token position) = true := by
  have reached := s.lastShift_le_iff.1 (Nat.le_refl (s.lastShift length))
  have parts := Nat.div_add_mod' position s.shift
  have rest := Nat.mod_lt position s.shift_pos
  by_cases within : position / s.shift ≤ s.lastShift length
  · refine ⟨position / s.shift, within, ?_⟩
    simp only [s.passageAt_eq bounded overlap within, Span.contains, Span.token, Bool.and_eq_true,
      decide_eq_true_eq]
    omega
  · -- the last passage has all positions from its start on
    have earlier := Nat.mul_le_mul_right s.shift (Nat.le_of_lt (Nat.not_le.1 within))
    refine ⟨s.lastShift length, Nat.le_refl _, ?_⟩
    simp only [s.passageAt_eq bounded overlap (Nat.le_refl _), Span.contains, Span.token,
      Bool.and_eq_true, decide_eq_true_eq]
    omega

/-- The passages with a position start within one passage's size in front of it. -/
theorem mem_range'_of_contains (bounded : length ≤ maxPosition) (overlap : s.shift ≤ s.size)
    {k position : Nat} (within : k ≤ s.lastShift length)
    (has : (s.passageAt length k).contains (.token position) = true) :
    k ∈ List.range' (position / s.shift + 1 - s.size ⌈/⌉ s.shift) (s.size ⌈/⌉ s.shift) := by
  simp only [s.passageAt_eq bounded overlap within, Span.contains, Span.token, Bool.and_eq_true,
    decide_eq_true_eq] at has
  have before : k ≤ position / s.shift := (Nat.le_div_iff_mul_le s.shift_pos).2 has.1
  have after : position / s.shift < k + s.size ⌈/⌉ s.shift := by
    have covered : s.size ≤ s.shift * (s.size ⌈/⌉ s.shift) :=
      (ceilDiv_le_iff_le_mul s.shift_pos).1 (Nat.le_refl _)
    rw [Nat.div_lt_iff_lt_mul s.shift_pos, Nat.add_mul, Nat.mul_comm (s.size ⌈/⌉ s.shift)]
    omega
  rw [List.mem_range'_1]
  omega

theorem countP_passages_le (bounded : length ≤ maxPosition) (overlap : s.shift ≤ s.size)
    (position : Nat) :
    (s.passages length).countP (fun passage => passage.contains (.token position)) ≤
      s.size ⌈/⌉ s.shift := by
  have near : (List.range (s.lastShift length + 1)).filter
      (fun k => (s.passageAt length k).contains (.token position)) ⊆
        List.range' (position / s.shift + 1 - s.size ⌈/⌉ s.shift) (s.size ⌈/⌉ s.shift) := by
    intro k member
    rw [List.mem_filter, List.mem_range] at member
    exact s.mem_range'_of_contains bounded overlap (Nat.le_of_lt_succ member.1) member.2
  have few := ((List.nodup_range.filter _).subperm near).length_le
  rw [List.length_range'] at few
  rw [s.passages_eq bounded, List.countP_map, List.countP_eq_length_filter]
  exact few

/-- Passages that are shifted by no more than their size come to an end. They start at the
multiples of the shift and stop one behind the other; the last one and no other reaches the end of
the document. Every token is in one of them, and in no more than there are starts within a
size. -/
theorem passages_cover (s : PassageScheme) (length : Nat) (bounded : length ≤ maxPosition)
    (overlap : s.shift ≤ s.size) :
    (s.passages length).map Span.start =
        (List.range ((length - s.size) ⌈/⌉ s.shift + 1)).map (· * s.shift) ∧
      ((s.passages length).map Span.start).Pairwise (· < ·) ∧
      ((s.passages length).map Span.stop).Pairwise (· ≤ ·) ∧
      (∃ before last, s.passages length = before ++ [last] ∧ last.stop = length ∧
        ∀ passage ∈ before, passage.stop < length) ∧
      ∀ position < length,
        0 < (s.passages length).countP (fun passage => passage.contains (.token position)) ∧
          (s.passages length).countP (fun passage => passage.contains (.token position)) ≤
            s.size ⌈/⌉ s.shift := by
  have listed := s.passages_eq bounded
  have starts : (s.passages length).map Span.start =
      (List.range ((length - s.size) ⌈/⌉ s.shift + 1)).map (· * s.shift) := by
    rw [listed, List.map_map]
    refine List.map_congr_left fun k member => ?_
    have within := Nat.le_of_lt_succ (List.mem_range.1 member)
    simp only [Function.comp_apply, s.passageAt_eq bounded overlap within]
  refine ⟨starts, ?_, ?_, ⟨(List.range (s.lastShift length)).map (s.passageAt length),
    s.passageAt length (s.lastShift length), ?_, ?_, ?_⟩, fun position inside => ⟨?_, ?_⟩⟩
  · rw [starts, List.pairwise_map]
    exact List.pairwise_lt_range.imp fun before => Nat.mul_lt_mul_of_pos_right before s.shift_pos
  · rw [listed, List.map_map, List.pairwise_map]
    refine List.pairwise_lt_range.imp fun before => ?_
    have later := Nat.mul_le_mul_right s.shift (Nat.le_of_lt before)
    simp only [Function.comp_apply, passageAt]
    omega
  · exact s.passages_concat bounded
  · have reached := s.lastShift_le_iff.1 (Nat.le_refl (s.lastShift length))
    simp only [passageAt]
    omega
  · simp only [List.forall_mem_map, List.mem_range]
    intro k earlier
    have short := s.lt_lastShift_iff.1 earlier
    simp only [passageAt]
    omega
  · obtain ⟨k, within, has⟩ := s.exists_passageAt bounded overlap inside
    rw [List.countP_pos_iff, listed]
    exact ⟨_, List.mem_map_of_mem (List.mem_range.2 (Nat.lt_succ_of_le within)), has⟩
  · exact s.countP_passages_le bounded overlap position

def nearlyAll : PassageScheme where
  size := maxPosition - 1
  shift := 2147483648
  size_pos := by decide
  shift_pos := by decide

/-- The longest document has two of them. -/
theorem passages_cover_longest : maxPosition ≤ maxPosition ∧ nearlyAll.shift ≤ nearlyAll.size ∧
    (nearlyAll.passages maxPosition).map Span.start = [0, 2147483648] ∧
    ∀ position < maxPosition,
      0 < (nearlyAll.passages maxPosition).countP
        (fun passage => passage.contains (.token position)) := by
  have overlap : nearlyAll.shift ≤ nearlyAll.size := by decide
  obtain ⟨starts, _, _, _, covered⟩ :=
    passages_cover nearlyAll maxPosition (Nat.le_refl _) overlap
  refine ⟨Nat.le_refl _, overlap, ?_, fun position inside => (covered position inside).1⟩
  rw [starts]
  decide

end Cover

end RankedRetrieval.PassageScheme
