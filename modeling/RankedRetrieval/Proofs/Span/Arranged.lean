import Mathlib
import RankedRetrieval.Span.Basic

set_option autoImplicit false

namespace RankedRetrieval.Span

section Repeats

variable {β : Type} [BEq β]

theorem eraseReps_loop (x : β) (rest done : List β) :
    List.eraseRepsBy.loop (· == ·) x rest done =
      done.reverse ++ List.eraseRepsBy.loop (· == ·) x rest [] := by
  induction rest generalizing x done with
  | nil => simp [List.eraseRepsBy.loop]
  | cons y rest ih =>
    rw [List.eraseRepsBy.loop, List.eraseRepsBy.loop]
    split
    · exact ih x done
    · rw [ih y (x :: done), ih y [x], List.reverse_cons, List.append_assoc]
      rfl

variable [LawfulBEq β]

theorem eraseReps_cons_cons (x y : β) (rest : List β) :
    (x :: y :: rest).eraseReps =
      if x == y then (y :: rest).eraseReps else x :: (y :: rest).eraseReps := by
  change List.eraseRepsBy.loop (· == ·) x (y :: rest) [] = _
  rw [List.eraseRepsBy.loop]
  split
  · rename_i same
    rw [if_pos same, eq_of_beq same]
    rfl
  · rename_i other
    rw [if_neg (ne_true_of_eq_false other), eraseReps_loop]
    rfl

theorem mem_eraseReps {x : β} {xs : List β} : x ∈ xs.eraseReps ↔ x ∈ xs := by
  induction xs with
  | nil => exact Iff.rfl
  | cons y rest ih =>
    cases rest with
    | nil => exact Iff.rfl
    | cons z rest =>
      rw [eraseReps_cons_cons]
      split
      · rename_i same
        have again : x = z → x ∈ z :: rest := fun here => here ▸ List.mem_cons_self
        rw [ih, eq_of_beq same, List.mem_cons (b := z) (l := z :: rest), or_iff_right_of_imp again]
      · rw [List.mem_cons, ih, List.mem_cons (b := y)]

theorem eraseReps_sublist (xs : List β) : xs.eraseReps.Sublist xs := by
  induction xs with
  | nil => exact .slnil
  | cons x rest ih =>
    cases rest with
    | nil => exact List.Sublist.refl _
    | cons y rest =>
      rw [eraseReps_cons_cons]
      split
      · exact ih.cons x
      · exact ih.cons_cons x

theorem nodup_eraseReps {le : β → β → Prop} (antisymm : ∀ x y, le x y → le y x → x = y)
    {xs : List β} (sorted : xs.Pairwise le) : xs.eraseReps.Nodup := by
  induction xs with
  | nil => exact List.nodup_nil
  | cons x rest ih =>
    obtain ⟨least, tail⟩ := List.pairwise_cons.1 sorted
    cases rest with
    | nil => exact List.nodup_singleton x
    | cons y rest =>
      rw [eraseReps_cons_cons]
      split
      · exact ih tail
      · rename_i other
        refine List.nodup_cons.2 ⟨fun again => other ?_, ih tail⟩
        rcases List.mem_cons.1 (mem_eraseReps.1 again) with same | later
        · exact beq_iff_eq.2 same
        · have before := (List.pairwise_cons.1 tail).1 x later
          exact beq_iff_eq.2 (antisymm x y (least y List.mem_cons_self) before)

end Repeats

theorem precedes_iff {s t : Span} :
    s.precedes t = true ↔ s.start < t.start ∨ s.start = t.start ∧ s.stop ≤ t.stop := by
  simp [precedes]

theorem eq_of_precedes {s t : Span} (h : s.precedes t = true) (h' : t.precedes s = true) :
    s = t := by
  rw [precedes_iff] at h h'
  obtain ⟨start, stop⟩ := s
  obtain ⟨start', stop'⟩ := t
  simp only [Span.mk.injEq]
  simp only at h h'
  omega

theorem sorted_mergeSort (spans : List Span) :
    (spans.mergeSort precedes).Pairwise fun s t => s.precedes t = true := by
  refine List.pairwise_mergeSort ?_ ?_ spans
  · intro s t u h h'
    rw [precedes_iff] at h h' ⊢
    omega
  · intro s t
    rw [Bool.or_eq_true, precedes_iff, precedes_iff]
    omega

theorem mem_arrange {s : Span} {spans : List Span} : s ∈ arrange spans ↔ s ∈ spans := by
  rw [arrange, mem_eraseReps, List.mem_mergeSort]

theorem sorted_arrange (spans : List Span) :
    (arrange spans).Pairwise fun s t => s.precedes t = true :=
  (sorted_mergeSort spans).sublist (eraseReps_sublist _)

theorem nodup_arrange (spans : List Span) : (arrange spans).Nodup :=
  nodup_eraseReps (fun _ _ => eq_of_precedes) (sorted_mergeSort spans)

theorem subperm_arrange {spans spans' : List Span} (within : spans ⊆ spans') :
    (arrange spans).Subperm (arrange spans') := by
  refine (nodup_arrange spans).subperm fun s member => ?_
  exact mem_arrange.2 (within (mem_arrange.1 member))

end RankedRetrieval.Span
