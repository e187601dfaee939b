import Mathlib
import RankedRetrieval.Plan.Reading

set_option autoImplicit false

namespace RankedRetrieval

namespace Window

theorem follow_of_empty (width stop : Nat) {lists : List (List Span)} (h : [] ∈ lists) :
    follow width stop lists = .exhausted ∨
      ∃ left, follow width stop lists = .gap left ∧ [] ∈ left := by
  induction lists generalizing stop with
  | nil => cases h
  | cons list lists ih =>
    simp only [follow]
    cases left : list.dropWhile fun s => s.start < stop with
    | nil => exact .inl rfl
    | cons s rest =>
      have later : [] ∈ lists := by
        rcases List.mem_cons.1 h with same | later
        · rw [← same, List.dropWhile_nil] at left
          cases left
        · exact later
      dsimp only
      split
      · exact .inr ⟨_, rfl, List.mem_cons_of_mem _ later⟩
      · rcases ih s.stop later with none | ⟨lists', gap, inside⟩
        · exact .inl (by rw [none, Chain.cons])
        · exact .inr ⟨_, by rw [gap, Chain.cons], List.mem_cons_of_mem _ inside⟩

theorem orderedFrom_of_empty (width : Nat) (starts : List Span) {lists : List (List Span)}
    (h : [] ∈ lists) : orderedFrom width starts lists = [] := by
  induction starts generalizing lists with
  | nil => rfl
  | cons s starts ih =>
    rw [orderedFrom]
    rcases follow_of_empty width s.stop h with none | ⟨left, gap, inside⟩
    · rw [none]
    · rw [gap]
      exact ih inside

theorem ordered_of_empty (width : Nat) {lists : List (List Span)} (h : [] ∈ lists) :
    ordered width lists = [] := by
  cases lists with
  | nil => rfl
  | cons first rest =>
    rcases List.mem_cons.1 h with same | later
    · rw [ordered, ← same, orderedFrom]
    · exact orderedFrom_of_empty width first later

theorem fronts_of_empty {lists : List (List Span)} (h : [] ∈ lists) : fronts lists = none := by
  induction lists with
  | nil => cases h
  | cons list lists ih =>
    cases list with
    | nil => rfl
    | cons s rest =>
      have later : [] ∈ lists := by simpa using h
      rw [fronts, ih later, Option.map_none]

theorem unordered_of_empty (width : Nat) {lists : List (List Span)} (h : [] ∈ lists) :
    unordered width lists = [] := by
  rw [unordered, fronts_of_empty h]

end Window

theorem Plan.windows_of_empty (order : WindowOrder) (width : Nat) {lists : List (List Span)}
    (h : [] ∈ lists) : windows order width lists = [] := by
  cases order with
  | ordered => exact Window.ordered_of_empty width h
  | unordered => exact Window.unordered_of_empty width h

theorem Plan.windows_nil (order : WindowOrder) (width : Nat) : windows order width [] = [] := by
  cases order <;> rfl

end RankedRetrieval
