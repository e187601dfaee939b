import Mathlib
import RankedRetrieval.Ranking.Heap

set_option autoImplicit false

namespace RankedRetrieval.Heap

variable {β : Type} {cmp : β → β → Ordering} {n : Nat}

def Under (cmp : β → β → Ordering) (v : Vector β n) (j k : Nat) : Prop :=
  ∀ (hj : j < n) (hk : k < n), (cmp v[j] v[k]).isLE

def Heaped (cmp : β → β → Ordering) (limit : Nat) (v : Vector β n) : Prop :=
  ∀ j, 0 < j → j < limit → Under cmp v j ((j - 1) / 2)

/-- A heap but for the element at `i`, whose children do not come after its parent. -/
structure Hole (cmp : β → β → Ordering) (limit i : Nat) (v : Vector β n) : Prop where
  except : ∀ j, 0 < j → j < limit → j ≠ i → (j - 1) / 2 ≠ i → Under cmp v j ((j - 1) / 2)
  grand : 0 < i → ∀ j, 0 < j → j < limit → (j - 1) / 2 = i → Under cmp v j ((i - 1) / 2)

theorem Under.trans [Std.TransCmp cmp] {v : Vector β n} {i j k : Nat} (h : Under cmp v i j)
    (h' : Under cmp v j k) (hj : j < n) : Under cmp v i k :=
  fun hi hk => Std.TransCmp.isLE_trans (h hi hj) (h' hj hk)

theorem under_swap {v : Vector β n} {a b j k j' k' : Nat} (ha : a < n) (hb : b < n)
    (h : Under cmp v j' k') (hj' : j < n → j' = if j = a then b else if j = b then a else j)
    (hk' : k < n → k' = if k = a then b else if k = b then a else k) :
    Under cmp (v.swap a b) j k := by
  intro hj hk
  have sj := hj' hj
  have sk := hk' hk
  have bj : j' < n := by
    rw [sj]
    split
    · exact hb
    · split
      · exact ha
      · exact hj
  have bk : k' < n := by
    rw [sk]
    split
    · exact hb
    · split
      · exact ha
      · exact hk
  have := h bj bk
  rw [Vector.getElem_swap, Vector.getElem_swap]
  subst sj sk
  grind

theorem greaterChild_eq_none {v : Vector β n} {i limit : Nat} {h : limit ≤ n}
    (none : greaterChild cmp v i limit h = none) : limit ≤ 2 * i + 1 := by
  simp only [greaterChild] at none
  split at none
  · cases none
  · split at none
    · cases none
    · omega

theorem greaterChild_eq_some [Std.TransCmp cmp] {v : Vector β n} {i limit child : Nat}
    {h : limit ≤ n} (some : greaterChild cmp v i limit h = some child) :
    0 < child ∧ (child - 1) / 2 = i ∧
      ∀ j, 0 < j → j < limit → (j - 1) / 2 = i → Under cmp v j child := by
  simp only [greaterChild] at some
  split at some
  · rename_i right
    cases some
    split
    · rename_i le
      refine ⟨by omega, by omega, ?_⟩
      intro j pos lt parent hj hk
      have side : j = 2 * i + 1 ∨ j = 2 * i + 1 + 1 := by omega
      rcases side with rfl | rfl
      · exact le
      · exact Std.ReflCmp.isLE_rfl
    · rename_i gt
      refine ⟨by omega, by omega, ?_⟩
      intro j pos lt parent hj hk
      have side : j = 2 * i + 1 ∨ j = 2 * i + 1 + 1 := by omega
      rcases side with rfl | rfl
      · exact Std.ReflCmp.isLE_rfl
      · have := Std.OrientedCmp.lt_of_not_isLE gt
        exact Ordering.isLE_of_eq_lt this
  · split at some
    · cases some
      refine ⟨by omega, by omega, ?_⟩
      intro j pos lt parent hj hk
      have same : j = 2 * i + 1 := by omega
      subst same
      exact Std.ReflCmp.isLE_rfl
    · cases some

theorem Hole.down [Std.TransCmp cmp] {v : Vector β n} {i limit child : Nat} {h : limit ≤ n}
    (hole : Hole cmp limit i v) (some : greaterChild cmp v i limit h = some child) :
    Hole cmp limit child (v.swap i child (by have := lt_of_greaterChild some; omega)
      (by have := lt_of_greaterChild some; omega)) := by
  obtain ⟨pos, parent, greater⟩ := greaterChild_eq_some some
  obtain ⟨above, below⟩ := lt_of_greaterChild some
  have hi : i < n := by omega
  have hc : child < n := by omega
  refine ⟨?_, ?_⟩
  · intro j posj lt other other'
    by_cases top : j = i
    · subst top
      exact under_swap hi hc (hole.grand posj child pos below parent) (by grind) (by grind)
    · by_cases sibling : (j - 1) / 2 = i
      · exact under_swap hi hc (greater j posj lt sibling) (by grind) (by grind)
      · exact under_swap hi hc (hole.except j posj lt top sibling) (by grind) (by grind)
  · intro _ j posj lt under
    have := hole.except j posj lt (by omega) (by omega)
    exact under_swap hi hc this (by grind) (by grind)

section Up

variable [Std.TransCmp cmp] {v : Vector β n} {i : Nat} (hole : Hole cmp n i v) (pos : 0 < i)
  (hi : i < n) (hp : (i - 1) / 2 < n)

include hole pos

theorem Hole.up : Hole cmp n ((i - 1) / 2) (v.swap i ((i - 1) / 2)) := by
  refine ⟨?_, ?_⟩
  · intro j posj lt other other'
    by_cases under : (j - 1) / 2 = i
    · exact under_swap hi hp (hole.grand pos j posj lt under) (by grind) (by grind)
    · have here : j ≠ i := by
        intro same
        subst same
        exact other' rfl
      exact under_swap hi hp (hole.except j posj lt here under) (by grind) (by grind)
  · intro posp j posj lt under
    have grandparent := hole.except ((i - 1) / 2) posp hp (by omega) (by omega)
    by_cases here : j = i
    · subst here
      exact under_swap hi hp grandparent (by grind) (by grind)
    · have := hole.except j posj lt here (by omega)
      rw [under] at this
      exact under_swap hi hp (this.trans grandparent hp) (by grind) (by grind)

/-- An element that exceeds its parent is not exceeded by a sibling, nor by what was its parent. -/
theorem Hole.below_up (up : Under cmp v ((i - 1) / 2) i) :
    ∀ j, 0 < j → j < n → (j - 1) / 2 = (i - 1) / 2 →
      Under cmp (v.swap i ((i - 1) / 2)) j ((i - 1) / 2) := by
  intro j posj lt under
  by_cases here : j = i
  · subst here
    exact under_swap hi hp up (by grind) (by grind)
  · have := hole.except j posj lt here (by omega)
    rw [under] at this
    exact under_swap hi hp (this.trans up hp) (by grind) (by grind)

end Up

theorem heaped_rise [Std.TransCmp cmp] (v : Vector β n) (i : Nat) (hi : i < n)
    (hole : Hole cmp n i v)
    (below : ∀ j, 0 < j → j < n → (j - 1) / 2 = i → Under cmp v j i) :
    Heaped cmp n (rise cmp v i hi) := by
  fun_induction rise cmp v i hi with
  | case1 v =>
    intro j pos lt
    by_cases top : (j - 1) / 2 = 0
    · rw [top]
      exact below j pos lt top
    · exact hole.except j pos lt (by omega) top
  | case2 v i hi notTop parent hp le =>
    intro j pos lt
    by_cases here : j = i
    · subst here
      exact fun _ _ => le
    · by_cases under : (j - 1) / 2 = i
      · rw [under]
        exact below j pos lt under
      · exact hole.except j pos lt here under
  | case3 v i hi notTop parent hp gt ih =>
    have pos : 0 < i := by omega
    have up : Under cmp v parent i := fun _ _ =>
      Ordering.isLE_of_eq_lt (Std.OrientedCmp.lt_of_not_isLE gt)
    exact ih (hole.up pos hi hp) (hole.below_up pos hi hp up)

theorem heaped_sinkAndRise [Std.TransCmp cmp] (v : Vector β n) (i : Nat) (hi : i < n)
    (hole : Hole cmp n i v) : Heaped cmp n (sinkAndRise cmp v i hi) := by
  fun_induction sinkAndRise cmp v i hi with
  | case1 v i hi bottom =>
    have := greaterChild_eq_none bottom
    exact heaped_rise v i hi hole fun j pos lt under => absurd under (by omega)
  | case2 v i hi child some lt ih => exact ih (hole.down some)

theorem heaped_sink [Std.TransCmp cmp] (v : Vector β n) (i limit : Nat) (h : limit ≤ n)
    (hole : Hole cmp limit i v) (above : 0 < i → Under cmp v i ((i - 1) / 2)) :
    Heaped cmp limit (sink cmp v i limit h) := by
  fun_induction sink cmp v i limit h with
  | case1 v i bottom =>
    have := greaterChild_eq_none bottom
    intro j pos lt
    by_cases here : j = i
    · subst here
      exact above pos
    · exact hole.except j pos lt here (by omega)
  | case2 v i child some lt stop =>
    obtain ⟨pos, parent, greater⟩ := greaterChild_eq_some some
    have under : Under cmp v child i := fun _ _ => Std.OrientedCmp.isLE_of_isGE stop
    intro j posj ltj
    by_cases here : j = i
    · subst here
      exact above posj
    · by_cases below : (j - 1) / 2 = i
      · rw [below]
        exact (greater j posj ltj below).trans under (by omega)
      · exact hole.except j posj ltj here below
  | case3 v i child some lt go ih =>
    obtain ⟨pos, parent, _⟩ := greaterChild_eq_some some
    have under : Under cmp v i child := by
      intro _ _
      cases order : cmp v[i] v[child] with
      | lt => rfl
      | eq => rfl
      | gt =>
        rw [order] at go
        exact absurd rfl go
    refine ih (hole.down some) fun _ => ?_
    rw [parent]
    exact under_swap (by omega) (by omega) under (by grind) (by grind)

variable (cmp) in
theorem getElem_sink (v : Vector β n) (i limit : Nat) (h : limit ≤ n) (hi : i < limit)
    (k : Nat) (hk : k < n) :
    ∃ k', ∃ hk' : k' < n, (sink cmp v i limit h)[k] = v[k'] ∧
      if k < limit then k' < limit else k' = k := by
  fun_induction sink cmp v i limit h with
  | case1 v i bottom => exact ⟨k, hk, rfl, by split <;> first | assumption | rfl⟩
  | case2 v i child some lt stop => exact ⟨k, hk, rfl, by split <;> first | assumption | rfl⟩
  | case3 v i child some lt go ih =>
    obtain ⟨k', hk', same, place⟩ := ih lt.2
    rw [Vector.getElem_swap] at same
    split at same
    · exact ⟨child, by omega, same, by grind⟩
    · split at same
      · exact ⟨i, by omega, same, by grind⟩
      · exact ⟨k', hk', same, place⟩

variable (cmp) in
theorem rise_perm (v : Vector β n) (i : Nat) (hi : i < n) : (rise cmp v i hi).Perm v := by
  fun_induction rise cmp v i hi with
  | case1 => exact .rfl
  | case2 => exact .rfl
  | case3 v i hi notTop parent hp gt ih => exact ih.trans (Vector.swap_perm _ _)

variable (cmp) in
theorem sinkAndRise_perm (v : Vector β n) (i : Nat) (hi : i < n) :
    (sinkAndRise cmp v i hi).Perm v := by
  fun_induction sinkAndRise cmp v i hi with
  | case1 v i hi bottom => exact rise_perm cmp v i hi
  | case2 v i hi child some lt ih => exact ih.trans (Vector.swap_perm _ _)

variable (cmp) in
theorem sink_perm (v : Vector β n) (i limit : Nat) (h : limit ≤ n) :
    (sink cmp v i limit h).Perm v := by
  fun_induction sink cmp v i limit h with
  | case1 => exact .rfl
  | case2 => exact .rfl
  | case3 v i child some lt go ih => exact ih.trans (Vector.swap_perm _ _)

variable (cmp) in
theorem sortFrom_perm (v : Vector β n) (limit : Nat) (h : limit ≤ n) :
    (sortFrom cmp v limit h).Perm v := by
  fun_induction sortFrom cmp v limit h with
  | case1 => exact .rfl
  | case2 => exact .rfl
  | case3 v limit h v' ih => exact ih.trans ((sink_perm cmp _ _ _ _).trans (Vector.swap_perm _ _))

theorem under_first [Std.TransCmp cmp] {limit : Nat} {v : Vector β n} (heaped : Heaped cmp limit v)
    (le : limit ≤ n) (j : Nat) (lt : j < limit) : Under cmp v j 0 := by
  induction j using Nat.strongRecOn with
  | ind j ih =>
    by_cases top : j = 0
    · subst top
      exact fun _ _ => Std.ReflCmp.isLE_rfl
    · have parent := heaped j (by omega) lt
      exact parent.trans (ih ((j - 1) / 2) (by omega) (by omega)) (by omega)

/-- The elements from `limit` on are in order, and none of the first ones comes after them. -/
structure Settled (cmp : β → β → Ordering) (limit : Nat) (v : Vector β n) : Prop where
  ordered : ∀ j k, limit ≤ j → j < k → Under cmp v j k
  first : ∀ j k, j < limit → limit ≤ k → Under cmp v j k

theorem settled_sink [Std.TransCmp cmp] {v : Vector β n} {limit : Nat} (h : limit + 2 ≤ n)
    (heaped : Heaped cmp (limit + 2) v) (settled : Settled cmp (limit + 2) v) :
    Settled cmp (limit + 1)
      (sink cmp (v.swap 0 (limit + 1) (Nat.zero_lt_of_lt h) h) 0 (limit + 1)
        (Nat.le_of_succ_le h)) := by
  have greatest (j : Nat) (lt : j < limit + 2) : Under cmp v j 0 := under_first heaped h j lt
  -- sinking moves elements among the first ones only
  have read := getElem_sink cmp (v.swap 0 (limit + 1)) 0 (limit + 1) (by omega) (by omega)
  refine ⟨?_, ?_⟩
  · intro j k le lt hj hk
    obtain ⟨j', hj', samej, placej⟩ := read j hj
    obtain ⟨k', hk', samek, placek⟩ := read k hk
    rw [samej, samek]
    rw [if_neg (by omega)] at placej placek
    subst placej placek
    by_cases last : j' = limit + 1
    · subst last
      exact under_swap (by omega) (by omega) (settled.first 0 k' (by omega) (by omega))
        (by grind) (by grind) hj' hk'
    · exact under_swap (by omega) (by omega) (settled.ordered j' k' (by omega) lt)
        (by grind) (by grind) hj' hk'
  · intro j k lt le hj hk
    obtain ⟨j', hj', samej, placej⟩ := read j hj
    obtain ⟨k', hk', samek, placek⟩ := read k hk
    rw [samej, samek]
    rw [if_pos lt] at placej
    rw [if_neg (by omega)] at placek
    subst placek
    by_cases last : k' = limit + 1
    · subst last
      by_cases top : j' = 0
      · subst top
        exact under_swap (by omega) (by omega) (greatest (limit + 1) (by omega))
          (by grind) (by grind) hj' hk'
      · exact under_swap (by omega) (by omega) (greatest j' (by omega))
          (by grind) (by grind) hj' hk'
    · by_cases top : j' = 0
      · subst top
        exact under_swap (by omega) (by omega) (settled.first (limit + 1) k' (by omega) (by omega))
          (by grind) (by grind) hj' hk'
      · exact under_swap (by omega) (by omega) (settled.first j' k' (by omega) (by omega))
          (by grind) (by grind) hj' hk'

theorem settled_sortFrom [Std.TransCmp cmp] (v : Vector β n) (limit : Nat) (h : limit ≤ n)
    (heaped : Heaped cmp limit v) (settled : Settled cmp limit v) :
    Settled cmp 0 (sortFrom cmp v limit h) := by
  fun_induction sortFrom cmp v limit h with
  | case1 => exact settled
  | case2 v h =>
    refine ⟨?_, fun j k lt => absurd lt (Nat.not_lt_zero j)⟩
    intro j k _ lt
    by_cases top : j = 0
    · exact settled.first j k (by omega) (by omega)
    · exact settled.ordered j k (by omega) lt
  | case3 v limit h v' ih =>
    refine ih ?_ (settled_sink h heaped settled)
    refine heaped_sink _ 0 (limit + 1) _ ⟨?_, fun pos => absurd pos (Nat.lt_irrefl 0)⟩
      fun pos => absurd pos (Nat.lt_irrefl 0)
    intro j pos lt other other'
    exact under_swap (by omega) (by omega) (heaped j pos (by omega)) (by grind) (by grind)

def IsHeap (cmp : β → β → Ordering) (heap : Array β) : Prop :=
  Heaped cmp heap.size heap.toVector

theorem isHeap_empty : IsHeap cmp #[] := fun j _ lt => absurd lt (Nat.not_lt_zero j)

theorem isHeap_toArray {v : Vector β n} (h : Heaped cmp n v) : IsHeap cmp v.toArray := by
  obtain ⟨a, rfl⟩ := v
  exact h

variable (cmp) in
theorem sorted_perm (heap : Array β) : (sorted cmp heap).Perm heap.toList := by
  exact (sortFrom_perm cmp heap.toVector heap.size (Nat.le_refl _)).toList

theorem sorted_pairwise [Std.TransCmp cmp] {heap : Array β} (h : IsHeap cmp heap) :
    (sorted cmp heap).Pairwise fun x y => (cmp x y).isLE := by
  have settled := settled_sortFrom heap.toVector heap.size (Nat.le_refl _) h
    ⟨fun j k le lt _ hk => absurd hk (by omega), fun j k _ le _ hk => absurd hk (by omega)⟩
  rw [List.pairwise_iff_getElem]
  intro j k hj hk lt
  simp only [sorted, Vector.getElem_toList]
  rw [sorted, Vector.length_toList] at hj hk
  exact settled.ordered j k (Nat.zero_le j) lt hj hk

variable (cmp) in
theorem push_perm (heap : Array β) (x : β) :
    (push cmp heap x).toList.Perm (x :: heap.toList) := by
  have risen := (rise_perm cmp (heap.push x).toVector heap.size (by simp)).toList
  have added : (heap.push x).toList.Perm (x :: heap.toList) := by
    rw [Array.toList_push]
    exact List.perm_append_singleton x heap.toList
  exact risen.trans added

theorem isHeap_push [Std.TransCmp cmp] {heap : Array β} (h : IsHeap cmp heap) (x : β) :
    IsHeap cmp (push cmp heap x) := by
  have size : (heap.push x).size = heap.size + 1 := Array.size_push x
  refine isHeap_toArray (heaped_rise _ _ _ ⟨?_, ?_⟩ ?_)
  · intro j pos lt other _ hj hk
    have hj' : j < heap.size := by omega
    have hk' : (j - 1) / 2 < heap.size := by omega
    have := h j pos hj' hj' hk'
    simpa [Array.getElem_push, hj', hk'] using this
  · intro _ j _ lt under
    exact absurd under (by omega)
  · intro j _ lt under
    exact absurd under (by omega)

theorem popped_perm {heap : Array β} (some : 0 < heap.size) (within : heap.size - 1 < heap.size)
    (more : 0 < heap.pop.size) :
    (heap[0] :: (heap.pop.set 0 heap[heap.size - 1] more).toList).Perm heap.toList := by
  have h : 1 < heap.size := by
    rw [Array.size_pop] at more
    omega
  obtain ⟨list⟩ := heap
  cases list with
  | nil => exact absurd h (Nat.not_lt_zero 1)
  | cons first rest =>
    rcases List.eq_nil_or_concat rest with rfl | ⟨middle, last, rfl⟩
    · exact absurd h (Nat.lt_irrefl 1)
    · have ends : (first :: (middle ++ [last])).dropLast = first :: middle := by
        rw [← List.cons_append, List.dropLast_concat]
      simp only [List.concat_eq_append, List.pop_toArray, List.set_toArray, ends,
        List.set_cons_zero, List.getElem_toArray, List.getElem_cons_zero, List.size_toArray,
        List.length_cons, List.length_append]
      refine List.Perm.cons first ?_
      simpa using (List.perm_append_singleton last middle).symm

variable (cmp) in
theorem pop_perm {heap : Array β} (h : 0 < heap.size) :
    (heap[0] :: (pop cmp heap).toList).Perm heap.toList := by
  unfold pop
  split
  · rename_i more
    have rest : 0 < heap.pop.size := by
      rw [Array.size_pop]
      omega
    have sunk := (sinkAndRise_perm cmp (heap.pop.set 0 heap[heap.size - 1] rest).toVector 0
      (by rw [Array.size_set]; exact rest)).toList
    exact (List.Perm.cons heap[0] sunk).trans (popped_perm h (Nat.sub_one_lt_of_lt more) rest)
  · rename_i one
    obtain ⟨list⟩ := heap
    cases list with
    | nil => exact absurd h (Nat.lt_irrefl 0)
    | cons x rest =>
      cases rest with
      | nil => exact .rfl
      | cons y rest => exact absurd (by simp) one

theorem isHeap_pop [Std.TransCmp cmp] {heap : Array β} (h : IsHeap cmp heap) :
    IsHeap cmp (pop cmp heap) := by
  unfold pop
  split
  · rename_i more
    refine isHeap_toArray (heaped_sinkAndRise _ _ _ ⟨?_, fun pos => absurd pos (Nat.lt_irrefl 0)⟩)
    intro j pos lt other other' hj hk
    have hj' : j < heap.size := by simp at hj; omega
    have hk' : (j - 1) / 2 < heap.size := by omega
    have := h j pos hj' hj' hk'
    simpa [Array.getElem_set, other, other', Ne.symm other, Ne.symm other'] using this
  · exact isHeap_empty

end RankedRetrieval.Heap
