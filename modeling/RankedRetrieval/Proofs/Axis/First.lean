import RankedRetrieval.Plan.Progress
import RankedRetrieval.Proofs.Collection.Ascending

set_option autoImplicit false

namespace RankedRetrieval

/-- Document `d` is the first of a set from `target` on, or the end where there is none. -/
def IsFirst (has : DocId → Bool) (target d : DocId) : Prop :=
  (has d = true ∧ target ≤ d ∧ ∀ e, has e = true → target ≤ e → d ≤ e) ∨
    (d = terminated ∧ ∀ e, has e = true → e < target)

namespace IsFirst

variable {has : DocId → Bool} {target d e : DocId}

theorem intro (below : has terminated = false) (le : target ≤ d)
    (mem : d ≠ terminated → has d = true)
    (least : ∀ e, has e = true → target ≤ e → d ≤ e) : IsFirst has target d := by
  by_cases done : d = terminated
  · refine .inr ⟨done, ?_⟩
    intro e h
    refine UInt32.not_le.1 fun le => ?_
    have last : e = terminated := by
      have := least e h le
      have := le_terminated e
      grind
    rw [last, below] at h
    cases h
  · exact .inl ⟨mem done, le, least⟩

theorem le (h : IsFirst has target d) : target ≤ d := by
  rcases h with ⟨_, le, _⟩ | ⟨done, _⟩
  · exact le
  · rw [done]
    exact le_terminated target

theorem has_of_ne (h : IsFirst has target d) (notDone : d ≠ terminated) : has d = true := by
  rcases h with ⟨mem, _, _⟩ | ⟨done, _⟩
  · exact mem
  · exact absurd done notDone

theorem least (h : IsFirst has target d) (mem : has e = true) (le : target ≤ e) : d ≤ e := by
  rcases h with ⟨_, _, least⟩ | ⟨_, before⟩
  · exact least e mem le
  · exact absurd (before e mem) (UInt32.not_lt.2 le)

theorem later {target' : DocId} (h : IsFirst has target d) (le : target ≤ target')
    (le' : target' ≤ d) : IsFirst has target' d := by
  rcases h with ⟨mem, _, least⟩ | ⟨done, before⟩
  · exact .inl ⟨mem, le', fun e he h => least e he (UInt32.le_trans le h)⟩
  · exact .inr ⟨done, fun e he => UInt32.lt_of_lt_of_le (before e he) le⟩

theorem unique (h : IsFirst has target d) (h' : IsFirst has target e) : d = e := by
  rcases h with ⟨mem, le, least⟩ | ⟨done, before⟩ <;>
    rcases h' with ⟨mem', le', least'⟩ | ⟨done', before'⟩
  · have := least e mem' le'
    have := least' d mem le
    grind
  · exact absurd (before' d mem) (UInt32.not_lt.2 le)
  · exact absurd (before e mem') (UInt32.not_lt.2 le')
  · rw [done, done']

theorem eq_target_iff (below : has terminated = false) (h : IsFirst has target d) :
    has target = true ↔ d = target ∧ d ≠ terminated := by
  constructor
  · intro mem
    have := h.least mem (UInt32.le_refl target)
    have := h.le
    have same : d = target := by grind
    refine ⟨same, fun done => ?_⟩
    rw [← same, done, below] at mem
    cases mem
  · rintro ⟨same, notDone⟩
    rw [← same]
    exact h.has_of_ne notDone

end IsFirst

/-- Where `stands t p` says that `p` is where the mover comes to stand for the target `t`. -/
structure Follows (has : DocId → Bool) (stands : DocId → Position → Prop) (move : Mover) :
    Prop where
  below : has terminated = false
  first : ∀ {t p}, stands t p → IsFirst has t p.document
  later : ∀ {t t' p}, stands t p → t ≤ t' → t' ≤ p.document → stands t' p
  move : ∀ {t target p}, stands t p → t ≤ target → p.document ≤ target →
    stands target (move p target)

namespace Follows

open Axis

variable {has : DocId → Bool} {stands : DocId → Position → Prop} {move : Mover}

theorem catchUp (f : Follows has stands move) {t target : DocId} {p : Position} (h : stands t p)
    (le : t ≤ target) : stands target (catchUp move p target) := by
  unfold Axis.catchUp
  split
  · exact f.move h le (UInt32.le_of_lt ‹_›)
  · exact f.later h le (UInt32.not_lt.1 ‹_›)

theorem congr {has' : DocId → Bool} {stands' : DocId → Position → Prop}
    (f : Follows has stands move) (same : has' = has) (same' : stands' = stands) :
    Follows has' stands' move := by
  rw [same, same']
  exact f

end Follows

namespace Axis

variable {β : Type}

def listed (key : β → DocId) (entries : Array β) (d : DocId) : Bool :=
  entries.any fun entry => key entry == d

theorem listed_iff {key : β → DocId} {entries : Array β} {d : DocId} :
    listed key entries d = true ↔ ∃ i, ∃ h : i < entries.size, key entries[i] = d := by
  simp [listed, Array.any_eq_true]

/-- A place of a leaf before which all entries are before the target. -/
def LeafStands (key : β → DocId) (entries : Array β) (t : DocId) (p : Position) : Prop :=
  ∃ i, p = leaf key entries i ∧ t ≤ p.document ∧
    ∀ j (h : j < entries.size), j < i → key entries[j] < t

theorem document_leaf_of_lt (key : β → DocId) (entries : Array β) {i : Nat}
    (h : i < entries.size) : (leaf key entries i).document = key entries[i] := by
  simp [leaf, h]

theorem document_leaf_of_ge (key : β → DocId) (entries : Array β) {i : Nat}
    (h : entries.size ≤ i) : (leaf key entries i).document = terminated := by
  simp [leaf, h]

theorem before_skipTo (key : β → DocId) (entries : Array β) (target : DocId) (i : Nat) :
    ∀ j (h : j < entries.size), i ≤ j → j < skipTo key entries target i →
      key entries[j] < target := by
  fun_induction skipTo key entries target i with
  | case1 i h before ih =>
    intro j hj le lt
    by_cases same : i = j
    · subst same
      exact before
    · exact ih j hj (by omega) lt
  | case2 i h notBefore =>
    intro j hj le lt
    omega
  | case3 i h =>
    intro j hj le lt
    omega

theorem le_of_ascending {key : β → DocId} {entries : Array β} (ascending : Ascending key entries)
    {i j : Nat} (hi : i < entries.size) (hj : j < entries.size) (le : i ≤ j) :
    key entries[i] ≤ key entries[j] := by
  by_cases same : i = j
  · subst same
    exact UInt32.le_refl _
  · have lt : i < j := by omega
    have := List.pairwise_iff_getElem.1 ascending i j (by simpa using hi) (by simpa using hj) lt
    simp only [Array.getElem_toList] at this
    exact UInt32.le_of_lt this

theorem leafStands_start (key : β → DocId) (entries : Array β) :
    LeafStands key entries 0 (leaf key entries 0) :=
  ⟨0, rfl, UInt32.zero_le, fun _ _ lt => absurd lt (Nat.not_lt_zero _)⟩

theorem follows_leaf {key : β → DocId} {entries : Array β} (ascending : Ascending key entries)
    (below : listed key entries terminated = false) :
    Follows (listed key entries) (LeafStands key entries) (advanceLeaf key entries) where
  below := below
  first := by
    rintro t p ⟨i, rfl, le, before⟩
    refine IsFirst.intro below le ?_ ?_
    · intro notDone
      have hi : i < entries.size := by
        refine Nat.not_le.1 fun ge => notDone ?_
        exact document_leaf_of_ge key entries ge
      rw [document_leaf_of_lt key entries hi]
      exact listed_iff.2 ⟨i, hi, rfl⟩
    · intro e h later
      obtain ⟨j, hj, rfl⟩ := listed_iff.1 h
      have notBefore : i ≤ j := by
        refine Nat.not_lt.1 fun lt => ?_
        exact absurd (before j hj lt) (UInt32.not_lt.2 later)
      have hi : i < entries.size := by omega
      rw [document_leaf_of_lt key entries hi]
      exact le_of_ascending ascending hi hj notBefore
  later := by
    rintro t t' p ⟨i, same, _, before⟩ le le'
    exact ⟨i, same, le', fun j hj lt => UInt32.lt_of_lt_of_le (before j hj lt) le⟩
  move := by
    rintro t target p ⟨i, rfl, _, before⟩ le _
    refine ⟨skipTo key entries target i, rfl, le_advanceLeaf _ _ _ _, ?_⟩
    intro j hj lt
    by_cases seen : j < i
    · exact UInt32.lt_of_lt_of_le (before j hj seen) le
    · exact before_skipTo key entries target i j hj (by omega) lt

end Axis

end RankedRetrieval
