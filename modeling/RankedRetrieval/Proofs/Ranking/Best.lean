import RankedRetrieval.Proofs.Ranking.Heap
import RankedRetrieval.Ranking.TopK

set_option autoImplicit false

namespace RankedRetrieval

open Arithmetic

variable {α : Type} [Arithmetic α]

namespace Entry

def notWorse (e f : Entry α) : Bool := (e.rank f).isLE

def byScore (e f : Entry α) : Ordering := order f.score e.score

variable [Std.TransCmp (order (α := α))]

instance : Std.TransCmp (byScore (α := α)) where
  eq_swap {e f} := by
    have swapped : order f.score e.score = (order e.score f.score).swap := Std.OrientedCmp.eq_swap
    exact swapped
  isLE_trans {e f g} h h' := by
    have le : (order f.score e.score).isLE := h
    have le' : (order g.score f.score).isLE := h'
    have trans : (order g.score e.score).isLE := Std.TransCmp.isLE_trans le' le
    exact trans

instance : Std.TransCmp (rank (α := α)) :=
  inferInstanceAs (Std.TransCmp (compareLex byScore
    (compareLex (compareOn fun e : Entry α => e.document.toNat) (compareOn passageRank))))

theorem notWorse_trans (e f g : Entry α) : e.notWorse f → f.notWorse g → e.notWorse g :=
  Std.TransCmp.isLE_trans

theorem notWorse_total (e f : Entry α) : e.notWorse f || f.notWorse e := by
  have swapped : f.rank e = (e.rank f).swap := Std.OrientedCmp.eq_swap
  rw [notWorse, notWorse, swapped]
  cases e.rank f <;> rfl

end Entry

instance : Std.TransCmp (order (α := Float)) :=
  inferInstanceAs (Std.TransCmp (compareOn floatRank))

namespace TopK

/-- What an accumulator is like that has seen candidates: those that it does not keep are no better
than any that it keeps, and it drops none while it has room. -/
structure Keeps (capacity : Nat) (seen : List (Entry α)) (t : TopK α) : Prop where
  capacity_eq : t.capacity = capacity
  isHeap : Heap.IsHeap Entry.rank t.entries
  le : t.entries.size ≤ capacity
  dropped : ∃ rejected, (t.entries.toList ++ rejected).Perm seen ∧
    (∀ e ∈ t.entries.toList, ∀ f ∈ rejected, (e.rank f).isLE) ∧
    (rejected ≠ [] → t.entries.size = capacity)

theorem keeps_empty (capacity : Nat) : Keeps capacity [] (empty (α := α) capacity) where
  capacity_eq := rfl
  isHeap := Heap.isHeap_empty
  le := Nat.zero_le _
  dropped := ⟨[], .rfl, fun _ _ => List.forall_mem_nil _, fun h => absurd rfl h⟩

theorem Keeps.size_eq {capacity : Nat} {seen : List (Entry α)} {t : TopK α}
    (h : Keeps capacity seen t) : t.entries.size = min capacity seen.length := by
  obtain ⟨rejected, perm, _, full⟩ := h.dropped
  have le := h.le
  have length := perm.length_eq
  rw [List.length_append, Array.length_toList] at length
  by_cases none : rejected = []
  · rw [none, List.length_nil] at length
    omega
  · have := full none
    omega

theorem size_push (entries : Array (Entry α)) (e : Entry α) :
    (Heap.push Entry.rank entries e).size = entries.size + 1 := by
  have := (Heap.push_perm Entry.rank entries e).length_eq
  simpa using this

theorem size_pop {entries : Array (Entry α)} (h : 0 < entries.size) :
    (Heap.pop Entry.rank entries).size + 1 = entries.size := by
  have := (Heap.pop_perm Entry.rank h).length_eq
  simpa using this

omit [Arithmetic α] in
theorem worst?_eq_some {t : TopK α} (h : 0 < t.entries.size) : t.worst? = some t.entries[0] :=
  Array.getElem?_eq_getElem h

omit [Arithmetic α] in
theorem isFull_iff {t : TopK α} : t.isFull = true ↔ t.capacity ≤ t.entries.size :=
  decide_eq_true_iff

section Insert

variable [Std.TransCmp (order (α := α))] {capacity : Nat} {seen : List (Entry α)} {t : TopK α}

theorem rank_worst (h : Heap.IsHeap Entry.rank t.entries) (some : 0 < t.entries.size)
    {e : Entry α} (member : e ∈ t.entries.toList) : (e.rank t.entries[0]).isLE := by
  obtain ⟨i, hi, rfl⟩ := List.mem_iff_getElem.1 member
  have hi' : i < t.entries.size := by simpa using hi
  exact Heap.under_first h (Nat.le_refl _) i hi' hi' some

/-- A candidate is refused if there is no room and all that is kept is no worse. -/
theorem Keeps.refused_iff (h : Keeps capacity seen t) (e : Entry α) :
    t.wouldEnter e = false ↔
      t.entries.size = capacity ∧ ∀ f ∈ t.entries.toList, (f.rank e).isLE := by
  have le := h.le
  have room := h.capacity_eq
  by_cases none : t.capacity = 0
  · have size : t.entries = #[] := Array.eq_empty_of_size_eq_zero (by omega)
    rw [wouldEnter, if_pos none, size]
    exact ⟨fun _ => ⟨none.symm.trans room, fun _ => List.not_mem_nil.elim⟩, fun _ => rfl⟩
  · by_cases empty : t.entries.size = 0
    · have worst : t.worst? = Option.none := Array.getElem?_eq_none (Nat.le_of_eq empty)
      rw [wouldEnter, if_neg none, worst]
      exact ⟨fun h => (Bool.noConfusion h), fun h => absurd h.1 (by omega)⟩
    · have some : 0 < t.entries.size := Nat.pos_of_ne_zero empty
      rw [wouldEnter, if_neg none, worst?_eq_some some, Bool.or_eq_false_iff, Bool.not_eq_false',
        isFull_iff]
      refine and_congr (by omega) ?_
      rw [beq_eq_false_iff_ne]
      constructor
      · intro later f kept
        have worst : (t.entries[0].rank e).isLE := by
          refine Decidable.by_contra fun first => later ?_
          exact Std.OrientedCmp.lt_of_not_isLE first
        exact Std.TransCmp.isLE_trans (rank_worst h.isHeap some kept) worst
      · intro all first
        have worst := all t.entries[0] (by simp)
        rw [Std.OrientedCmp.gt_of_lt first] at worst
        cases worst

theorem Keeps.refuse (h : Keeps capacity seen t) {e : Entry α} (out : t.wouldEnter e = false) :
    Keeps capacity (seen ++ [e]) t := by
  obtain ⟨full, worst⟩ := (h.refused_iff e).1 out
  obtain ⟨rejected, perm, le, _⟩ := h.dropped
  refine ⟨h.capacity_eq, h.isHeap, h.le, e :: rejected, ?_, ?_, fun _ => full⟩
  · refine List.perm_middle.trans ?_
    exact (List.Perm.cons e perm).trans (List.perm_append_singleton e seen).symm
  · intro f kept g other
    rcases List.mem_cons.1 other with rfl | other
    · exact worst f kept
    · exact le f kept g other

theorem Keeps.add (h : Keeps capacity seen t) (room : t.entries.size < capacity) (e : Entry α) :
    Keeps capacity (seen ++ [e]) { t with entries := Heap.push Entry.rank t.entries e } := by
  obtain ⟨rejected, perm, le, full⟩ := h.dropped
  have none : rejected = [] := by
    cases rejected with
    | nil => rfl
    | cons f rest =>
      have := full (List.cons_ne_nil f rest)
      omega
  subst none
  refine ⟨h.capacity_eq, Heap.isHeap_push h.isHeap e, ?_, [], ?_, ?_, ?_⟩
  · rw [size_push]
    omega
  · rw [List.append_nil] at perm ⊢
    have added := (Heap.push_perm Entry.rank t.entries e).trans (List.Perm.cons e perm)
    exact added.trans (List.perm_append_singleton e seen).symm
  · exact fun _ _ => List.forall_mem_nil _
  · exact fun h => absurd rfl h

theorem Keeps.replace (h : Keeps capacity seen t) (some : 0 < t.entries.size)
    (isFull : t.entries.size = capacity) {e : Entry α} (better : e.rank t.entries[0] = .lt) :
    Keeps capacity (seen ++ [e])
      { t with entries := Heap.push Entry.rank (Heap.pop Entry.rank t.entries) e } := by
  obtain ⟨rejected, perm, le, _⟩ := h.dropped
  have popped := Heap.pop_perm Entry.rank some
  have pushed := Heap.push_perm Entry.rank (Heap.pop Entry.rank t.entries) e
  have worst : (e.rank t.entries[0]).isLE := Ordering.isLE_of_eq_lt better
  have first : t.entries[0] ∈ t.entries.toList := by simp
  have size := size_pop some
  refine ⟨h.capacity_eq, Heap.isHeap_push (Heap.isHeap_pop h.isHeap) e, ?_,
    t.entries[0] :: rejected, ?_, ?_, ?_⟩
  · rw [size_push]
    omega
  · have kept : ((Heap.push Entry.rank (Heap.pop Entry.rank t.entries) e).toList ++
        t.entries[0] :: rejected).Perm (e :: (t.entries.toList ++ rejected)) := by
      refine List.perm_middle.trans ?_
      refine (List.Perm.cons _ (List.Perm.append_right rejected pushed)).trans ?_
      refine (List.Perm.swap e t.entries[0] _).trans (List.Perm.cons e ?_)
      exact List.Perm.append_right rejected popped
    exact kept.trans ((List.Perm.cons e perm).trans (List.perm_append_singleton e seen).symm)
  · intro f kept g other
    have before : f = e ∨ f ∈ t.entries.toList := by
      rcases List.mem_cons.1 (pushed.mem_iff.1 kept) with same | inside
      · exact .inl same
      · exact .inr (popped.mem_iff.1 (List.mem_cons_of_mem _ inside))
    rcases before with rfl | before
    · rcases List.mem_cons.1 other with rfl | other
      · exact worst
      · exact Std.TransCmp.isLE_trans worst (le _ first g other)
    · rcases List.mem_cons.1 other with rfl | other
      · exact rank_worst h.isHeap some before
      · exact le f before g other
  · intro _
    rw [size_push]
    omega

theorem keeps_insert (h : Keeps capacity seen t) (e : Entry α) :
    Keeps capacity (seen ++ [e]) (t.insert e) := by
  cases enters : t.wouldEnter e with
  | false =>
    have same : t.insert e = t := by
      rw [insert, enters]
      rfl
    rw [same]
    exact h.refuse enters
  | true =>
    have same : t.insert e = { t with
        entries := Heap.push Entry.rank
          (if t.isFull then Heap.pop Entry.rank t.entries else t.entries) e } := by
      rw [insert, enters]
      rfl
    rw [same]
    have le := h.le
    have room := h.capacity_eq
    by_cases full : t.isFull = true
    · -- an entry that enters a full heap ranks before the worst there, which it replaces
      have size : t.entries.size = capacity := by
        have := isFull_iff.1 full
        omega
      have some : 0 < t.entries.size := by
        refine Nat.pos_of_ne_zero fun empty => ?_
        have none : t.entries = #[] := Array.eq_empty_of_size_eq_zero empty
        rw [(h.refused_iff e).2 ⟨size, fun f kept => by simp [none] at kept⟩] at enters
        cases enters
      rw [if_pos full]
      refine h.replace some size (Std.OrientedCmp.lt_of_not_isLE fun worst => ?_)
      rw [(h.refused_iff e).2 ⟨size, fun f kept =>
        Std.TransCmp.isLE_trans (rank_worst h.isHeap some kept) worst⟩] at enters
      cases enters
    · rw [if_neg full]
      refine h.add ?_ e
      have := mt isFull_iff.2 full
      omega

theorem keeps_foldl_insert (h : Keeps capacity seen t) (entries : List (Entry α)) :
    Keeps capacity (seen ++ entries) (entries.foldl insert t) := by
  induction entries generalizing seen t with
  | nil => simpa using h
  | cons e rest ih =>
    have := ih (keeps_insert h e)
    rwa [List.append_assoc, List.singleton_append] at this

theorem Keeps.exists_rest (h : Keeps capacity seen t) :
    ∃ rest, (t.toList ++ rest).Perm seen ∧
      (t.toList ++ rest).Pairwise (fun e f => e.notWorse f = true) ∧
      t.toList = (t.toList ++ rest).take capacity := by
  obtain ⟨rejected, perm, le, full⟩ := h.dropped
  have keptPerm := Heap.sorted_perm Entry.rank t.entries
  have keptOrder := Heap.sorted_pairwise h.isHeap
  have restOrder := List.pairwise_mergeSort Entry.notWorse_trans Entry.notWorse_total rejected
  have restPerm := List.mergeSort_perm rejected Entry.notWorse
  have length : t.toList.length = t.entries.size := by
    rw [← Array.length_toList]
    exact keptPerm.length_eq
  refine ⟨rejected.mergeSort Entry.notWorse, (List.Perm.append keptPerm restPerm).trans perm,
    List.pairwise_append.2 ⟨keptOrder, restOrder, fun e kept f other => ?_⟩, ?_⟩
  · exact le e (keptPerm.mem_iff.1 kept) f (List.mem_mergeSort.1 other)
  · by_cases none : rejected = []
    · subst none
      have := h.le
      rw [List.mergeSort_nil, List.append_nil, List.take_of_length_le (by omega)]
    · rw [List.take_left' (length.trans (full none))]

theorem Keeps.toList_eq (h : Keeps capacity seen t)
    (distinct : ∀ e ∈ seen, ∀ f ∈ seen, e.rank f = .eq → e = f) :
    t.toList = (seen.mergeSort Entry.notWorse).take capacity := by
  obtain ⟨rest, perm, order, first⟩ := h.exists_rest
  have all := perm.trans (List.mergeSort_perm seen Entry.notWorse).symm
  have same : t.toList ++ rest = seen.mergeSort Entry.notWorse := by
    refine List.Perm.eq_of_pairwise ?_ order
      (List.pairwise_mergeSort Entry.notWorse_trans Entry.notWorse_total seen) all
    intro e f inLeft inRight ef fe
    have he : e ∈ seen := perm.mem_iff.1 inLeft
    exact distinct e he f (List.mem_mergeSort.1 inRight) (Std.OrientedCmp.isLE_antisymm ef fe)
  rw [← same]
  exact first

/-- Of all candidates the accumulator lists the best, as many as it has room for. -/
theorem toList_foldl_insert (capacity : Nat) (entries : List (Entry α))
    (distinct : ∀ e ∈ entries, ∀ f ∈ entries, e.rank f = .eq → e = f) :
    (entries.foldl insert (empty capacity)).toList =
      (entries.mergeSort Entry.notWorse).take capacity :=
  (keeps_foldl_insert (keeps_empty capacity) entries).toList_eq distinct

end Insert

end TopK

end RankedRetrieval
