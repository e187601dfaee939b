import RankedRetrieval.Proofs.Ranking.Best
import RankedRetrieval.Proofs.Score.Bits

set_option autoImplicit false

/-!
# What is kept depends on keys

Entries rank by their keys: the score, the document and where the passage starts. Of any entries an
accumulator lists the first keys, in whatever order the entries came, and it tells of each candidate
whether it is among the best (`keepsBest`). All that scores have to provide for this is an order
that tells any two of them apart. Doubles have one, by their bits (`keepsBest_doubles`).
-/

namespace RankedRetrieval

open Arithmetic

structure Key (α : Type) where
  score : α
  document : DocId
  start : Option Nat

namespace Entry

variable {α : Type}

def key (e : Entry α) : Key α :=
  { score := e.score, document := e.document, start := e.passage.map Span.start }

theorem start_eq {e f : Entry α} (h : e.passageRank = f.passageRank) :
    e.passage.map Span.start = f.passage.map Span.start := by
  obtain ⟨_, _, passage⟩ := e
  obtain ⟨_, _, passage'⟩ := f
  cases passage <;> cases passage'
  · rfl
  · cases h
  · cases h
  · exact congrArg some (Nat.succ.inj h)

end Entry

namespace Key

variable {α : Type}

def entry (k : Key α) : Entry α :=
  { score := k.score, document := k.document, passage := k.start.map Span.token }

theorem key_entry (k : Key α) : k.entry.key = k := by
  obtain ⟨score, document, start⟩ := k
  cases start <;> rfl

variable [Arithmetic α]

def rank (k l : Key α) : Ordering := k.entry.rank l.entry

def notWorse (k l : Key α) : Bool := (k.rank l).isLE

theorem rank_key (e f : Entry α) : e.key.rank f.key = e.rank f := by
  obtain ⟨score, document, passage⟩ := e
  obtain ⟨score', document', passage'⟩ := f
  cases passage <;> cases passage' <;> rfl

section Order

variable [Std.TransCmp (order (α := α))]

theorem notWorse_trans (k l m : Key α) : k.notWorse l → l.notWorse m → k.notWorse m :=
  Entry.notWorse_trans k.entry l.entry m.entry

theorem notWorse_total (k l : Key α) : k.notWorse l || l.notWorse k :=
  Entry.notWorse_total k.entry l.entry

variable [Std.LawfulEqCmp (order (α := α))]

omit [Std.TransCmp (order (α := α))] in
theorem key_eq_of_rank_eq {e f : Entry α} (h : e.rank f = .eq) : e.key = f.key := by
  obtain ⟨score, places⟩ := Ordering.then_eq_eq.1 h
  obtain ⟨document, passage⟩ := Ordering.then_eq_eq.1 places
  have sameScore : f.score = e.score := Std.LawfulEqCmp.eq_of_compare score
  have sameDocument := UInt32.toNat_inj.1 (Nat.compare_eq_eq.1 document)
  have sameStart := Entry.start_eq (Nat.compare_eq_eq.1 passage)
  rw [Entry.key, Entry.key, sameScore, sameDocument, sameStart]

theorem eq_of_notWorse {k l : Key α} (h : k.notWorse l) (h' : l.notWorse k) : k = l := by
  have le : (k.entry.rank l.entry).isLE := h
  have ge : (l.entry.rank k.entry).isLE := h'
  have same := Std.OrientedCmp.isLE_antisymm le ge
  rw [← k.key_entry, ← l.key_entry]
  exact key_eq_of_rank_eq same

theorem eq_of_sorted {keys keys' : List (Key α)} (same : keys.Perm keys')
    (order : keys.Pairwise fun k l => k.notWorse l = true)
    (order' : keys'.Pairwise fun k l => k.notWorse l = true) : keys = keys' :=
  List.Perm.eq_of_pairwise (fun _ _ _ _ => eq_of_notWorse) order order' same

end Order

end Key

namespace TopK

variable {α : Type} [Arithmetic α]

theorem tryInsert_eq (t : TopK α) (e : Entry α) :
    t.tryInsert e = (t.wouldEnter e, t.insert e) := by
  unfold tryInsert insert
  cases t.wouldEnter e <;> rfl

def offered (capacity : Nat) (entries : List (Entry α)) : TopK α :=
  entries.foldl (fun t e => (t.tryInsert e).2) (empty capacity)

/-- The first keys of entries are kept, in whatever order the entries come. Another candidate enters
if there is more room than there are entries no worse than it. Once there is no more room, the
threshold is the score of the last that is kept. -/
structure KeepsBest (capacity : Nat) (entries : List (Entry α)) : Prop where
  listed : (offered capacity entries).toList.map Entry.key =
    ((entries.map Entry.key).mergeSort Key.notWorse).take capacity
  unordered : ∀ entries' : List (Entry α), entries'.Perm entries →
    (offered capacity entries').toList.map Entry.key =
      (offered capacity entries).toList.map Entry.key
  answered : ∀ e, ((offered capacity entries).tryInsert e).1 =
    (offered capacity entries).wouldEnter e
  enters : ∀ e, (offered capacity entries).wouldEnter e = true ↔
    entries.countP (fun f => f.notWorse e) < capacity
  refused : ∀ e, ((offered capacity entries).tryInsert e).1 = false →
    ((offered capacity entries).tryInsert e).2 = offered capacity entries
  threshold : (offered capacity entries).threshold =
    if 0 < capacity ∧ (offered capacity entries).size = capacity then
      (offered capacity entries).toList.getLast?.map Entry.score
    else none

variable [Std.TransCmp (order (α := α))] {capacity : Nat} {seen : List (Entry α)} {t : TopK α}

/-- A candidate is refused if as many of the entries as there is room for are no worse. -/
theorem Keeps.enters_iff (h : Keeps capacity seen t) (e : Entry α) :
    t.wouldEnter e = true ↔ seen.countP (fun f => f.notWorse e) < capacity := by
  obtain ⟨rejected, perm, le, full⟩ := h.dropped
  rw [← perm.countP_eq, List.countP_append]
  have size : t.entries.toList.length = t.entries.size := Array.length_toList
  constructor
  · intro enters
    by_cases room : t.entries.size = capacity
    · -- one that is kept is worse than the candidate, and so is all that is not kept
      have worse : ¬ ∀ f ∈ t.entries.toList, (f.rank e).isLE := fun all => by
        rw [(h.refused_iff e).2 ⟨room, all⟩] at enters
        cases enters
      push Not at worse
      obtain ⟨f, kept, worse⟩ := worse
      have some : t.entries.toList.countP (fun f => f.notWorse e) < t.entries.toList.length :=
        List.countP_lt_length_iff.2 ⟨f, kept, Bool.eq_false_of_not_eq_true worse⟩
      have none : rejected.countP (fun f => f.notWorse e) = 0 :=
        List.countP_eq_zero.2 fun g other notWorse =>
          worse (Std.TransCmp.isLE_trans (le f kept g other) notWorse)
      omega
    · have none : rejected = [] := Decidable.by_contra fun some => room (full some)
      have := List.countP_le_length (p := fun f : Entry α => f.notWorse e) (l := t.entries.toList)
      have := h.le
      rw [none, List.countP_nil]
      omega
  · intro few
    refine Bool.of_not_eq_false fun out => ?_
    obtain ⟨room, all⟩ := (h.refused_iff e).1 out
    have := List.countP_eq_length.2 all
    unfold Entry.notWorse at few
    omega

variable [Std.LawfulEqCmp (order (α := α))]

/-- The worst of the heap and the last of the list have one key. -/
theorem Keeps.score_last (h : Keeps capacity seen t) (pos : 0 < t.entries.size) :
    t.toList.getLast?.map Entry.score = some t.entries[0].score := by
  have perm := Heap.sorted_perm Entry.rank t.entries
  have order := Heap.sorted_pairwise h.isHeap
  have first : t.entries[0] ∈ t.toList := perm.mem_iff.2 (by simp)
  have last := List.getLast_mem (List.ne_nil_of_mem first)
  have worst := rank_worst h.isHeap pos (perm.mem_iff.1 last)
  have behind := order.rel_getLast_of_rel_getLast_getLast first Std.ReflCmp.isLE_rfl
  have same := Key.key_eq_of_rank_eq (Std.OrientedCmp.isLE_antisymm worst behind)
  rw [List.getLast?_eq_getLast_of_ne_nil (List.ne_nil_of_mem first), Option.map_some]
  exact congrArg (fun k => some (Key.score k)) same

theorem Keeps.threshold_eq (h : Keeps capacity seen t) :
    t.threshold = if 0 < capacity ∧ t.size = capacity then t.toList.getLast?.map Entry.score
      else none := by
  have room := h.capacity_eq
  have le := h.le
  unfold threshold
  by_cases full : 0 < capacity ∧ t.size = capacity
  · have pos : 0 < t.entries.size := Nat.lt_of_lt_of_eq full.1 full.2.symm
    have isFull : t.isFull = true := isFull_iff.2 (Nat.le_of_eq (room.trans full.2.symm))
    rw [if_pos full, if_pos isFull, worst?_eq_some pos, h.score_last pos]
    rfl
  · rw [if_neg full]
    split
    · rename_i isFull
      have empty : t.entries.size = 0 := by
        have := isFull_iff.1 isFull
        unfold size at full
        omega
      have worst : t.worst? = none := Array.getElem?_eq_none (Nat.le_of_eq empty)
      rw [worst]
      rfl
    · rfl

theorem Keeps.listed (h : Keeps capacity seen t) :
    t.toList.map Entry.key = ((seen.map Entry.key).mergeSort Key.notWorse).take capacity := by
  obtain ⟨rest, perm, order, first⟩ := h.exists_rest
  have sorted : ((t.toList ++ rest).map Entry.key).Pairwise fun k l => k.notWorse l = true := by
    refine List.pairwise_map.2 (order.imp fun {e f} notWorse => ?_)
    rw [Key.notWorse, Key.rank_key]
    exact notWorse
  have same : (t.toList ++ rest).map Entry.key = (seen.map Entry.key).mergeSort Key.notWorse :=
    Key.eq_of_sorted ((perm.map Entry.key).trans (List.mergeSort_perm _ _).symm) sorted
      (List.pairwise_mergeSort Key.notWorse_trans Key.notWorse_total _)
  rw [← same, ← List.map_take, ← first]

omit [Std.LawfulEqCmp (order (α := α))] in
theorem keeps_offered (capacity : Nat) (entries : List (Entry α)) :
    Keeps capacity entries (offered capacity entries) := by
  have same : (fun (t : TopK α) e => (t.tryInsert e).2) = insert := by
    funext t e
    rw [tryInsert_eq]
  rw [offered, same]
  exact keeps_foldl_insert (keeps_empty capacity) entries

/-- Whatever is offered, what is kept is the best of it. -/
theorem keepsBest (capacity : Nat) (entries : List (Entry α)) : KeepsBest capacity entries := by
  have keeps := keeps_offered capacity entries
  refine ⟨keeps.listed, fun entries' same => ?_, fun e => ?_, keeps.enters_iff, fun e out => ?_,
    keeps.threshold_eq⟩
  · rw [keeps.listed, (keeps_offered capacity entries').listed]
    have sorted (keys : List (Key α)) :=
      List.pairwise_mergeSort Key.notWorse_trans Key.notWorse_total keys
    have perm (keys : List (Key α)) := List.mergeSort_perm keys Key.notWorse
    rw [Key.eq_of_sorted ((perm _).trans ((same.map Entry.key).trans (perm _).symm)) (sorted _)
      (sorted _)]
  · rw [tryInsert_eq]
  · rw [tryInsert_eq] at out ⊢
    dsimp only at out ⊢
    rw [insert, out]
    rfl

/-- Doubles may be any, also zeros of either sign and all that is not a number, and there may be no
room at all. -/
theorem keepsBest_doubles (capacity : Nat) :
    (∀ entries : List (Entry RawDouble), KeepsBest capacity entries) ∧
      ∀ entries : List (Entry Float), KeepsBest capacity entries :=
  ⟨keepsBest capacity, keepsBest capacity⟩

/-- What is not a number ranks by its sign, like the zeros. -/
example :
    let zero : Entry RawDouble := { score := ⟨0⟩, document := 1, passage := none }
    let negative : Entry RawDouble := { zero with score := ⟨0x8000000000000000⟩, document := 2 }
    let nan : Entry RawDouble := { zero with score := ⟨0x7FF8000000000001⟩, document := 3 }
    let negativeNan : Entry RawDouble := { zero with score := ⟨0xFFF8000000000000⟩, document := 4 }
    (offered 3 [negativeNan, negative, zero, nan]).toList.map Entry.document = [3, 1, 2] := by
  decide +kernel

end TopK

end RankedRetrieval
