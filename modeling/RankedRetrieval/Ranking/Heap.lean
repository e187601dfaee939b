set_option autoImplicit false

namespace RankedRetrieval.Heap

variable {β : Type} (cmp : β → β → Ordering)

def rise {n : Nat} (v : Vector β n) (i : Nat) (hi : i < n) : Vector β n :=
  if _top : i = 0 then v
  else
    let parent := (i - 1) / 2
    have hp : parent < n := by omega
    if (cmp v[i] v[parent]).isLE then v else rise (v.swap i parent) parent hp
termination_by i
decreasing_by omega

def greaterChild {n : Nat} (v : Vector β n) (i limit : Nat) (h : limit ≤ n) : Option Nat :=
  let child := 2 * i + 1
  if right : child + 1 < limit then
    some (if (cmp v[child] v[child + 1]).isLE then child + 1 else child)
  else if child < limit then some child
  else none

variable {cmp} in
theorem lt_of_greaterChild {n : Nat} {v : Vector β n} {i limit child : Nat} {h : limit ≤ n}
    (e : greaterChild cmp v i limit h = some child) : i < child ∧ child < limit := by
  simp only [greaterChild] at e
  split at e
  · cases e
    split <;> omega
  · split at e <;> cases e
    omega

def sinkAndRise {n : Nat} (v : Vector β n) (i : Nat) (hi : i < n) : Vector β n :=
  match e : greaterChild cmp v i n (Nat.le_refl n) with
  | none => rise cmp v i hi
  | some child =>
    have lt := lt_of_greaterChild e
    sinkAndRise (v.swap i child) child lt.2
termination_by n - i
decreasing_by omega

def sink {n : Nat} (v : Vector β n) (i limit : Nat) (h : limit ≤ n) : Vector β n :=
  match e : greaterChild cmp v i limit h with
  | none => v
  | some child =>
    have lt := lt_of_greaterChild e
    if (cmp v[i] v[child]).isGE then v else sink (v.swap i child) child limit h
termination_by limit - i
decreasing_by omega

def push (heap : Array β) (x : β) : Array β :=
  (rise cmp (heap.push x).toVector heap.size (by simp)).toArray

def pop (heap : Array β) : Array β :=
  if h : 1 < heap.size then
    let rest := heap.pop.set 0 heap[heap.size - 1] (by rw [Array.size_pop]; omega)
    (sinkAndRise cmp rest.toVector 0 (by rw [Array.size_set, Array.size_pop]; omega)).toArray
  else #[]

def sortFrom {n : Nat} (v : Vector β n) : (limit : Nat) → limit ≤ n → Vector β n
  | 0, _ => v
  | 1, _ => v
  | limit + 2, h =>
    let v := sink cmp (v.swap 0 (limit + 1)) 0 (limit + 1) (by omega)
    sortFrom v (limit + 1) (by omega)

def sorted (heap : Array β) : List β :=
  (sortFrom cmp heap.toVector heap.size (Nat.le_refl _)).toList

end RankedRetrieval.Heap
