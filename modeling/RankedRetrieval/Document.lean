set_option autoImplicit false

namespace RankedRetrieval

abbrev DocId := UInt32

/-- Where a cursor stands after its last document. -/
def terminated : DocId := 0xFFFFFFFF

theorem le_terminated (d : DocId) : d ≤ terminated := by
  rw [UInt32.le_iff_toNat_le]
  have := d.toNat_lt
  simp only [terminated, UInt32.reduceToNat]
  omega

theorem lt_terminated {d : DocId} (h : d ≠ terminated) : d < terminated := by
  have le := le_terminated d
  rw [UInt32.le_iff_toNat_le] at le
  rw [UInt32.lt_iff_toNat_lt]
  have ne : d.toNat ≠ terminated.toNat := fun e => h (UInt32.toNat_inj.1 e)
  omega

def next (d : DocId) : DocId := if d = terminated then terminated else d + 1

theorem toNat_next {d : DocId} (h : d ≠ terminated) : (next d).toNat = d.toNat + 1 := by
  have lt := lt_terminated h
  rw [UInt32.lt_iff_toNat_lt] at lt
  simp only [terminated, UInt32.reduceToNat] at lt
  simp only [next, h, if_false, UInt32.toNat_add, UInt32.reduceToNat]
  omega

theorem lt_next {d : DocId} (h : d ≠ terminated) : d < next d := by
  rw [UInt32.lt_iff_toNat_lt, toNat_next h]
  omega

theorem next_le_iff {d e : DocId} (h : d ≠ terminated) : next d ≤ e ↔ d < e := by
  rw [UInt32.le_iff_toNat_le, UInt32.lt_iff_toNat_lt, toNat_next h]
  omega

/-- How far a document is from the end: what a forward walk has left. -/
def distance (d : DocId) : Nat := terminated.toNat - d.toNat

theorem distance_lt {d e : DocId} (h : d < e) : distance e < distance d := by
  have le := le_terminated e
  rw [UInt32.le_iff_toNat_le] at le
  rw [UInt32.lt_iff_toNat_lt] at h
  unfold distance
  omega

end RankedRetrieval
