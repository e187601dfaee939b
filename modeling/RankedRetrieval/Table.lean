set_option autoImplicit false

namespace RankedRetrieval

abbrev Table (κ β : Type) := List (κ × β)

namespace Table

variable {κ β : Type} [DecidableEq κ]

def get? (key : κ) : Table κ β → Option β
  | [] => none
  | (k, v) :: rest => if k = key then some v else get? key rest

def erase (key : κ) (t : Table κ β) : Table κ β := t.filter fun entry => entry.1 ≠ key

def alter [LT κ] [DecidableLT κ] (key : κ) (f : Option β → β) : Table κ β → Table κ β
  | [] => [(key, f none)]
  | (k, v) :: rest =>
    if k = key then (k, f (some v)) :: rest
    else if key < k then (key, f none) :: (k, v) :: rest
    else (k, v) :: alter key f rest

def insert [LT κ] [DecidableLT κ] (key : κ) (value : β) (t : Table κ β) : Table κ β :=
  t.alter key fun _ => value

theorem get?_insert [LT κ] [DecidableLT κ] (key other : κ) (value : β) (t : Table κ β) :
    (t.insert key value).get? other = if key = other then some value else t.get? other := by
  unfold insert
  induction t with
  | nil => simp [alter, get?]
  | cons entry rest ih =>
    obtain ⟨k, v⟩ := entry
    simp only [alter]
    by_cases same : k = key
    · subst same
      by_cases h : k = other <;> simp [get?, h]
    · simp only [same, if_false]
      by_cases before : key < k
      · simp [before, get?]
      · simp only [before, if_false, get?, ih]
        by_cases h : key = other
        · subst h; simp [same]
        · simp [h]

theorem get?_erase (key other : κ) (t : Table κ β) :
    (t.erase key).get? other = if key = other then none else t.get? other := by
  induction t with
  | nil => simp [erase, get?]
  | cons entry rest ih =>
    obtain ⟨k, v⟩ := entry
    unfold erase at *
    rw [List.filter_cons]
    by_cases same : k = key
    · subst same
      by_cases h : k = other
      · subst h; simpa using ih
      · simpa [get?, h] using ih
    · by_cases h : k = other
      · subst h
        have : ¬ key = k := fun e => same e.symm
        simp [same, get?, this]
      · simpa [same, get?, h] using ih

end Table

end RankedRetrieval
