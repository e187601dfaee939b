import Mathlib
import RankedRetrieval.Collection.Builder

set_option autoImplicit false

namespace RankedRetrieval

def Ascending {β : Type} (key : β → DocId) (entries : Array β) : Prop :=
  entries.toList.Pairwise fun x y => key x < key y

theorem Ascending.find?_of_mem {β : Type} {key : β → DocId} {entries : Array β}
    (ascending : Ascending key entries) {entry : β} (member : entry ∈ entries.toList) :
    (entries.find? fun e => key e = key entry) = some entry := by
  obtain ⟨entries⟩ := entries
  rw [List.find?_toArray]
  change entries.Pairwise _ at ascending
  change entry ∈ entries at member
  induction entries with
  | nil => cases member
  | cons first rest ih =>
    obtain ⟨least, tail⟩ := List.pairwise_cons.1 ascending
    rcases List.mem_cons.1 member with rfl | later
    · exact List.find?_cons_of_pos (by simp)
    · have apart : key first ≠ key entry := UInt32.ne_of_lt (least entry later)
      rw [List.find?_cons_of_neg (by simpa using apart), ih tail later]

namespace Table

variable {κ β : Type} [DecidableEq κ]

theorem mem_of_get? {key : κ} {t : Table κ β} {v : β} (h : t.get? key = some v) :
    (key, v) ∈ t := by
  induction t with
  | nil => cases h
  | cons entry rest ih =>
    obtain ⟨k, w⟩ := entry
    simp only [get?] at h
    split at h
    · rename_i same
      cases h
      rw [same]
      exact List.mem_cons_self
    · exact List.mem_cons_of_mem _ (ih h)

variable [LT κ] [DecidableLT κ]

theorem forall_alter {P : β → Prop} {key : κ} {f : Option β → β} {t : Table κ β}
    (all : ∀ entry ∈ t, P entry.2) (new : P (f none)) (changed : ∀ v, P v → P (f (some v))) :
    ∀ entry ∈ t.alter key f, P entry.2 := by
  induction t with
  | nil =>
    intro entry h
    rw [alter, List.mem_singleton] at h
    rw [h]
    exact new
  | cons first rest ih =>
    obtain ⟨k, v⟩ := first
    have head := all (k, v) List.mem_cons_self
    have tail : ∀ entry ∈ rest, P entry.2 := fun entry h => all entry (List.mem_cons_of_mem _ h)
    intro entry h
    simp only [alter] at h
    split at h
    · rcases List.mem_cons.1 h with rfl | h
      · exact changed v head
      · exact tail entry h
    · split at h
      · rcases List.mem_cons.1 h with rfl | h
        · exact new
        · exact all entry h
      · rcases List.mem_cons.1 h with rfl | h
        · exact head
        · exact ih tail entry h

theorem mem_alter {key : κ} {f : Option β → β} {t : Table κ β} {entry : κ × β}
    (h : entry ∈ t.alter key f) : entry.1 = key ∨ entry ∈ t := by
  induction t with
  | nil =>
    rw [alter, List.mem_singleton] at h
    rw [h]
    exact .inl rfl
  | cons first rest ih =>
    obtain ⟨k, v⟩ := first
    simp only [alter] at h
    split at h
    · rename_i same
      rcases List.mem_cons.1 h with rfl | h
      · exact .inl same
      · exact .inr (List.mem_cons_of_mem _ h)
    · split at h
      · rcases List.mem_cons.1 h with rfl | h
        · exact .inl rfl
        · exact .inr h
      · rcases List.mem_cons.1 h with rfl | h
        · exact .inr List.mem_cons_self
        · exact (ih h).imp_right (List.mem_cons_of_mem _)

def Keyed (t : Table κ β) : Prop := t.Pairwise fun x y => x.1 < y.1

theorem keyed_alter [IsTrans κ fun a b => a < b] [Std.Trichotomous fun a b : κ => a < b]
    {t : Table κ β} (keyed : t.Keyed) (key : κ) (f : Option β → β) : (t.alter key f).Keyed := by
  unfold Keyed at keyed ⊢
  induction t with
  | nil => exact List.pairwise_singleton _ _
  | cons first rest ih =>
    obtain ⟨k, v⟩ := first
    obtain ⟨least, tail⟩ := List.pairwise_cons.1 keyed
    simp only [alter]
    split
    · exact List.pairwise_cons.2 ⟨least, tail⟩
    · rename_i other
      split
      · rename_i before
        refine List.pairwise_cons.2 ⟨?_, keyed⟩
        intro entry h
        rcases List.mem_cons.1 h with rfl | h
        · exact before
        · exact trans_of (fun a b : κ => a < b) before (least entry h)
      · rename_i notBefore
        refine List.pairwise_cons.2 ⟨?_, ih tail⟩
        intro entry h
        rcases mem_alter h with same | h
        · rw [same]
          exact Classical.byContradiction fun apart =>
            other (Std.Trichotomous.trichotomous k key apart notBefore)
        · exact least entry h

structure Sorted (allowed : DocId → Prop) (t : Table DocId β) : Prop where
  ascending : t.Keyed
  allowed : ∀ entry ∈ t, allowed entry.1

theorem sorted_nil (allowed : DocId → Prop) : Sorted allowed ([] : Table DocId β) :=
  ⟨List.Pairwise.nil, List.forall_mem_nil _⟩

theorem Sorted.alter {allowed : DocId → Prop} {t : Table DocId β} (h : Sorted allowed t)
    {d : DocId} (ok : allowed d) (f : Option β → β) : Sorted allowed (t.alter d f) := by
  refine ⟨keyed_alter h.ascending d f, fun entry member => ?_⟩
  rcases mem_alter member with same | member
  · rw [same]
    exact ok
  · exact h.allowed entry member

end Table

variable {allowed : DocId → Prop}

def FieldDraft.Ordered (allowed : DocId → Prop) (f : FieldDraft) : Prop :=
  Table.Sorted allowed f.lengths ∧ ∀ entry ∈ f.terms, Table.Sorted allowed entry.2

namespace FieldDraft

theorem ordered_empty (allowed : DocId → Prop) : Ordered allowed .empty :=
  ⟨Table.sorted_nil allowed, List.forall_mem_nil _⟩

theorem ordered_addToken {f : FieldDraft} (h : f.Ordered allowed) {d : DocId} (ok : allowed d)
    (token : String) : (f.addToken d token).Ordered allowed := by
  refine ⟨h.1.alter ok _, Table.forall_alter h.2 ?_ ?_⟩
  · exact (Table.sorted_nil allowed).alter ok _
  · intro documents sorted
    exact sorted.alter ok _

theorem ordered_addTokens {f : FieldDraft} (h : f.Ordered allowed) {d : DocId} (ok : allowed d)
    (tokens : List String) : (f.addTokens d tokens).Ordered allowed := by
  have start : Ordered allowed { f with lengths := f.lengths.insert d (f.length d) } :=
    ⟨h.1.alter ok _, h.2⟩
  unfold addTokens
  generalize { f with lengths := f.lengths.insert d (f.length d) } = g at start
  induction tokens generalizing g with
  | nil => exact start
  | cons token rest ih => exact ih _ (ordered_addToken start ok token)

end FieldDraft

def PriorsDraft.Ordered (allowed : DocId → Prop) (p : PriorsDraft) : Prop :=
  Table.Sorted allowed p.entries

structure CollectionDraft.Ordered (allowed : DocId → Prop) (c : CollectionDraft) : Prop where
  fields : ∀ entry ∈ c.fields, entry.2.Ordered allowed
  priors : ∀ entry ∈ c.priors, entry.2.Ordered allowed

namespace CollectionDraft

theorem ordered_addTokens {c : CollectionDraft} (h : c.Ordered allowed) {d : DocId}
    (ok : allowed d) (field : String) (tokens : List String) :
    (c.addTokens d field tokens).Ordered allowed where
  fields := Table.forall_alter (P := FieldDraft.Ordered allowed) h.fields
    (FieldDraft.ordered_addTokens (FieldDraft.ordered_empty allowed) ok tokens)
    fun _ old => FieldDraft.ordered_addTokens old ok tokens
  priors := h.priors

theorem ordered_setPrior {c : CollectionDraft} (h : c.Ordered allowed) (name : String)
    {d : DocId} (ok : allowed d) (value : Float) :
    (c.setPrior name d value).Ordered allowed where
  fields := h.fields
  priors := by
    refine Table.forall_alter (P := PriorsDraft.Ordered allowed) h.priors ?_ ?_
    · exact (Table.sorted_nil (β := Float) allowed).alter ok fun old => old.getD value
    · intro p sorted
      exact sorted.alter ok fun old => old.getD value

theorem ordered_setPriorDefault {c : CollectionDraft} (h : c.Ordered allowed) (name : String)
    (value : Float) : (c.setPriorDefault name value).Ordered allowed where
  fields := h.fields
  priors := Table.forall_alter (P := PriorsDraft.Ordered allowed) h.priors
    (Table.sorted_nil allowed) fun _ sorted => sorted

theorem ordered_apply {c : CollectionDraft} (h : c.Ordered allowed) (step : DraftStep)
    (ok : ∀ d, step.listed? = some d → allowed d) : (c.apply step).Ordered allowed := by
  cases step with
  | document name => exact ⟨h.fields, h.priors⟩
  | tokens d field tokens => exact ordered_addTokens h (ok d rfl) field tokens
  | text d field text => exact ordered_addTokens h (ok d rfl) field _
  | prior name d value => exact ordered_setPrior h name (ok d rfl) value
  | priorDefault name value => exact ordered_setPriorDefault h name value

theorem ordered_foldl {c : CollectionDraft} (h : c.Ordered allowed) (steps : List DraftStep)
    (ok : ∀ step ∈ steps, ∀ d, step.listed? = some d → allowed d) :
    (steps.foldl apply c).Ordered allowed := by
  induction steps generalizing c with
  | nil => exact h
  | cons step rest ih =>
    obtain ⟨first, others⟩ := List.forall_mem_cons.1 ok
    exact ih (ordered_apply h step first) others

end CollectionDraft

def Lists {β : Type} (allowed : DocId → Prop) (key : β → DocId) (entries : Array β) : Prop :=
  Ascending key entries ∧ ∀ entry ∈ entries, allowed (key entry)

theorem lists_nil {β : Type} (allowed : DocId → Prop) (key : β → DocId) : Lists allowed key #[] :=
  ⟨List.Pairwise.nil, fun _ h => nomatch h⟩

theorem Table.Sorted.lists {β : Type} {t : Table DocId β} (h : Table.Sorted allowed t) :
    Lists allowed Prod.fst t.toArray :=
  ⟨h.ascending, fun entry member => h.allowed entry (by simpa using member)⟩

structure Collection.AllLists (allowed : DocId → Prop) (c : Collection) : Prop where
  lengths : ∀ field, Lists allowed Prod.fst (c.lengths field)
  postings : ∀ field term, Lists allowed Posting.document (c.postings field term)
  prior : ∀ name, Lists allowed Prod.fst (c.prior name).entries

structure Collection.Ordered (c : Collection) : Prop where
  lengths : ∀ field, Ascending Prod.fst (c.lengths field)
  postings : ∀ field term, Ascending Posting.document (c.postings field term)
  prior : ∀ name, Ascending Prod.fst (c.prior name).entries

/-- No list of a collection names the end as a document. -/
structure Collection.BelowEnd (c : Collection) : Prop where
  lengths : ∀ field, ∀ entry ∈ c.lengths field, entry.1 ≠ terminated
  postings : ∀ field term, ∀ posting ∈ c.postings field term, posting.document ≠ terminated
  prior : ∀ name, ∀ entry ∈ (c.prior name).entries, entry.1 ≠ terminated

namespace Collection

theorem allLists_finish {c : CollectionDraft} (h : c.Ordered allowed) :
    c.finish.AllLists allowed where
  lengths field := by
    unfold lengths
    cases found : c.finish.fields.get? field with
    | none => exact lists_nil allowed _
    | some f =>
      obtain ⟨entry, member, same⟩ := List.mem_map.1 (Table.mem_of_get? found)
      cases same
      exact (h.fields entry member).1.lists
  postings field term := by
    unfold postings
    cases found : c.finish.fields.get? field with
    | none => exact lists_nil allowed _
    | some f =>
      obtain ⟨entry, member, same⟩ := List.mem_map.1 (Table.mem_of_get? found)
      cases same
      rw [Option.bind_some]
      cases listed : Table.get? term entry.2.finish.postings with
      | none => exact lists_nil allowed _
      | some documents =>
        obtain ⟨draft, inTerms, same⟩ := List.mem_map.1 (Table.mem_of_get? listed)
        cases same
        have sorted := (h.fields entry member).2 draft inTerms
        refine ⟨List.pairwise_map.2 sorted.ascending, fun posting inside => ?_⟩
        obtain ⟨e, there, rfl⟩ := List.mem_map.1 (List.mem_toArray.1 inside)
        exact sorted.allowed e there
  prior name := by
    unfold prior
    cases found : c.finish.priors.get? name with
    | none => exact lists_nil allowed _
    | some p =>
      obtain ⟨entry, member, same⟩ := List.mem_map.1 (Table.mem_of_get? found)
      cases same
      exact Table.Sorted.lists (h.priors entry member)

theorem allLists_ofSteps (allowed : DocId → Prop) (steps : List DraftStep)
    (ok : ∀ step ∈ steps, ∀ d, step.listed? = some d → allowed d) :
    (ofSteps steps).AllLists allowed :=
  allLists_finish (CollectionDraft.ordered_foldl
    ⟨List.forall_mem_nil _, List.forall_mem_nil _⟩ steps ok)

theorem ordered_ofSteps (steps : List DraftStep) : (ofSteps steps).Ordered := by
  have all := allLists_ofSteps (fun _ => True) steps fun _ _ _ _ => trivial
  exact ⟨fun field => (all.lengths field).1, fun field term => (all.postings field term).1,
    fun name => (all.prior name).1⟩

theorem belowEnd_ofSteps {steps : List DraftStep}
    (h : ∀ step ∈ steps, step.listed? ≠ some terminated) : (ofSteps steps).BelowEnd := by
  have all := allLists_ofSteps (fun d => d ≠ terminated) steps ?_
  · exact ⟨fun field => (all.lengths field).2, fun field term => (all.postings field term).2,
      fun name => (all.prior name).2⟩
  · intro step member d listed done
    rw [done] at listed
    exact h step member listed

end Collection

end RankedRetrieval
