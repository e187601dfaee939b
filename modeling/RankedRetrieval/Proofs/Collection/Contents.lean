import RankedRetrieval.Proofs.Collection.Ascending

set_option autoImplicit false

namespace RankedRetrieval

namespace Table

section Keys

variable {κ β γ : Type} [DecidableEq κ]

theorem get?_map (g : β → γ) (key : κ) (t : Table κ β) :
    get? key (t.map fun entry => (entry.1, g entry.2)) = (t.get? key).map g := by
  induction t with
  | nil => rfl
  | cons entry rest ih =>
    rw [List.map_cons, get?, get?]
    split
    · rfl
    · exact ih

theorem find?_eq (t : Table κ β) (key : κ) :
    (t.find? fun entry => entry.1 = key) = (t.get? key).map fun value => (key, value) := by
  induction t with
  | nil => rfl
  | cons entry rest ih =>
    obtain ⟨k, v⟩ := entry
    by_cases same : k = key
    · rw [List.find?_cons_of_pos (by simpa using same), get?, if_pos same, Option.map_some, same]
    · rw [List.find?_cons_of_neg (by simpa using same), get?, if_neg same, ih]

variable [LT κ] [Std.Irrefl fun a b : κ => a < b]

theorem get?_eq_none_of_lt {key : κ} {t : Table κ β} (after : ∀ entry ∈ t, key < entry.1) :
    t.get? key = none := by
  induction t with
  | nil => rfl
  | cons entry rest ih =>
    obtain ⟨here, later⟩ := List.forall_mem_cons.1 after
    have apart : entry.1 ≠ key := by
      intro same
      rw [same] at here
      exact irrefl_of (fun a b : κ => a < b) key here
    rw [get?, if_neg apart, ih later]

theorem get?_alter [DecidableLT κ] [IsTrans κ fun a b => a < b] {t : Table κ β}
    (keyed : t.Keyed) (key other : κ) (f : Option β → β) :
    (t.alter key f).get? other =
      if key = other then some (f (t.get? key)) else t.get? other := by
  induction t with
  | nil => rfl
  | cons entry rest ih =>
    obtain ⟨k, v⟩ := entry
    obtain ⟨least, tail⟩ := List.pairwise_cons.1 keyed
    by_cases same : k = key
    · subst same
      rw [alter, if_pos rfl, get?, get?, get?, if_pos rfl]
      split <;> rfl
    by_cases before : key < k
    · have missing : Table.get? key ((k, v) :: rest) = none :=
        get?_eq_none_of_lt (List.forall_mem_cons.2
          ⟨before, fun entry member => trans_of (fun a b : κ => a < b) before (least entry member)⟩)
      rw [alter, if_neg same, if_pos before, missing, get?]
    · rw [alter, if_neg same, if_neg before, get?, ih tail, get?, get?, if_neg same]
      by_cases here : k = other
      · subst here
        rw [if_pos rfl, if_pos rfl, if_neg (Ne.symm same)]
      · rw [if_neg here, if_neg here]

end Keys

end Table

/-- Where a term occurs among tokens, the first of which stands at a position. -/
def occurrences (term : String) : Nat → List String → List Span
  | _, [] => []
  | position, token :: tokens =>
    if token = term then .token position :: occurrences term (position + 1) tokens
    else occurrences term (position + 1) tokens

theorem occurrences_append (term : String) (position : Nat) (tokens more : List String) :
    occurrences term position (tokens ++ more) =
      occurrences term position tokens ++ occurrences term (position + tokens.length) more := by
  induction tokens generalizing position with
  | nil => rfl
  | cons token tokens ih =>
    rw [List.cons_append, occurrences, occurrences, ih, List.length_cons,
      show position + 1 + tokens.length = position + (tokens.length + 1) by omega]
    split <;> rfl

def someSpans (spans : List Span) : Option (List Span) := if spans = [] then none else some spans

theorem getD_someSpans (spans : List Span) : (someSpans spans).getD [] = spans := by
  unfold someSpans
  split
  · rename_i none
    exact none.symm
  · rfl

def DraftStep.tokens? (field : String) (d : DocId) : DraftStep → Option (List String)
  | .tokens e f words => if e = d ∧ f = field then some words else none
  | .text e f content =>
    if e = d ∧ f = field then some ((Text.words content).map Text.lowercase) else none
  | _ => none

def joined : List (List String) → Option (List String)
  | [] => none
  | pieces => some pieces.flatten

theorem getD_joined (pieces : List (List String)) : (joined pieces).getD [] = pieces.flatten := by
  cases pieces <;> rfl

theorem joined_concat (pieces : List (List String)) (tokens : List String) :
    joined (pieces ++ [tokens]) = some ((joined pieces).getD [] ++ tokens) := by
  rw [getD_joined]
  cases pieces with
  | nil => simp [joined]
  | cons first rest => simp [joined]

def givenTokens (steps : List DraftStep) (field : String) (d : DocId) : Option (List String) :=
  joined (steps.filterMap (DraftStep.tokens? field d))

def tokensOf (steps : List DraftStep) (field : String) (d : DocId) : List String :=
  (givenTokens steps field d).getD []

structure FieldDraft.Holds (f : FieldDraft) (given : DocId → Option (List String)) : Prop where
  ordered : f.Ordered fun _ => True
  keyed : f.terms.Keyed
  lengths : ∀ d, f.lengths.get? d = (given d).map List.length
  terms : ∀ term d, ((f.terms.get? term).bind fun documents => documents.get? d) =
    someSpans (occurrences term 0 ((given d).getD []))

namespace FieldDraft

variable {f : FieldDraft} {given : DocId → Option (List String)}

theorem holds_empty : FieldDraft.empty.Holds fun _ => none where
  ordered := ordered_empty _
  keyed := List.Pairwise.nil
  lengths _ := rfl
  terms _ _ := rfl

theorem Holds.length (h : f.Holds given) (d : DocId) : f.length d = ((given d).getD []).length := by
  rw [FieldDraft.length, h.lengths]
  cases given d <;> rfl

theorem Holds.keyed_documents (h : f.Holds given) (term : String) :
    ((f.terms.get? term).getD []).Keyed := by
  cases found : f.terms.get? term with
  | none => exact List.Pairwise.nil
  | some documents => exact (h.ordered.2 _ (Table.mem_of_get? found)).ascending

theorem Holds.spans (h : f.Holds given) (term : String) (d : DocId) :
    ((f.terms.get? term).getD []).get? d =
      someSpans (occurrences term 0 ((given d).getD [])) := by
  rw [← h.terms]
  cases f.terms.get? term <;> rfl

theorem holds_list (h : f.Holds given) (d : DocId) :
    Holds { f with lengths := f.lengths.insert d (f.length d) }
      (Function.update given d (some ((given d).getD []))) where
  ordered := ⟨h.ordered.1.alter trivial _, h.ordered.2⟩
  keyed := h.keyed
  lengths e := by
    rw [Table.get?_insert, Function.update_apply, h.length, h.lengths]
    by_cases same : d = e
    · rw [if_pos same, if_pos same.symm, Option.map_some]
    · rw [if_neg same, if_neg (Ne.symm same)]
  terms term e := by
    rw [h.terms, Function.update_apply]
    split
    · rename_i same
      rw [same, Option.getD_some]
    · rfl

theorem holds_addToken (h : f.Holds given) (d : DocId) (token : String) :
    (f.addToken d token).Holds
      (Function.update given d (some ((given d).getD [] ++ [token]))) where
  ordered := ordered_addToken h.ordered trivial token
  keyed := Table.keyed_alter h.keyed _ _
  lengths e := by
    rw [addToken, Table.get?_insert, Function.update_apply, h.length, h.lengths]
    by_cases same : d = e
    · rw [if_pos same, if_pos same.symm, Option.map_some, List.length_append]
      rfl
    · rw [if_neg same, if_neg (Ne.symm same)]
  terms term e := by
    rw [addToken, Table.get?_alter h.keyed, Function.update_apply]
    by_cases same : token = term
    · subst same
      rw [if_pos rfl, Option.bind_some, Table.get?_alter (h.keyed_documents token), h.spans,
        getD_someSpans, h.length]
      by_cases here : d = e
      · subst here
        rw [if_pos rfl, if_pos rfl, Option.getD_some, occurrences_append, Nat.zero_add, occurrences,
          if_pos rfl, occurrences, someSpans, if_neg (by simp)]
      · rw [if_neg here, if_neg (Ne.symm here), h.spans]
    · rw [if_neg same, h.terms]
      split
      · rename_i here
        rw [here, Option.getD_some, occurrences_append, occurrences, if_neg same, occurrences,
          List.append_nil]
      · rfl

theorem holds_addTokens (h : f.Holds given) (d : DocId) (tokens : List String) :
    (f.addTokens d tokens).Holds
      (Function.update given d (some ((given d).getD [] ++ tokens))) := by
  have step (f : FieldDraft) (given : DocId → Option (List String)) (h : f.Holds given)
      (listed : given d = some ((given d).getD [])) : (tokens.foldl (addToken d) f).Holds
        (Function.update given d (some ((given d).getD [] ++ tokens))) := by
    induction tokens generalizing f given with
    | nil =>
      rw [List.append_nil, ← listed, Function.update_eq_self]
      exact h
    | cons token rest ih =>
      have added := ih _ _ (holds_addToken h d token) (by rw [Function.update_self]; rfl)
      rw [Function.update_self, Function.update_idem, Option.getD_some, List.append_assoc] at added
      exact added
  have listed := step _ _ (holds_list h d) (by rw [Function.update_self]; rfl)
  rw [Function.update_self, Function.update_idem, Option.getD_some] at listed
  exact listed

end FieldDraft

structure CollectionDraft.Holds (c : CollectionDraft)
    (given : String → DocId → Option (List String)) : Prop where
  keyed : c.fields.Keyed
  fields : ∀ field, ((c.fields.get? field).getD .empty).Holds (given field)

namespace CollectionDraft

variable {c : CollectionDraft}

theorem holds_addTokens {given : String → DocId → Option (List String)} (h : c.Holds given)
    (d : DocId) (field : String) (tokens : List String) :
    (c.addTokens d field tokens).Holds
      (Function.update given field
        (Function.update (given field) d (some ((given field d).getD [] ++ tokens)))) where
  keyed := Table.keyed_alter h.keyed _ _
  fields other := by
    rw [addTokens, Table.get?_alter h.keyed, Function.update_apply]
    by_cases same : field = other
    · subst same
      rw [if_pos rfl, if_pos rfl, Option.getD_some]
      exact FieldDraft.holds_addTokens (h.fields field) d tokens
    · rw [if_neg same, if_neg (Ne.symm same)]
      exact h.fields other

theorem holds_apply {done : List DraftStep} (h : c.Holds (givenTokens done)) (step : DraftStep) :
    (c.apply step).Holds (givenTokens (done ++ [step])) := by
  have unchanged (nothing : ∀ field d, step.tokens? field d = none) :
      givenTokens (done ++ [step]) = givenTokens done := by
    funext field d
    rw [givenTokens, List.filterMap_append, List.filterMap_cons_none (nothing field d),
      List.filterMap_nil, List.append_nil]
    rfl
  have added (d : DocId) (field : String) (tokens : List String)
      (gives : ∀ other e, step.tokens? other e =
        if d = e ∧ field = other then some tokens else none) :
      givenTokens (done ++ [step]) = Function.update (givenTokens done) field
        (Function.update (givenTokens done field) d
          (some ((givenTokens done field d).getD [] ++ tokens))) := by
    funext other e
    rw [givenTokens, List.filterMap_append, Function.update_apply]
    -- a step adds to what one document was given for one field, and nothing elsewhere
    by_cases same : field = other
    · subst same
      rw [if_pos rfl, Function.update_apply]
      by_cases here : d = e
      · subst here
        have here := gives field d
        rw [if_pos ⟨rfl, rfl⟩] at here
        rw [if_pos rfl, List.filterMap_cons_some here, List.filterMap_nil, joined_concat]
        rfl
      · have elsewhere := gives field e
        rw [if_neg fun both => here both.1] at elsewhere
        rw [if_neg (Ne.symm here), List.filterMap_cons_none elsewhere, List.filterMap_nil,
          List.append_nil]
        rfl
    · have elsewhere := gives other e
      rw [if_neg fun both => same both.2] at elsewhere
      rw [if_neg (Ne.symm same), List.filterMap_cons_none elsewhere, List.filterMap_nil,
        List.append_nil]
      rfl
  cases step with
  | document name | prior name d value | priorDefault name value =>
    rw [unchanged fun _ _ => rfl]
    exact ⟨h.keyed, h.fields⟩
  | tokens d field words =>
    rw [added d field words fun _ _ => rfl]
    exact holds_addTokens h d field words
  | text d field text =>
    rw [added d field _ fun _ _ => rfl]
    exact holds_addTokens h d field _

theorem holds_foldl {done : List DraftStep} (h : c.Holds (givenTokens done))
    (steps : List DraftStep) : (steps.foldl apply c).Holds (givenTokens (done ++ steps)) := by
  induction steps generalizing c done with
  | nil =>
    rw [List.append_nil]
    exact h
  | cons step rest ih =>
    have later := ih (holds_apply h step)
    rw [List.append_assoc] at later
    exact later

def fieldAfter (steps : List DraftStep) (field : String) : FieldDraft :=
  ((steps.foldl apply .empty).fields.get? field).getD .empty

theorem holds_fieldAfter (steps : List DraftStep) (field : String) :
    (fieldAfter steps field).Holds (givenTokens steps field) := by
  have none : CollectionDraft.empty.Holds (givenTokens []) :=
    { keyed := List.Pairwise.nil, fields := fun _ => FieldDraft.holds_empty }
  exact (holds_foldl none steps).fields field

end CollectionDraft

namespace Collection

open CollectionDraft

theorem lengths_ofSteps (steps : List DraftStep) (field : String) :
    (ofSteps steps).lengths field = (fieldAfter steps field).lengths.toArray := by
  rw [lengths, ofSteps, finish, Table.get?_map FieldDraft.finish, fieldAfter]
  cases (steps.foldl CollectionDraft.apply .empty).fields.get? field <;> rfl

theorem postings_ofSteps (steps : List DraftStep) (field term : String) :
    (ofSteps steps).postings field term =
      ((((fieldAfter steps field).terms.get? term).getD []).map fun entry =>
        ({ document := entry.1, spans := entry.2 } : Posting)).toArray := by
  rw [postings, ofSteps, finish, Table.get?_map FieldDraft.finish, fieldAfter]
  cases (steps.foldl CollectionDraft.apply .empty).fields.get? field with
  | none => rfl
  | some f =>
    rw [Option.map_some, Option.bind_some, Option.getD_some, FieldDraft.finish]
    have listed := Table.get?_map (fun documents : Table DocId (List Span) =>
      (documents.map fun e => ({ document := e.1, spans := e.2 } : Posting)).toArray) term f.terms
    rw [listed]
    cases f.terms.get? term <;> rfl

theorem find?_lengths (steps : List DraftStep) (field : String) (d : DocId) :
    (((ofSteps steps).lengths field).find? fun entry => entry.1 = d) =
      (givenTokens steps field d).map fun tokens => (d, tokens.length) := by
  rw [lengths_ofSteps, List.find?_toArray, Table.find?_eq, (holds_fieldAfter steps field).lengths,
    Option.map_map]
  rfl

/-- The occurrences of a term in a field of a document are those among its tokens. -/
theorem find?_postings (steps : List DraftStep) (field term : String) (d : DocId) :
    (((ofSteps steps).postings field term).find? fun posting => posting.document = d) =
      (someSpans (occurrences term 0 (tokensOf steps field d))).map fun spans =>
        { document := d, spans } := by
  have entry := Table.find?_eq (((fieldAfter steps field).terms.get? term).getD []) d
  rw [(holds_fieldAfter steps field).spans] at entry
  rw [postings_ofSteps, List.find?_toArray, List.find?_map]
  exact (congrArg (Option.map _) entry).trans (Option.map_map _ _ _)

end Collection

end RankedRetrieval
