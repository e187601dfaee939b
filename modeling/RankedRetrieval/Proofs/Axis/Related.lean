import RankedRetrieval.Proofs.Axis.Group

set_option autoImplicit false

namespace RankedRetrieval.Axis

variable {ι : Type} {R : ι → Position → Position → Prop} {move move' : ι → Mover}
  {children : List ι} {parts parts' : List Position}

structure InStep (R : Position → Position → Prop) (move move' : Mover) : Prop where
  document : ∀ {p p'}, R p p' → p'.document = p.document
  move : ∀ {p p'}, R p p' → ∀ t, R (move p t) (move' p' t)

theorem InStep.catchUp {R : Position → Position → Prop} {move move' : Mover}
    (inStep : InStep R move move') {p p' : Position} (h : R p p') (t : DocId) :
    R (catchUp move p t) (catchUp move' p' t) := by
  unfold Axis.catchUp
  rw [inStep.document h]
  split
  · exact inStep.move h t
  · exact h

inductive Related (R : ι → Position → Position → Prop) :
    List ι → List Position → List Position → Prop
  | nil : Related R [] [] []
  | cons {c : ι} {p p' : Position} {children : List ι} {parts parts' : List Position}
      (first : R c p p') (rest : Related R children parts parts') :
      Related R (c :: children) (p :: parts) (p' :: parts')

namespace Related

theorem getElem? (h : Related R children parts parts') {i : Nat} {c : ι}
    (found : children[i]? = some c) :
    ∃ p p', parts[i]? = some p ∧ parts'[i]? = some p' ∧ R c p p' := by
  induction h generalizing i with
  | nil => cases found
  | cons first _ ih =>
    cases i with
    | zero =>
      cases found
      exact ⟨_, _, rfl, rfl, first⟩
    | succ i => exact ih found

theorem set (h : Related R children parts parts') {i : Nat} {c : ι} {p p' : Position}
    (found : children[i]? = some c) (there : R c p p') :
    Related R children (parts.set i p) (parts'.set i p') := by
  induction h generalizing i with
  | nil => cases found
  | cons first rest ih =>
    cases i with
    | zero =>
      cases found
      exact .cons there rest
    | succ i => exact .cons first (ih found)

theorem documents (same : ∀ c ∈ children, ∀ {p p'}, R c p p' → p'.document = p.document)
    (h : Related R children parts parts') :
    parts'.map Position.document = parts.map Position.document := by
  induction h with
  | nil => rfl
  | cons first _ ih =>
    obtain ⟨here, others⟩ := List.forall_mem_cons.1 same
    rw [List.map_cons, List.map_cons, here first, ih others]

end Related

section Moving

variable (inStep : ∀ c ∈ children, InStep (R c) (move c) (move' c))

include inStep

theorem round_related (order : List Nat) (target : DocId)
    (h : Related R children parts parts') :
    let result := round (children.map move) order target parts
    let result' := round (children.map move') order target parts'
    result'.1 = result.1 ∧ Related R children result.2 result'.2 := by
  induction order generalizing target parts parts' with
  | nil => exact ⟨rfl, h⟩
  | cons i order ih =>
    simp only [round, List.getElem?_map]
    cases found : children[i]? with
    | none => exact ih target h
    | some c =>
      obtain ⟨p, p', there, there', here⟩ := h.getElem? found
      have steps := inStep c (List.mem_of_getElem? found)
      have caught := steps.catchUp here target
      have moved := h.set found caught
      simp only [there, there', Option.map_some, steps.document caught]
      split
      · exact ⟨rfl, moved⟩
      · exact ih _ moved

theorem align_related (order : List Nat) (target : DocId)
    (h : Related R children parts parts') :
    let result := align (children.map move) order target parts
    let result' := align (children.map move') order target parts'
    result'.1 = result.1 ∧ Related R children result.2 result'.2 := by
  fun_induction align (children.map move) order target parts generalizing parts' with
  | case1 target parts result later =>
    rename_i ih
    obtain ⟨same, related⟩ := round_related inStep order target h
    have further : align (children.map move') order target parts' =
        align (children.map move') order result.1
          (round (children.map move') order target parts').2 := by
      rw [align, same]
      exact dif_pos later
    rw [further]
    exact ih related
  | case2 target parts result =>
    rename_i stop
    obtain ⟨same, related⟩ := round_related inStep order target h
    have stopped : align (children.map move') order target parts' =
        round (children.map move') order target parts' := by
      rw [align, same]
      exact dif_neg stop
    rw [stopped]
    exact ⟨same, related⟩

theorem catchUp_related (target : DocId) (h : Related R children parts parts') :
    Related R children
      (List.zipWith (fun move p => catchUp move p target) (children.map move) parts)
      (List.zipWith (fun move p => catchUp move p target) (children.map move') parts') := by
  induction h with
  | nil => exact .nil
  | cons first _ ih =>
    obtain ⟨here, others⟩ := List.forall_mem_cons.1 inStep
    exact .cons (here.catchUp first target) (ih others)

theorem settle_related (mode : Mode) (order : List Nat) (target : DocId)
    (h : Related R children parts parts') :
    let result := settle mode (children.map move) order target parts
    let result' := settle mode (children.map move') order target parts'
    result'.1 = result.1 ∧ Related R children result.2 result'.2 := by
  cases mode with
  | any =>
    have caught := catchUp_related inStep target h
    exact ⟨earliest_congr (caught.documents fun c member => (inStep c member).document), caught⟩
  | all =>
    simp only [settle, List.isEmpty_map]
    split
    · exact ⟨rfl, h⟩
    · exact align_related inStep order target h

end Moving

end RankedRetrieval.Axis
