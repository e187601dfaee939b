import RankedRetrieval.Proofs.Axis.First

set_option autoImplicit false

namespace RankedRetrieval.Axis

variable {ι : Type} {has : ι → DocId → Bool} {stands : ι → DocId → Position → Prop}
  {move : ι → Mover}

def AllStand (stands : ι → DocId → Position → Prop) (children : List ι) (t : DocId)
    (parts : List Position) : Prop :=
  List.Forall₂ (fun c p => stands c t p) children parts

def Agreed (stands : ι → DocId → Position → Prop) (children : List ι) (e : DocId)
    (parts : List Position) : Prop :=
  List.Forall₂ (fun c p => stands c e p ∧ p.document = e) children parts

/-- The children of a group in the course of an alignment, none of them moved beyond the target. -/
def Reached (stands : ι → DocId → Position → Prop) (children : List ι) (t : DocId)
    (parts : List Position) : Prop :=
  List.Forall₂ (fun c p => ∃ s, s ≤ t ∧ stands c s p) children parts

def Somewhere (stands : ι → DocId → Position → Prop) (children : List ι)
    (parts : List Position) : Prop :=
  List.Forall₂ (fun c p => ∃ s, stands c s p) children parts

def hasAny (has : ι → DocId → Bool) (children : List ι) (d : DocId) : Bool :=
  children.any fun c => has c d

/-- The documents of all children; a group without children has none. -/
def hasAll (has : ι → DocId → Bool) (children : List ι) (d : DocId) : Bool :=
  !children.isEmpty && children.all fun c => has c d

theorem hasAll_iff {children : List ι} {d : DocId} :
    hasAll has children d = true ↔ children ≠ [] ∧ ∀ c ∈ children, has c d = true := by
  simp [hasAll]

theorem AllStand.reached {children : List ι} {t target : DocId} {parts : List Position}
    (h : AllStand stands children t parts) (le : t ≤ target) :
    Reached stands children target parts :=
  List.Forall₂.imp (fun _ _ s => ⟨t, le, s⟩) h

theorem Reached.somewhere {children : List ι} {t : DocId} {parts : List Position}
    (h : Reached stands children t parts) : Somewhere stands children parts :=
  List.Forall₂.imp (fun _ _ ⟨s, _, here⟩ => ⟨s, here⟩) h

theorem agreed_iff {children : List ι} {e : DocId} {parts : List Position} :
    Agreed stands children e parts ↔
      AllStand stands children e parts ∧ ∀ p ∈ parts, p.document = e := by
  constructor
  · intro h
    induction h with
    | nil => exact ⟨.nil, fun _ h => nomatch h⟩
    | cons first _ ih =>
      refine ⟨.cons first.1 ih.1, ?_⟩
      rintro q hq
      rcases List.mem_cons.1 hq with rfl | hq
      · exact first.2
      · exact ih.2 q hq
  · rintro ⟨all, same⟩
    induction all with
    | nil => exact .nil
    | cons first _ ih =>
      refine .cons ⟨first, same _ List.mem_cons_self⟩ ?_
      exact ih fun q hq => same q (List.mem_cons_of_mem _ hq)

theorem Agreed.allStand {children : List ι} {e : DocId} {parts : List Position}
    (h : Agreed stands children e parts) : AllStand stands children e parts :=
  List.Forall₂.imp (fun _ _ s => s.1) h

section Union

theorem earliest_congr {parts parts' : List Position}
    (h : parts'.map Position.document = parts.map Position.document) :
    earliest parts' = earliest parts := by
  induction parts generalizing parts' with
  | nil =>
    cases parts' with
    | nil => rfl
    | cons p rest => cases h
  | cons q parts ih =>
    cases parts' with
    | nil => cases h
    | cons p rest =>
      obtain ⟨same, others⟩ := List.cons.inj h
      rw [earliest, earliest, ih others, same]

theorem isFirst_earliest {children : List ι} {t : DocId} {parts : List Position}
    (follows : ∀ c ∈ children, Follows (has c) (stands c) (move c))
    (h : AllStand stands children t parts) :
    IsFirst (hasAny has children) t (earliest parts) := by
  induction h with
  | nil => exact .inr ⟨rfl, fun e he => absurd he (by simp [hasAny])⟩
  | @cons c p children parts first _ ih =>
    have f := follows c List.mem_cons_self
    have rest := ih fun c hc => follows c (List.mem_cons_of_mem _ hc)
    have here := f.first first
    have below : hasAny has (c :: children) terminated = false := by
      simp only [hasAny, List.any_eq_false]
      intro c hc
      rw [(follows c hc).below]
      exact Bool.false_ne_true
    have split (e : DocId) : hasAny has (c :: children) e = true ↔
        has c e = true ∨ hasAny has children e = true := by
      simp [hasAny]
    simp only [earliest]
    refine IsFirst.intro below ?_ ?_ ?_
    · split
      · exact here.le
      · exact rest.le
    · intro notDone
      rw [split]
      split at notDone
      · rw [if_pos ‹_›]
        exact .inl (here.has_of_ne notDone)
      · rw [if_neg ‹_›]
        exact .inr (rest.has_of_ne notDone)
    · intro e mem le
      rcases (split e).1 mem with mem | mem
      · have := here.least mem le
        grind
      · have := rest.least mem le
        grind

theorem allStand_catchUp {children : List ι} {t target : DocId} {parts : List Position}
    (follows : ∀ c ∈ children, Follows (has c) (stands c) (move c))
    (h : AllStand stands children t parts) (le : t ≤ target) :
    AllStand stands children target
      (List.zipWith (fun move p => catchUp move p target) (children.map move) parts) := by
  induction h with
  | nil => exact .nil
  | @cons c p children parts first _ ih =>
    refine .cons ((follows c List.mem_cons_self).catchUp first le) ?_
    exact ih fun c hc => follows c (List.mem_cons_of_mem _ hc)

theorem allStand_later {children : List ι} {t target : DocId} {parts : List Position}
    (follows : ∀ c ∈ children, Follows (has c) (stands c) (move c))
    (h : AllStand stands children t parts) (le : t ≤ target) (le' : target ≤ earliest parts) :
    AllStand stands children target parts := by
  induction h with
  | nil => exact .nil
  | @cons c p children parts first _ ih =>
    simp only [earliest] at le'
    refine .cons ((follows c List.mem_cons_self).later first le ?_) (ih ?_ ?_)
    · grind
    · exact fun c hc => follows c (List.mem_cons_of_mem _ hc)
    · grind

end Union

section Alignment

theorem forall₂_set {R : ι → Position → Prop} {children : List ι} {parts : List Position}
    (h : List.Forall₂ R children parts) {i : Nat} {c : ι} {q : Position}
    (found : children[i]? = some c) (new : R c q) :
    List.Forall₂ R children (parts.set i q) := by
  induction h generalizing i with
  | nil => cases found
  | @cons c' p children parts first rest ih =>
    cases i with
    | zero =>
      cases found
      exact .cons new rest
    | succ i => exact .cons first (ih found)

theorem forall₂_getElem? {R : ι → Position → Prop} {children : List ι} {parts : List Position}
    (h : List.Forall₂ R children parts) {i : Nat} {c : ι} (found : children[i]? = some c) :
    ∃ p, parts[i]? = some p ∧ R c p := by
  induction h generalizing i with
  | nil => cases found
  | @cons c' p children parts first rest ih =>
    cases i with
    | zero =>
      cases found
      exact ⟨p, rfl, first⟩
    | succ i => exact ih found

theorem Reached.mono {children : List ι} {t t' : DocId} {parts : List Position}
    (h : Reached stands children t parts) (le : t ≤ t') : Reached stands children t' parts :=
  List.Forall₂.imp (fun _ _ ⟨s, hs, here⟩ => ⟨s, UInt32.le_trans hs le, here⟩) h

/-- A round moves no child beyond the target it ends with, and passes over no common document. -/
theorem round_spec {children : List ι}
    (follows : ∀ c ∈ children, Follows (has c) (stands c) (move c)) (order : List Nat)
    (target : DocId) (parts : List Position) (h : Reached stands children target parts) :
    let result := round (children.map move) order target parts
    Reached stands children result.1 result.2 ∧
      ∀ e, hasAll has children e = true → target ≤ e → result.1 ≤ e := by
  induction order generalizing target parts with
  | nil => exact ⟨h, fun e _ le => le⟩
  | cons i order ih =>
    simp only [round, List.getElem?_map]
    cases found : children[i]? with
    | none => exact ih target parts h
    | some c =>
      obtain ⟨p, there, s, le, here⟩ := forall₂_getElem? h found
      have f := follows c (List.mem_of_getElem? found)
      have caught := f.catchUp here le
      have first := f.first caught
      have moved : Reached stands children target
          (parts.set i (catchUp (move c) p target)) :=
        forall₂_set h found ⟨target, UInt32.le_refl _, caught⟩
      simp only [there, Option.map_some]
      split
      -- the child has run out, so there is no common document left to pass over
      · refine ⟨moved.mono (le_terminated target), ?_⟩
        intro e mem later
        have := first.least ((hasAll_iff.1 mem).2 c (List.mem_of_getElem? found)) later
        grind
      · have le' : target ≤ if target < (catchUp (move c) p target).document then
            (catchUp (move c) p target).document else target := by
          grind
        obtain ⟨reached, least⟩ := ih _ _ (moved.mono le')
        refine ⟨reached, fun e mem later => least e mem ?_⟩
        have := first.least ((hasAll_iff.1 mem).2 c (List.mem_of_getElem? found)) later
        grind

/-- A child beyond the target would have raised it for good. -/
theorem onTarget_of_round {children : List ι} {order : List Nat} {target d : DocId}
    {parts : List Position} (le : target ≤ d)
    (same : (round (children.map move) order (if target < d then d else target) parts).1 =
      target) : d = target := by
  have := le_round (children.map move) order (if target < d then d else target) parts
  grind

/-- After a round that ends with the target it began with, every child consulted is on it. -/
theorem round_agrees {children : List ι}
    (follows : ∀ c ∈ children, Follows (has c) (stands c) (move c)) (order : List Nat)
    (target : DocId) (parts : List Position) (h : Reached stands children target parts)
    (same : (round (children.map move) order target parts).1 = target)
    (notDone : target ≠ terminated) {i : Nat} {c : ι} (found : children[i]? = some c)
    (consulted : i ∈ order ∨
      ∃ p, parts[i]? = some p ∧ stands c target p ∧ p.document = target) :
    ∃ p, (round (children.map move) order target parts).2[i]? = some p ∧
      stands c target p ∧ p.document = target := by
  induction order generalizing parts with
  | nil =>
    rcases consulted with inside | there
    · cases inside
    · exact there
  | cons j order ih =>
    simp only [round, List.getElem?_map] at same ⊢
    cases found' : children[j]? with
    | none =>
      simp only [found', Option.map_none] at same ⊢
      refine ih parts h same (consulted.imp_left fun inside => ?_)
      refine (List.mem_cons.1 inside).resolve_left fun is => ?_
      rw [is, found'] at found
      cases found
    | some c' =>
      obtain ⟨p, there, s, le, here⟩ := forall₂_getElem? h found'
      have f := follows c' (List.mem_of_getElem? found')
      have caught := f.catchUp here le
      simp only [found', there, Option.map_some] at same ⊢
      split at same
      · exact absurd same.symm notDone
      · -- a round never goes back, so one that ends on the target has left it nowhere
        rename_i going
        rw [if_neg going]
        have onTarget := onTarget_of_round (f.first caught).le same
        rw [if_neg (by rw [onTarget]; exact UInt32.lt_irrefl _)] at same ⊢
        refine ih _ (forall₂_set h found' ⟨target, UInt32.le_refl _, caught⟩) same ?_
        by_cases here' : j = i
        · subst here'
          obtain rfl := Option.some.inj (found.symm.trans found')
          have inside : j < parts.length := (List.getElem?_eq_some_iff.1 there).1
          exact .inr ⟨_, List.getElem?_set_self inside, caught, onTarget⟩
        · rcases consulted with inside | ⟨q, at_i, good⟩
          · exact .inl ((List.mem_cons.1 inside).resolve_left (Ne.symm here'))
          · exact .inr ⟨q, (List.getElem?_set_ne here').trans at_i, good⟩

theorem agreed_of_getElem? {children : List ι} {e t : DocId} {parts : List Position}
    (h : Reached stands children t parts)
    (all : ∀ (i : Nat) (c : ι), children[i]? = some c →
      ∃ p : Position, parts[i]? = some p ∧ stands c e p ∧ p.document = e) :
    Agreed stands children e parts := by
  refine List.forall₂_iff_get.2 ⟨List.Forall₂.length_eq h, ?_⟩
  intro i hi hi'
  obtain ⟨p, there, good⟩ := all i children[i] (List.getElem?_eq_getElem hi)
  rw [List.getElem?_eq_getElem hi'] at there
  cases there
  exact good

def Covers (order : List Nat) (children : List ι) : Prop := ∀ i, i < children.length → i ∈ order

theorem align_spec {children : List ι}
    (follows : ∀ c ∈ children, Follows (has c) (stands c) (move c)) {order : List Nat}
    (covers : Covers order children) (target : DocId) (parts : List Position)
    (h : Reached stands children target parts) :
    let result := align (children.map move) order target parts
    Reached stands children result.1 result.2 ∧
      (∀ e, hasAll has children e = true → target ≤ e → result.1 ≤ e) ∧
      (result.1 ≠ terminated → Agreed stands children result.1 result.2) := by
  fun_induction align (children.map move) order target parts with
  | case1 target parts result later ih =>
    obtain ⟨reached, least⟩ := round_spec follows order target parts h
    obtain ⟨reached', least', agreed⟩ := ih reached
    exact ⟨reached', fun e mem le => least' e mem (least e mem le), agreed⟩
  | case2 target parts result stop =>
    obtain ⟨reached, least⟩ := round_spec follows order target parts h
    -- a round that did not raise its target left every child it consulted on it
    refine ⟨reached, least, fun notDone => ?_⟩
    have same : result.1 = target := by
      have := le_round (children.map move) order target parts
      grind
    refine agreed_of_getElem? reached fun i c found => ?_
    have turn := covers i (List.getElem?_eq_some_iff.1 found).1
    rw [same] at notDone ⊢
    exact round_agrees follows order target parts h same notDone found (.inl turn)

theorem hasAll_of_agreed {children : List ι} {e : DocId} {parts : List Position}
    (follows : ∀ c ∈ children, Follows (has c) (stands c) (move c)) (nonempty : children ≠ [])
    (h : Agreed stands children e parts) (notDone : e ≠ terminated) :
    hasAll has children e = true := by
  refine hasAll_iff.2 ⟨nonempty, fun c hc => ?_⟩
  obtain ⟨i, hi, rfl⟩ := List.mem_iff_getElem.1 hc
  obtain ⟨p, _, here, same⟩ := forall₂_getElem? h (List.getElem?_eq_getElem hi)
  have first := (follows _ hc).first here
  rw [same] at first
  exact first.has_of_ne notDone

theorem hasAll_terminated {children : List ι}
    (follows : ∀ c ∈ children, Follows (has c) (stands c) (move c)) :
    hasAll has children terminated = false := by
  cases children with
  | nil => rfl
  | cons c rest =>
    have := (follows c List.mem_cons_self).below
    simp [hasAll, this]

theorem settle_all {children : List ι}
    (follows : ∀ c ∈ children, Follows (has c) (stands c) (move c)) {order : List Nat}
    (covers : Covers order children) (target : DocId) (parts : List Position)
    (h : Reached stands children target parts) :
    let result := settle .all (children.map move) order target parts
    IsFirst (hasAll has children) target result.1 ∧
      (result.1 ≠ terminated → Agreed stands children result.1 result.2) ∧
      Somewhere stands children result.2 := by
  cases children with
  | nil =>
    exact ⟨.inr ⟨rfl, fun e he => absurd he Bool.false_ne_true⟩, fun h => absurd rfl h, h.somewhere⟩
  | cons c rest =>
    obtain ⟨reached, least, agreed⟩ := align_spec follows covers target parts h
    refine ⟨?_, agreed, reached.somewhere⟩
    refine IsFirst.intro (hasAll_terminated follows) (le_align _ _ _ _) ?_ least
    intro notDone
    exact hasAll_of_agreed follows (List.cons_ne_nil c rest) (agreed notDone) notDone

end Alignment

section Kept

variable {R : ι → Position → Prop} {children : List ι}

def Keeps (move : ι → Mover) (R : ι → Position → Prop) (children : List ι) : Prop :=
  ∀ c ∈ children, ∀ p t, p.document < t → R c p → R c (move c p t)

theorem Keeps.always (keeps : ∀ c ∈ children, ∀ p t, R c p → R c (move c p t)) :
    Keeps move R children :=
  fun c member p t _ => keeps c member p t

theorem kept_catchUp {c : ι} (keeps : ∀ p t, p.document < t → R c p → R c (move c p t))
    {p : Position} (target : DocId) (h : R c p) : R c (catchUp (move c) p target) := by
  unfold catchUp
  split
  · exact keeps p target ‹_› h
  · exact h

theorem forall₂_round (keeps : Keeps move R children) (order : List Nat) (target : DocId)
    {parts : List Position} (h : List.Forall₂ R children parts) :
    List.Forall₂ R children (round (children.map move) order target parts).2 := by
  induction order generalizing target parts with
  | nil => exact h
  | cons i order ih =>
    simp only [round, List.getElem?_map]
    cases found : children[i]? with
    | none => exact ih target h
    | some c =>
      obtain ⟨p, there, here⟩ := forall₂_getElem? h found
      have caught := kept_catchUp (keeps c (List.mem_of_getElem? found)) target here
      have moved := forall₂_set h found caught
      simp only [there, Option.map_some]
      split
      · exact moved
      · exact ih _ moved

theorem forall₂_align (keeps : Keeps move R children) (order : List Nat) (target : DocId)
    {parts : List Position} (h : List.Forall₂ R children parts) :
    List.Forall₂ R children (align (children.map move) order target parts).2 := by
  fun_induction align (children.map move) order target parts with
  | case1 target parts result later ih => exact ih (forall₂_round keeps order target h)
  | case2 target parts result stop => exact forall₂_round keeps order target h

theorem forall₂_catchUp (keeps : Keeps move R children) (target : DocId) {parts : List Position}
    (h : List.Forall₂ R children parts) :
    List.Forall₂ R children
      (List.zipWith (fun move p => catchUp move p target) (children.map move) parts) := by
  induction h with
  | nil => exact .nil
  | @cons c p children parts first _ ih =>
    refine .cons ?_ (ih fun c member => keeps c (List.mem_cons_of_mem _ member))
    exact kept_catchUp (keeps c List.mem_cons_self) target first

theorem forall₂_settle (keeps : Keeps move R children) (mode : Mode) (order : List Nat)
    (target : DocId) {parts : List Position} (h : List.Forall₂ R children parts) :
    List.Forall₂ R children (settle mode (children.map move) order target parts).2 := by
  cases mode with
  | any => exact forall₂_catchUp keeps target h
  | all =>
    rw [settle]
    split
    · exact h
    · exact forall₂_align keeps order target h

end Kept

section Each

def onEach (f : ι → Position → Position) : List ι → List Position → List Position
  | c :: children, p :: parts => f c p :: onEach f children parts
  | _, parts => parts

variable {f : ι → Position → Position} {children : List ι}

theorem getElem?_onEach {i : Nat} {c : ι} (found : children[i]? = some c) (parts : List Position) :
    (onEach f children parts)[i]? = parts[i]?.map (f c) := by
  induction children generalizing i parts with
  | nil => cases found
  | cons c' children ih =>
    cases parts with
    | nil => rfl
    | cons p parts =>
      cases i with
      | zero =>
        cases found
        rfl
      | succ i => exact ih found parts

theorem set_onEach {i : Nat} {c : ι} (found : children[i]? = some c) (parts : List Position)
    (q : Position) :
    (onEach f children parts).set i (f c q) = onEach f children (parts.set i q) := by
  induction children generalizing i parts with
  | nil => cases found
  | cons c' children ih =>
    cases parts with
    | nil => rfl
    | cons p parts =>
      cases i with
      | zero =>
        cases found
        rfl
      | succ i => exact congrArg (f c' p :: ·) (ih found parts)

theorem documents_onEach (same : ∀ c ∈ children, ∀ p, (f c p).document = p.document)
    (parts : List Position) :
    (onEach f children parts).map Position.document = parts.map Position.document := by
  induction children generalizing parts with
  | nil => rfl
  | cons c children ih =>
    obtain ⟨here, others⟩ := List.forall_mem_cons.1 same
    cases parts with
    | nil => rfl
    | cons p parts => rw [onEach, List.map_cons, List.map_cons, here, ih others]

/-- A change that leaves documents alone and may be made before or after a move. -/
structure Commutes (move : Mover) (f : Position → Position) : Prop where
  document : ∀ p, (f p).document = p.document
  move : ∀ p t, f (move p t) = move (f p) t

theorem Commutes.catchUp {move : Mover} {f : Position → Position} (h : Commutes move f)
    (p : Position) (t : DocId) : Axis.catchUp move (f p) t = f (Axis.catchUp move p t) := by
  unfold Axis.catchUp
  rw [h.document]
  split
  · exact (h.move p t).symm
  · rfl

theorem round_onEach (commutes : ∀ c ∈ children, Commutes (move c) (f c)) (order : List Nat)
    (target : DocId) (parts : List Position) :
    round (children.map move) order target (onEach f children parts) =
      ((round (children.map move) order target parts).1,
        onEach f children (round (children.map move) order target parts).2) := by
  induction order generalizing target parts with
  | nil => rfl
  | cons i order ih =>
    simp only [round, List.getElem?_map]
    cases found : children[i]? with
    | none => exact ih target parts
    | some c =>
      have change := commutes c (List.mem_of_getElem? found)
      rw [getElem?_onEach found]
      cases there : parts[i]? with
      | none => exact ih target parts
      | some p =>
        simp only [Option.map_some, change.catchUp, change.document, set_onEach found]
        split
        · rfl
        · exact ih _ _

theorem align_onEach (commutes : ∀ c ∈ children, Commutes (move c) (f c)) (order : List Nat)
    (target : DocId) (parts : List Position) :
    align (children.map move) order target (onEach f children parts) =
      ((align (children.map move) order target parts).1,
        onEach f children (align (children.map move) order target parts).2) := by
  fun_induction align (children.map move) order target parts with
  | case1 target parts result later ih =>
    rw [align, round_onEach commutes, dif_pos later]
    exact ih
  | case2 target parts result stop => rw [align, round_onEach commutes, dif_neg stop]

theorem catchUp_onEach (commutes : ∀ c ∈ children, Commutes (move c) (f c)) (target : DocId)
    (parts : List Position) :
    List.zipWith (fun move p => catchUp move p target) (children.map move)
        (onEach f children parts) =
      onEach f children
        (List.zipWith (fun move p => catchUp move p target) (children.map move) parts) := by
  induction children generalizing parts with
  | nil => rfl
  | cons c children ih =>
    obtain ⟨here, others⟩ := List.forall_mem_cons.1 commutes
    cases parts with
    | nil => rfl
    | cons p parts =>
      simp only [onEach, List.map_cons, List.zipWith_cons_cons, here.catchUp, ih others]

theorem settle_onEach (commutes : ∀ c ∈ children, Commutes (move c) (f c)) (mode : Mode)
    (order : List Nat) (target : DocId) (parts : List Position) :
    settle mode (children.map move) order target (onEach f children parts) =
      ((settle mode (children.map move) order target parts).1,
        onEach f children (settle mode (children.map move) order target parts).2) := by
  cases mode with
  | any =>
    simp only [settle, catchUp_onEach commutes]
    rw [earliest_congr (documents_onEach (fun c member => (commutes c member).document) _)]
  | all =>
    simp only [settle]
    split
    · rfl
    · exact align_onEach commutes order target parts

end Each

section Windows

def hasShown (has : ι → DocId → Bool) (children : List ι) (shown : DocId → List Span)
    (d : DocId) : Bool :=
  hasAll has children d && !(shown d).isEmpty

def foundAt (shown : DocId → List Span) (d : DocId) : List Span :=
  if d = terminated then [] else shown d

/-- The first document of a smaller set that does not have the first one of the larger is behind
that one. -/
theorem first_behind {has has' : DocId → Bool} {target d d' : DocId}
    (below : has' terminated = false) (within : ∀ e, has' e = true → has e = true)
    (first : IsFirst has target d) (notDone : d ≠ terminated) (lacks : has' d = false)
    (sought : IsFirst has' (next d) d') : IsFirst has' target d' := by
  refine IsFirst.intro below ?_ (fun h => sought.has_of_ne h) ?_
  · have := sought.le
    have := first.le
    have := lt_next notDone
    grind
  · intro e mem le
    refine sought.least mem ((next_le_iff notDone).2 ?_)
    refine UInt32.lt_of_le_of_ne (first.least (within e mem) le) fun same => ?_
    rw [← same, lacks] at mem
    cases mem

theorem seek_windows {children : List ι}
    (follows : ∀ c ∈ children, Follows (has c) (stands c) (move c)) {order : List Nat}
    (covers : Covers order children) {shown : DocId → List Span}
    {read : DocId → List Position → List Span}
    (reads : ∀ e parts, e ≠ terminated → Agreed stands children e parts →
      read e parts = shown e)
    (document : DocId) (parts : List Position) (target : DocId)
    (first : IsFirst (hasAll has children) target document)
    (agreed : document ≠ terminated → Agreed stands children document parts) :
    let rest := seek (children.map move) order read document parts
    IsFirst (hasShown has children shown) target rest.document ∧
      rest.found = foundAt shown rest.document ∧
      (rest.document ≠ terminated → Agreed stands children rest.document rest.parts) := by
  have below : hasShown has children shown terminated = false := by
    rw [hasShown, hasAll_terminated follows, Bool.false_and]
  have within (e : DocId) (mem : hasShown has children shown e = true) :
      hasAll has children e = true := (Bool.and_eq_true_iff.1 mem).1
  fun_induction seek (children.map move) order read document parts generalizing target with
  | case1 parts =>
    refine ⟨?_, ?_, fun h => absurd rfl h⟩
    · refine IsFirst.intro below first.le (fun h => absurd rfl h) fun e mem le => ?_
      exact first.least (within e mem) le
    · rw [foundAt, if_pos rfl]
  | case2 document parts notDone found empty result ih =>
    -- all children are here, but nothing is shown: the first document is one of the later ones
    have shownNone : shown document = [] := by
      rw [← reads document parts notDone (agreed notDone)]
      exact List.isEmpty_iff.1 empty
    have lacks : hasShown has children shown document = false := by
      rw [hasShown, shownNone, List.isEmpty_nil, Bool.not_true, Bool.and_false]
    have reached : Reached stands children (next document) parts :=
      ((agreed notDone).allStand).reached (UInt32.le_of_lt (lt_next notDone))
    obtain ⟨first', agreed', _⟩ := settle_all follows covers (next document) parts reached
    obtain ⟨sought, rest⟩ := ih (next document) first' agreed'
    exact ⟨first_behind below within first notDone lacks sought, rest⟩
  | case3 document parts notDone found some =>
    have same := reads document parts notDone (agreed notDone)
    refine ⟨?_, ?_, agreed⟩
    · refine IsFirst.intro below first.le (fun _ => ?_) fun e mem le =>
        first.least (within e mem) le
      refine Bool.and_eq_true_iff.2 ⟨first.has_of_ne notDone, ?_⟩
      rw [← same]
      simpa using some
    · rw [foundAt, if_neg notDone]
      exact same

end Windows

section Order

theorem covers_byCost {children : List ι} {costs : List Nat}
    (h : costs.length = children.length) : Covers (byCost costs) children := by
  intro i hi
  unfold byCost
  rw [List.mem_map]
  have inside : i < costs.length := by omega
  refine ⟨(costs[i], i), ?_, rfl⟩
  rw [List.mem_mergeSort]
  exact List.mk_mem_zipIdx_iff_getElem?.2 (List.getElem?_eq_getElem inside)

end Order

end RankedRetrieval.Axis
