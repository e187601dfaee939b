import RankedRetrieval.Proofs.Span.Formed

set_option autoImplicit false

namespace RankedRetrieval.Window

def minus? (a b : Nat) : Option Nat := if b ≤ a then some (a - b) else none

theorem minus?_eq {a b : Nat} (le : b ≤ a) : minus? a b = some (a - b) := if_pos le

section Ordered

inductive Ending where
  | found (stop : Nat) (places : List Nat)
  | gap (places : List Nat)
  | exhausted

def skip? (list : List Span) (stop place : Nat) : Option Nat :=
  if place < list.length then
    match list[place]? with
    | none => none
    | some s => if s.start < stop then skip? list stop (place + 1) else some place
  else some place
termination_by list.length - place

def follow? (width : Nat) (places : List Nat) (k stop : Nat) : List (List Span) → Option Ending
  | [] => some (.found stop places)
  | list :: lists =>
    match places[k]? with
    | none => none
    | some place =>
      match skip? list stop place with
      | none => none
      | some place =>
        match list[place]? with
        | none => some .exhausted
        | some s =>
          match minus? s.start stop with
          | none => none
          | some apart =>
            if width ≤ apart then some (.gap (places.set k place))
            else follow? width (places.set k place) (k + 1) s.stop lists

def orderedByPlacesFrom (width : Nat) (lists : List (List Span)) :
    List Span → List Nat → Option (List Span)
  | [], _ => some []
  | s :: starts, places =>
    match follow? width places 0 s.stop lists with
    | none => none
    | some (.found stop places) =>
      (orderedByPlacesFrom width lists starts places).map ({ start := s.start, stop } :: ·)
    | some (.gap places) => orderedByPlacesFrom width lists starts places
    | some .exhausted => some []

def orderedByPlaces (width : Nat) : List (List Span) → Option (List Span)
  | [] => some []
  | first :: lists => orderedByPlacesFrom width lists first (lists.map fun _ => 0)

def leftFrom (places : List Nat) (lists : List (List Span)) : List (List Span) :=
  List.zipWith List.drop places lists

theorem leftFrom_zero (lists : List (List Span)) :
    leftFrom (lists.map fun _ => 0) lists = lists := by
  induction lists with
  | nil => rfl
  | cons list lists ih => exact congrArg (list :: ·) ih

/-- An ending by places that comes to the same as one that has taken lists apart. -/
inductive Ending.Tells (before : List Nat) (lists : List (List Span)) : Ending → Chain → Prop
  | found {stop : Nat} {places : List Nat} (full : places.length = lists.length) :
      Tells before lists (.found stop (before ++ places)) (.found stop (leftFrom places lists))
  | gap {places : List Nat} (full : places.length = lists.length) :
      Tells before lists (.gap (before ++ places)) (.gap (leftFrom places lists))
  | exhausted : Tells before lists .exhausted .exhausted

theorem Ending.Tells.cons {before : List Nat} {list : List Span} {lists : List (List Span)}
    {place : Nat} {ending : Ending} {chain : Chain}
    (h : ending.Tells (before ++ [place]) lists chain) :
    ending.Tells before (list :: lists) (chain.cons (list.drop place)) := by
  cases h with
  | @found stop places full =>
    rw [List.append_assoc]
    exact @Ending.Tells.found before (list :: lists) stop (place :: places) (congrArg Nat.succ full)
  | @gap places full =>
    rw [List.append_assoc]
    exact @Ending.Tells.gap before (list :: lists) (place :: places) (congrArg Nat.succ full)
  | exhausted => exact .exhausted

theorem skip?_eq (list : List Span) (stop place : Nat) :
    ∃ reached, skip? list stop place = some reached ∧
      list.drop reached = (list.drop place).dropWhile fun s => s.start < stop := by
  fun_induction skip? list stop place with
  | case1 place inside none =>
    rw [List.getElem?_eq_getElem inside] at none
    cases none
  | case2 place inside s here before ih =>
    obtain ⟨reached, goes, left⟩ := ih
    refine ⟨reached, goes, left.trans ?_⟩
    rw [List.drop_eq_getElem_cons inside, (List.getElem?_eq_some_iff.1 here).2,
      List.dropWhile_cons_of_pos (by simpa using before)]
  | case3 place inside s here notBefore =>
    refine ⟨place, rfl, ?_⟩
    rw [List.drop_eq_getElem_cons inside, (List.getElem?_eq_some_iff.1 here).2,
      List.dropWhile_cons_of_neg (by simpa using notBefore)]
  | case4 place outside =>
    refine ⟨place, rfl, ?_⟩
    rw [List.drop_eq_nil_of_le (Nat.not_lt.1 outside), List.dropWhile_nil]

theorem follow?_tells (width : Nat) (lists : List (List Span)) (before places : List Nat)
    (full : places.length = lists.length) (stop : Nat) :
    ∃ ending, follow? width (before ++ places) before.length stop lists = some ending ∧
      ending.Tells before lists (follow width stop (leftFrom places lists)) := by
  induction lists generalizing before places stop with
  | nil =>
    obtain rfl := List.eq_nil_of_length_eq_zero full
    exact ⟨_, rfl, .found rfl⟩
  | cons list lists ih =>
    cases places with
    | nil => cases full
    | cons place places =>
      have full : places.length = lists.length := Nat.succ.inj full
      have there : (before ++ place :: places)[before.length]? = some place := by simp
      obtain ⟨reached, goes, left⟩ := skip?_eq list stop place
      rw [follow?, there]
      dsimp only
      rw [goes, leftFrom, List.zipWith_cons_cons, follow, ← left]
      dsimp only
      rw [← List.head?_drop]
      have moved : (before ++ place :: places).set before.length reached =
          before ++ reached :: places := by simp
      cases rest : list.drop reached with
      | nil => exact ⟨_, rfl, .exhausted⟩
      | cons s rest' =>
        have after : stop ≤ s.start := stop_le_of_dropWhile (left.symm.trans rest)
        dsimp only [List.head?_cons]
        rw [minus?_eq after, moved]
        dsimp only
        split
        · -- too far: the places after this one are as they were
          refine ⟨_, rfl, ?_⟩
          have ending := @Ending.Tells.gap before (list :: lists) (reached :: places)
            (congrArg Nat.succ full)
          rwa [leftFrom, List.zipWith_cons_cons, rest] at ending
        · obtain ⟨ending, followed, tells⟩ := ih (before ++ [reached]) places full s.stop
          rw [List.append_assoc, List.singleton_append, List.length_append, List.length_singleton]
            at followed
          exact ⟨ending, followed, rest ▸ tells.cons⟩

theorem orderedByPlacesFrom_eq (width : Nat) (lists : List (List Span)) (starts : List Span)
    (places : List Nat) (full : places.length = lists.length) :
    orderedByPlacesFrom width lists starts places =
      some (orderedFrom width starts (leftFrom places lists)) := by
  induction starts generalizing places with
  | nil => rfl
  | cons s starts ih =>
    obtain ⟨ending, followed, tells⟩ := follow?_tells width lists [] places full s.stop
    rw [List.nil_append, List.length_nil] at followed
    rw [orderedByPlacesFrom, followed, orderedFrom]
    generalize follow width s.stop (leftFrom places lists) = chain at tells
    cases tells with
    | found full => exact congrArg (Option.map _) (ih _ full)
    | gap full => exact ih _ full
    | exhausted => rfl

/-- Nothing fails in the search for ordered windows. -/
theorem orderedByPlaces_eq (width : Nat) (lists : List (List Span)) :
    orderedByPlaces width lists = some (ordered width lists) := by
  cases lists with
  | nil => rfl
  | cons first lists =>
    rw [orderedByPlaces, orderedByPlacesFrom_eq width lists first _ (List.length_map _),
      leftFrom_zero, ordered]

end Ordered

section Unordered

/-- What has been seen of the first spans: the least start and where it is, and the greatest
stop. -/
structure Scan where
  start : Nat
  stop : Nat
  lead : Nat

def Scan.blank (top : Nat) : Scan := { start := top, stop := 0, lead := 0 }

def Scan.see (scan : Scan) (k : Nat) (s : Span) : Scan :=
  if s.start < scan.start then { start := s.start, stop := max scan.stop s.stop, lead := k }
  else { scan with stop := max scan.stop s.stop }

def scan? (places : List Nat) (k : Nat) (scan : Scan) : List (List Span) → Option Scan
  | [] => some scan
  | list :: lists =>
    match places[k]? with
    | none => none
    | some place =>
      match list[place]? with
      | none => none
      | some s => scan? places (k + 1) (scan.see k s) lists

/-- The windows over the spans at the places. The search fails as well when the number of looks is
used up. -/
def unorderedByPlacesFrom (top width : Nat) (lists : List (List Span)) :
    Nat → List Nat → Option (List Span)
  | 0, _ => none
  | looks + 1, places =>
    match scan? places 0 (.blank top) lists with
    | none => none
    | some scan =>
      match minus? scan.stop scan.start, places[scan.lead]?, lists[scan.lead]? with
      | some length, some place, some list =>
        let rest :=
          if place + 1 = list.length then some []
          else unorderedByPlacesFrom top width lists looks (places.set scan.lead (place + 1))
        rest.map fun windows =>
          if length ≤ width then { start := scan.start, stop := scan.stop } :: windows else windows
      | _, _, _ => none

def unorderedByPlaces (top width : Nat) (lists : List (List Span)) : Option (List Span) :=
  if lists = [] ∨ [] ∈ lists then some []
  else unorderedByPlacesFrom top width lists lists.flatten.length (lists.map fun _ => 0)

def Scan.seeAll (scan : Scan) (k : Nat) : List Front → Scan
  | [] => scan
  | front :: fs => (scan.see k front.1).seeAll (k + 1) fs

variable {top width start : Nat} {scan : Scan} {lists : List (List Span)} {fs : List Front}

@[simp] theorem Scan.start_see (scan : Scan) (k : Nat) (s : Span) :
    (scan.see k s).start = min scan.start s.start := by
  unfold see
  split
  · exact (Nat.min_eq_right (Nat.le_of_lt ‹_›)).symm
  · exact (Nat.min_eq_left (Nat.not_lt.1 ‹_›)).symm

@[simp] theorem Scan.stop_see (scan : Scan) (k : Nat) (s : Span) :
    (scan.see k s).stop = max scan.stop s.stop := by
  unfold see
  split <;> rfl

theorem Scan.start_seeAll_le (scan : Scan) (k : Nat) (fs : List Front) :
    (scan.seeAll k fs).start ≤ scan.start := by
  induction fs generalizing scan k with
  | nil => exact Nat.le_refl _
  | cons front fs ih =>
    exact Nat.le_trans (ih _ _) (scan.start_see k front.1 ▸ Nat.min_le_left _ _)

theorem Scan.seeAll_eq_hull (scan : Scan) (k : Nat) (some : fs ≠ []) :
    (scan.seeAll k fs).start = min scan.start (hull fs).start ∧
      (scan.seeAll k fs).stop = max scan.stop (hull fs).stop := by
  induction fs generalizing scan k with
  | nil => exact absurd rfl some
  | cons front fs ih =>
    rw [seeAll]
    cases fs with
    | nil => exact ⟨scan.start_see k front.1, scan.stop_see k front.1⟩
    | cons second fs =>
      obtain ⟨starts, stops⟩ := ih (scan.see k front.1) (k + 1) (List.cons_ne_nil _ _)
      rw [starts, stops, start_see, stop_see, Nat.min_assoc, Nat.max_assoc]
      exact ⟨rfl, rfl⟩

/-- The lead is with the first of the fronts that start earliest. -/
theorem Scan.lead_seeAll (scan : Scan) (k : Nat) (fs : List Front) :
    ((scan.seeAll k fs).start = scan.start → (scan.seeAll k fs).lead = scan.lead) ∧
      ((scan.seeAll k fs).start < scan.start → ∃ before front after,
        fs = before ++ front :: after ∧ (scan.seeAll k fs).lead = k + before.length ∧
          front.1.start = (scan.seeAll k fs).start ∧
          ∀ other ∈ before, other.1.start ≠ (scan.seeAll k fs).start) := by
  induction fs generalizing scan k with
  | nil => exact ⟨fun _ => rfl, fun less => absurd less (Nat.lt_irrefl _)⟩
  | cons front fs ih =>
    rw [seeAll]
    obtain ⟨same, less⟩ := ih (scan.see k front.1) (k + 1)
    have least := (scan.see k front.1).start_seeAll_le (k + 1) fs
    generalize (scan.see k front.1).seeAll (k + 1) fs = seen at same less least
    have later (before : seen.start < (scan.see k front.1).start)
        (apart : front.1.start ≠ seen.start) : ∃ before found after,
          front :: fs = before ++ found :: after ∧ seen.lead = k + before.length ∧
            found.1.start = seen.start ∧ ∀ other ∈ before, other.1.start ≠ seen.start := by
      obtain ⟨before, found, after, rfl, lead, starts, first⟩ := less before
      refine ⟨front :: before, found, after, rfl, ?_, starts, List.forall_mem_cons.2 ⟨apart, first⟩⟩
      rw [lead, List.length_cons]
      omega
    by_cases earlier : front.1.start < scan.start
    · have here : scan.see k front.1 =
          { start := front.1.start, stop := max scan.stop front.1.stop, lead := k } :=
        if_pos earlier
      rw [here] at same least later
      change seen.start ≤ front.1.start at least
      refine ⟨fun unchanged => ?_, fun _ => ?_⟩
      · exact absurd (unchanged ▸ least) (Nat.not_le.2 earlier)
      · rcases Nat.eq_or_lt_of_le least with first | before
        · exact ⟨[], front, fs, rfl, same first, first.symm, List.forall_mem_nil _⟩
        · exact later before (Nat.ne_of_gt before)
    · have here : scan.see k front.1 = { scan with stop := max scan.stop front.1.stop } :=
        if_neg earlier
      rw [here] at same later
      exact ⟨same, fun before => later before (by omega)⟩

theorem scan?_eq (before places : List Nat) (full : places.length = lists.length)
    (same : leftFrom places lists = fs.map Front.spans) (scan : Scan) :
    scan? (before ++ places) before.length scan lists = some (scan.seeAll before.length fs) := by
  induction lists generalizing before places fs scan with
  | nil =>
    obtain rfl := List.eq_nil_of_length_eq_zero full
    obtain rfl := List.map_eq_nil_iff.1 same.symm
    rfl
  | cons list lists ih =>
    cases places with
    | nil => cases full
    | cons place places =>
      obtain ⟨front, fs, rfl⟩ : ∃ front others, fs = front :: others := by
        cases fs with
        | nil => cases same
        | cons front others => exact ⟨front, others, rfl⟩
      obtain ⟨left, others⟩ := List.cons.inj same
      have there : (before ++ place :: places)[before.length]? = some place := by simp
      have first : list[place]? = some front.1 := by
        rw [← List.head?_drop, left]
        rfl
      rw [scan?, there]
      dsimp only
      rw [first]
      dsimp only
      have next := ih (before ++ [place]) places (Nat.succ.inj full) others
        (scan.see before.length front.1)
      rwa [List.append_assoc, List.singleton_append, List.length_append, List.length_singleton]
        at next

theorem leftFrom_set (places : List Nat) {i : Nat} (place : Nat) {list : List Span}
    (there : lists[i]? = some list) :
    leftFrom (places.set i place) lists = (leftFrom places lists).set i (list.drop place) := by
  induction lists generalizing places i with
  | nil => cases there
  | cons first lists ih =>
    cases places with
    | nil => rfl
    | cons p places =>
      cases i with
      | zero =>
        cases there
        rfl
      | succ i => exact congrArg (first.drop p :: ·) (ih places there)

theorem leftFrom_next {places : List Nat} {before after : List Front} {s t : Span}
    {rest list : List Span} {place : Nat}
    (same : leftFrom places lists = (before ++ (s, t :: rest) :: after).map Front.spans)
    (there : lists[before.length]? = some list) (left : list.drop place = s :: t :: rest) :
    leftFrom (places.set before.length (place + 1)) lists =
      (before ++ (t, rest) :: after).map Front.spans := by
  rw [leftFrom_set places (place + 1) there, ← List.tail_drop, left, same]
  simp [Front.spans]

theorem start_hull_le_stop (nonempty : fs ≠ [])
    (forward : ∀ front ∈ fs, front.1.start ≤ front.1.stop) : (hull fs).start ≤ (hull fs).stop := by
  obtain ⟨early, among, least⟩ := (exists_hull nonempty).1
  have := forward early among
  have := le_stop_hull among
  omega

theorem advance_append {before : List Front} (apart : ∀ front ∈ before, front.1.start ≠ start)
    (after : List Front) : advance start (before ++ after) =
      (advance start after).map (before ++ ·) := by
  induction before with
  | nil => exact Option.map_id'.symm
  | cons front before ih =>
    obtain ⟨here, others⟩ := List.forall_mem_cons.1 apart
    rw [List.cons_append, advance_of_ne front.2 here, ih others, Option.map_map]
    rfl

/-- A look finds the window over the fronts, and the list in which `advance` goes on. -/
theorem exists_lead (places : List Nat) (full : places.length = lists.length)
    (same : leftFrom places lists = fs.map Front.spans) (nonempty : fs ≠ [])
    (below : ∀ front ∈ fs, front.1.start < top) :
    ∃ before s rest after place list, fs = before ++ (s, rest) :: after ∧
      scan? places 0 (.blank top) lists =
        some { start := (hull fs).start, stop := (hull fs).stop, lead := before.length } ∧
      advance (hull fs).start fs = (advance s.start ((s, rest) :: after)).map (before ++ ·) ∧
      places[before.length]? = some place ∧ lists[before.length]? = some list ∧
      list.drop place = s :: rest := by
  have scanned := scan?_eq [] places full same (.blank top)
  rw [List.nil_append, List.length_nil] at scanned
  obtain ⟨starts, stops⟩ := Scan.seeAll_eq_hull (.blank top) 0 nonempty
  obtain ⟨early, among, least⟩ := (exists_hull nonempty).1
  have earlier : (hull fs).start < top := least ▸ below early among
  replace starts := starts.trans (Nat.min_eq_right (Nat.le_of_lt earlier))
  replace stops := stops.trans (Nat.zero_max _)
  have leads := (Scan.lead_seeAll (.blank top) 0 fs).2
  generalize (Scan.blank top).seeAll 0 fs = seen at scanned starts stops leads
  rw [starts] at leads
  obtain ⟨before, ⟨s, rest⟩, after, split, lead, here, first⟩ := leads earlier
  have there : (leftFrom places lists)[before.length]? = some (s :: rest) := by
    rw [same, split]
    simp [Front.spans]
  obtain ⟨place, list, inPlaces, inLists, left⟩ := List.getElem?_zipWith_eq_some.1 there
  refine ⟨before, s, rest, after, place, list, split, ?_, ?_, inPlaces, inLists, left⟩
  · rw [scanned, ← starts, ← stops, ← Nat.zero_add before.length, ← lead]
  · rw [← here] at first ⊢
    rw [split, advance_append first]

/-- From the same fronts both searches find the same windows, if there are enough looks. -/
theorem unorderedByPlacesFrom_eq (lists : List (List Span)) (looks : Nat) (places : List Nat)
    (full : places.length = lists.length) (same : leftFrom places lists = fs.map Front.spans)
    (nonempty : fs ≠ []) (forward : ∀ front ∈ fs, ∀ s ∈ front.spans, s.start ≤ s.stop)
    (below : ∀ front ∈ fs, ∀ s ∈ front.spans, s.start < top) (enough : behind fs < looks) :
    unorderedByPlacesFrom top width lists looks places = some (unorderedFrom width fs) := by
  -- every look but the last takes one span away, so there are more looks than spans behind fronts
  induction looks generalizing places fs with
  | zero => exact absurd enough (Nat.not_lt_zero _)
  | succ looks ih =>
    obtain ⟨before, s, rest, after, place, list, split, scanned, moved, inPlaces, inLists, left⟩ :=
      exists_lead places full same nonempty fun front member =>
        below front member front.1 List.mem_cons_self
    have wide : (hull fs).start ≤ (hull fs).stop :=
      start_hull_le_stop nonempty fun front member => forward front member _ List.mem_cons_self
    have size := congrArg List.length left
    rw [List.length_drop, List.length_cons] at size
    rw [unorderedByPlacesFrom, scanned]
    dsimp only
    rw [minus?_eq wide, inPlaces, inLists, unorderedFrom_eq]
    dsimp only
    suffices later : (if place + 1 = list.length then some [] else
        unorderedByPlacesFrom top width lists looks (places.set before.length (place + 1))) =
        some (((advance (hull fs).start fs).map (unorderedFrom width)).getD []) by
      rw [later, Option.map_some]
      refine congrArg some ?_
      split <;> rfl
    -- the list of the lead is at its end just when no span is behind its front
    cases rest with
    | nil =>
      rw [moved, advance, if_pos rfl]
      rw [List.length_nil] at size
      exact if_pos (by omega)
    | cons t rest =>
      rw [advance, if_pos rfl, Option.map_some] at moved
      rw [List.length_cons] at size
      rw [moved, if_neg (by omega)]
      have fewer : behind (before ++ (t, rest) :: after) < looks := by
        have := behind_advance moved
        omega
      exact ih (places.set before.length (place + 1)) ((List.length_set).trans full)
        (leftFrom_next (split ▸ same) inLists left) (by simp)
        (forall_spans_of_advance moved _ forward) (forall_spans_of_advance moved _ below) fewer

/-- Nothing fails in the search for unordered windows if no span stops before it starts. -/
theorem unorderedByPlaces_eq (width : Nat) (forward : ∀ list ∈ lists, ∀ s ∈ list, s.start ≤ s.stop)
    (below : ∀ list ∈ lists, ∀ s ∈ list, s.start < top) :
    unorderedByPlaces top width lists = some (unordered width lists) := by
  rcases unordered_cases lists with rfl | empty | ⟨fs, nonempty, rfl⟩
  · exact if_pos (.inl rfl)
  · rw [unordered_of_empty width empty]
    exact if_pos (.inr empty)
  · have none : ¬(fs.map Front.spans = [] ∨ [] ∈ fs.map Front.spans) := by
      simpa [Front.spans] using nonempty
    have enough : behind fs < (fs.map Front.spans).flatten.length := by
      have := behind_add_length fs
      have := List.length_pos_of_ne_nil nonempty
      rw [List.length_flatten]
      omega
    rw [List.forall_mem_map] at forward below
    rw [unorderedByPlaces, if_neg none, unordered_map_spans nonempty]
    exact unorderedByPlacesFrom_eq _ _ _ (List.length_map _) (leftFrom_zero _) nonempty forward
      below enough

end Unordered

def byPlaces (top : Nat) (order : WindowOrder) (width : Nat) (lists : List (List Span)) :
    Option (List Span) :=
  match order with
  | .ordered => orderedByPlaces width lists
  | .unordered => unorderedByPlaces top width lists

/-- No look and no difference fails over lists that are in form, and the windows are the same. -/
theorem byPlaces_eq {top : Nat} {lists : List (List Span)}
    (formed : ∀ list ∈ lists, Formed list) (within : ∀ list ∈ lists, ∀ s ∈ list, s.stop ≤ top)
    (order : WindowOrder) (width : Nat) :
    byPlaces top order width lists = some (Plan.windows order width lists) := by
  cases order with
  | ordered => exact orderedByPlaces_eq width lists
  | unordered =>
    refine unorderedByPlaces_eq width ?_ ?_
    · exact fun list member s inside => Nat.le_of_lt ((formed list member).filled s inside)
    · exact fun list member s inside =>
        Nat.lt_of_lt_of_le ((formed list member).filled s inside) (within list member s inside)

end RankedRetrieval.Window
