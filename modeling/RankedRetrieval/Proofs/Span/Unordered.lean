import RankedRetrieval.Proofs.Span.Ordered
import RankedRetrieval.Proofs.Span.Window

set_option autoImplicit false

namespace RankedRetrieval.Window

variable {width offset : Nat} {p s : Span} {list : List Span} {lists next : List Front}
  {front : Front} {given : List (List Span)}

def Front.spans (front : Front) : List Span := front.1 :: front.2

theorem fronts_map_spans (lists : List Front) : fronts (lists.map Front.spans) = some lists := by
  induction lists with
  | nil => rfl
  | cons front lists ih => rw [List.map_cons, Front.spans, fronts, ih, Option.map_some]

theorem eq_of_fronts {spans : List (List Span)} (h : fronts spans = some lists) :
    spans = lists.map Front.spans := by
  induction spans generalizing lists with
  | nil =>
    cases h
    rfl
  | cons list spans ih =>
    cases list with
    | nil => cases h
    | cons s rest =>
      obtain ⟨others, found, rfl⟩ := Option.map_eq_some_iff.1 h
      rw [ih found]
      rfl

theorem unordered_map_spans (some : lists ≠ []) :
    unordered width (lists.map Front.spans) = unorderedFrom width lists := by
  cases lists with
  | nil => exact absurd rfl some
  | cons front rest => rw [unordered, fronts_map_spans]

theorem unordered_cases (spans : List (List Span)) :
    spans = [] ∨ [] ∈ spans ∨ ∃ lists : List Front, lists ≠ [] ∧ spans = lists.map Front.spans := by
  cases found : fronts spans with
  | some lists =>
    rw [eq_of_fronts found]
    cases lists with
    | nil => exact .inl rfl
    | cons front rest => exact .inr (.inr ⟨front :: rest, List.cons_ne_nil _ _, rfl⟩)
  | none =>
    refine .inr (.inl ?_)
    induction spans with
    | nil => cases found
    | cons list spans ih =>
      cases list with
      | nil => exact List.mem_cons_self
      | cons s rest => exact List.mem_cons_of_mem _ (ih (Option.map_eq_none_iff.1 found))

theorem start_hull_le (member : front ∈ lists) : (hull lists).start ≤ front.1.start := by
  induction lists with
  | nil => cases member
  | cons first rest ih =>
    cases rest with
    | nil =>
      rw [List.mem_singleton.1 member]
      exact Nat.le_refl _
    | cons second rest =>
      rcases List.mem_cons.1 member with rfl | later
      · exact Nat.min_le_left _ _
      · exact Nat.le_trans (Nat.min_le_right _ _) (ih later)

theorem le_stop_hull (member : front ∈ lists) : front.1.stop ≤ (hull lists).stop := by
  induction lists with
  | nil => cases member
  | cons first rest ih =>
    cases rest with
    | nil =>
      rw [List.mem_singleton.1 member]
      exact Nat.le_refl _
    | cons second rest =>
      rcases List.mem_cons.1 member with rfl | later
      · exact Nat.le_max_left _ _
      · exact Nat.le_trans (ih later) (Nat.le_max_right _ _)

theorem exists_hull (some : lists ≠ []) :
    (∃ front ∈ lists, front.1.start = (hull lists).start) ∧
      ∃ front ∈ lists, front.1.stop = (hull lists).stop := by
  induction lists with
  | nil => exact absurd rfl some
  | cons first rest ih =>
    cases rest with
    | nil => exact ⟨⟨first, List.mem_cons_self, rfl⟩, ⟨first, List.mem_cons_self, rfl⟩⟩
    | cons second rest =>
      obtain ⟨⟨early, among, least⟩, late, among', greatest⟩ := ih (List.cons_ne_nil _ _)
      refine ⟨?_, ?_⟩
      · rcases Nat.le_total first.1.start (hull (second :: rest)).start with le | le
        · exact ⟨first, List.mem_cons_self, (Nat.min_eq_left le).symm⟩
        · exact ⟨early, List.mem_cons_of_mem _ among, least.trans (Nat.min_eq_right le).symm⟩
      · rcases Nat.le_total (hull (second :: rest)).stop first.1.stop with le | le
        · exact ⟨first, List.mem_cons_self, (Nat.max_eq_left le).symm⟩
        · exact ⟨late, List.mem_cons_of_mem _ among', greatest.trans (Nat.max_eq_right le).symm⟩

theorem advance_of_ne {start : Nat} (rest : List Span) (apart : s.start ≠ start) :
    advance start ((s, rest) :: lists) = (advance start lists).map ((s, rest) :: ·) := by
  conv_lhs => unfold advance
  exact if_neg apart

theorem of_advance {start : Nat} (h : advance start lists = some next) :
    ∃ before s t rest behind, s.start = start ∧ lists = before ++ (s, t :: rest) :: behind ∧
      next = before ++ (t, rest) :: behind := by
  induction lists generalizing next with
  | nil => cases h
  | cons front lists ih =>
    obtain ⟨s, rest⟩ := front
    by_cases here : s.start = start
    · cases rest with
      | nil =>
        rw [advance, if_pos here] at h
        cases h
      | cons t rest =>
        rw [advance, if_pos here] at h
        cases h
        exact ⟨[], s, t, rest, lists, here, rfl, rfl⟩
    · rw [advance_of_ne rest here] at h
      obtain ⟨others, moved, rfl⟩ := Option.map_eq_some_iff.1 h
      obtain ⟨before, u, t, rest', behind, starts, rfl, rfl⟩ := ih moved
      exact ⟨(s, rest) :: before, u, t, rest', behind, starts, rfl, rfl⟩

theorem of_advance_none {start : Nat} (attained : ∃ front ∈ lists, front.1.start = start)
    (h : advance start lists = none) : ∃ s, (s, []) ∈ lists ∧ s.start = start := by
  induction lists with
  | nil =>
    obtain ⟨_, none, _⟩ := attained
    cases none
  | cons front lists ih =>
    obtain ⟨s, rest⟩ := front
    by_cases here : s.start = start
    · cases rest with
      | nil => exact ⟨s, List.mem_cons_self, here⟩
      | cons t rest =>
        rw [advance, if_pos here] at h
        cases h
    · rw [advance_of_ne rest here, Option.map_eq_none_iff] at h
      have later : ∃ front ∈ lists, front.1.start = start := by
        obtain ⟨front, member, starts⟩ := attained
        rcases List.mem_cons.1 member with rfl | member
        · exact absurd starts here
        · exact ⟨front, member, starts⟩
      obtain ⟨u, member, starts⟩ := ih later h
      exact ⟨u, List.mem_cons_of_mem _ member, starts⟩

theorem spans_of_advance {start : Nat} (h : advance start lists = some next) :
    List.Forall₂ (fun front front' => front'.spans.Sublist front.spans) lists next := by
  obtain ⟨before, s, t, rest, behind, _, rfl, rfl⟩ := of_advance h
  have same (fronts : List Front) :
      List.Forall₂ (fun front front' => front'.spans.Sublist front.spans) fronts fronts :=
    List.forall₂_same.2 fun front _ => List.Sublist.refl front.spans
  exact List.rel_append (same before) (.cons (List.sublist_cons_self s _) (same behind))

theorem unorderedFrom_eq (width : Nat) (lists : List Front) :
    unorderedFrom width lists =
      (if (hull lists).stop - (hull lists).start ≤ width then [hull lists] else []) ++
        ((advance (hull lists).start lists).map (unorderedFrom width)).getD [] := by
  rw [unorderedFrom]
  cases advance (hull lists).start lists <;> dsimp only <;> split <;> rfl

theorem advance_induct {motive : List Front → Prop}
    (step : ∀ lists, (∀ next, advance (hull lists).start lists = some next → motive next) →
      motive lists) (lists : List Front) : motive lists :=
  unorderedFrom.induct 0 motive (fun lists _ ih => step lists ih) (fun lists _ ih => step lists ih)
    lists

/-- What holds of the first windows, and of those the search goes on to, holds of all. -/
theorem forall_unorderedFrom (good : Span → Prop) (holds : List Front → Prop)
    (here : ∀ lists, holds lists → good (hull lists))
    (step : ∀ lists next, holds lists → advance (hull lists).start lists = some next → holds next)
    (h : holds lists) : ∀ window ∈ unorderedFrom width lists, good window := by
  induction lists using advance_induct with
  | step lists ih =>
    rw [unorderedFrom_eq, List.forall_mem_append]
    refine ⟨?_, ?_⟩
    · split
      · exact List.forall_mem_singleton.2 (here lists h)
      · exact List.forall_mem_nil _
    · cases moved : advance (hull lists).start lists with
      | none => exact List.forall_mem_nil _
      | some next => exact ih next moved (step lists next h moved)

theorem rising_of_advance {start : Nat} (rising : ∀ front ∈ lists, Rising front.spans)
    (h : advance start lists = some next) : ∀ front ∈ next, Rising front.spans := by
  intro front member
  obtain ⟨i, inside, rfl⟩ := List.mem_iff_getElem.1 member
  have moved := spans_of_advance h
  have within : i < lists.length := moved.length_eq ▸ inside
  exact (rising _ (List.getElem_mem within)).sublist (moved.get within inside)

theorem le_start_unorderedFrom {start : Nat} (some : lists ≠ [])
    (all : ∀ front ∈ lists, ∀ s ∈ front.spans, start ≤ s.start) :
    ∀ window ∈ unorderedFrom width lists, start ≤ window.start := by
  refine forall_unorderedFrom (fun window => start ≤ window.start)
    (fun lists => lists ≠ [] ∧ ∀ front ∈ lists, ∀ s ∈ front.spans, start ≤ s.start)
    ?_ ?_ ⟨some, all⟩
  · rintro lists ⟨some, all⟩
    obtain ⟨early, among, starts⟩ := (exists_hull some).1
    exact starts ▸ all early among early.1 List.mem_cons_self
  · rintro lists next ⟨some, all⟩ h
    have moved := spans_of_advance h
    refine ⟨fun none => some ?_, fun front member s inside => ?_⟩
    · rw [none] at moved
      exact List.forall₂_nil_right_iff.1 moved
    · obtain ⟨i, there, rfl⟩ := List.mem_iff_getElem.1 member
      have within : i < lists.length := moved.length_eq ▸ there
      exact all _ (List.getElem_mem within) s ((moved.get within there).subset inside)

theorem lt_stop_unorderedFrom {stop : Nat}
    (late : ∃ front ∈ lists, ∀ s ∈ front.spans, stop < s.stop) :
    ∀ window ∈ unorderedFrom width lists, stop < window.stop := by
  refine forall_unorderedFrom (fun window => stop < window.stop)
    (fun lists => ∃ front ∈ lists, ∀ s ∈ front.spans, stop < s.stop) ?_ ?_ late
  · rintro lists ⟨front, member, all⟩
    exact Nat.lt_of_lt_of_le (all front.1 List.mem_cons_self) (le_stop_hull member)
  · rintro lists next ⟨front, member, all⟩ h
    have moved := spans_of_advance h
    obtain ⟨i, there, rfl⟩ := List.mem_iff_getElem.1 member
    have within : i < next.length := moved.length_eq ▸ there
    exact ⟨_, List.getElem_mem within, fun s inside =>
      all s ((moved.get there within).subset inside)⟩

/-- The windows that start from a place on are those of the spans that do. -/
theorem unorderedFrom_from (start : Nat) (rising : ∀ front ∈ lists, Rising front.spans)
    (some : lists ≠ []) :
    (unorderedFrom width lists).filter (fun window => start ≤ window.start) =
      unordered width ((lists.map Front.spans).map (List.filter fun s => start ≤ s.start)) := by
  induction lists using advance_induct with
  | step lists ih =>
    obtain ⟨early, among, starts⟩ := (exists_hull some).1
    by_cases reached : start ≤ (hull lists).start
    · -- nothing has to go
      have all : ∀ front ∈ lists, ∀ s ∈ front.spans, start ≤ s.start := fun front member s inside =>
        Nat.le_trans reached (Nat.le_trans (start_hull_le member)
          ((rising front member).start_le inside))
      have kept : (lists.map Front.spans).map (List.filter fun s => start ≤ s.start) =
          lists.map Front.spans := by
        rw [List.map_map]
        exact List.map_congr_left fun front member =>
          List.filter_eq_self.2 fun s inside => by simpa using all front member s inside
      rw [kept, unordered_map_spans some, List.filter_eq_self]
      exact fun window found => by simpa using le_start_unorderedFrom some all window found
    · -- the hull starts too early: its window goes, and so does the early span the search drops
      rw [unorderedFrom_eq, List.filter_append]
      have dropped : (if (hull lists).stop - (hull lists).start ≤ width then [hull lists]
          else []).filter (fun window => start ≤ window.start) = [] := by
        split <;> simp [reached]
      rw [dropped, List.nil_append]
      cases moved : advance (hull lists).start lists with
      | none =>
        obtain ⟨s, member, starts⟩ := of_advance_none ⟨early, among, starts⟩ moved
        have lost : ¬ start ≤ s.start := starts ▸ reached
        refine (unordered_of_empty width (List.mem_map.2 ⟨[s], ?_, ?_⟩)).symm
        · exact List.mem_map.2 ⟨(s, []), member, rfl⟩
        · simp [lost]
      | some next =>
        rw [Option.map_some, Option.getD_some,
          ih next moved (rising_of_advance rising moved) ?_]
        · obtain ⟨before, s, t, rest, behind, starts, rfl, rfl⟩ := of_advance moved
          have lost : ¬ start ≤ s.start := starts ▸ reached
          simp [Front.spans, lost]
        · obtain ⟨before, s, t, rest, behind, _, _, rfl⟩ := of_advance moved
          simp

/-- A front without the spans behind it that stop too late. -/
def Front.upTo (stop : Nat) (front : Front) : Front :=
  (front.1, front.2.filter fun s => s.stop ≤ stop)

theorem hull_upTo (stop : Nat) (lists : List Front) :
    hull (lists.map (Front.upTo stop)) = hull lists := by
  induction lists with
  | nil => rfl
  | cons first rest ih =>
    cases rest with
    | nil => rfl
    | cons second rest =>
      rw [List.map_cons] at ih
      rw [List.map_cons, List.map_cons, hull, ih]
      rfl

theorem filter_eq_nil_of_lt_stop {stop : Nat} (rising : Rising (s :: list)) (late : stop < s.stop) :
    (s :: list).filter (fun s => s.stop ≤ stop) = [] := by
  refine List.filter_eq_nil_iff.2 fun t member ends => ?_
  have := rising.stop_le member
  have := of_decide_eq_true ends
  omega

/-- Without the late spans a search goes on as before, until it comes to a late one. -/
theorem advance_upTo (stop : Nat) {start : Nat} (rising : ∀ front ∈ lists, Rising front.spans)
    (early : ∀ front ∈ lists, front.1.stop ≤ stop) :
    advance start (lists.map (Front.upTo stop)) =
      (advance start lists).bind fun next =>
        if next.all fun front => front.1.stop ≤ stop then some (next.map (Front.upTo stop))
        else none := by
  induction lists with
  | nil => rfl
  | cons front lists ih =>
    obtain ⟨s, rest⟩ := front
    obtain ⟨risingHere, risingLater⟩ := List.forall_mem_cons.1 rising
    obtain ⟨here, later⟩ := List.forall_mem_cons.1 early
    have laterAll : lists.all (fun front => front.1.stop ≤ stop) = true :=
      List.all_eq_true.2 fun front member => by simpa using later front member
    rw [List.map_cons, Front.upTo]
    by_cases starts : s.start = start
    · cases rest with
      | nil =>
        rw [List.filter_nil, advance, advance, if_pos starts, if_pos starts, Option.bind_none]
      | cons t rest =>
        rw [advance, if_pos starts, Option.bind_some, List.all_cons, laterAll, Bool.and_true]
        by_cases ends : t.stop ≤ stop
        · rw [List.filter_cons_of_pos (by simpa using ends), advance, if_pos starts,
            if_pos (by simpa using ends)]
          rfl
        · have rest := risingHere.sublist (List.sublist_cons_self s (t :: rest))
          rw [filter_eq_nil_of_lt_stop rest (by omega), advance, if_pos starts,
            if_neg (by simpa using ends)]
    · rw [advance_of_ne _ starts, advance_of_ne _ starts, ih risingLater later]
      cases advance start lists with
      | none => rfl
      | some next =>
        have here : decide (s.stop ≤ stop) = true := by simpa using here
        rw [Option.map_some, Option.bind_some, Option.bind_some, List.all_cons, here, Bool.true_and]
        split <;> rfl

theorem spans_upTo (stop : Nat) (early : ∀ front ∈ lists, front.1.stop ≤ stop) :
    (lists.map (Front.upTo stop)).map Front.spans =
      (lists.map Front.spans).map (List.filter fun s => s.stop ≤ stop) := by
  symm
  rw [List.map_map, List.map_map]
  refine List.map_congr_left fun front member => ?_
  exact List.filter_cons_of_pos (by simpa using early front member)

theorem unordered_of_late {stop : Nat} (rising : ∀ front ∈ lists, Rising front.spans)
    (late : ∃ front ∈ lists, stop < front.1.stop) :
    unordered width ((lists.map Front.spans).map (List.filter fun s => s.stop ≤ stop)) = [] := by
  obtain ⟨front, member, ends⟩ := late
  have empty := filter_eq_nil_of_lt_stop (rising front member) ends
  exact unordered_of_empty width (List.mem_map.2 ⟨_, List.mem_map_of_mem member, empty⟩)

/-- The windows that stop by a place are those of the spans that do. -/
theorem unorderedFrom_upTo (stop : Nat) (rising : ∀ front ∈ lists, Rising front.spans)
    (some : lists ≠ []) :
    (unorderedFrom width lists).filter (fun window => window.stop ≤ stop) =
      unordered width ((lists.map Front.spans).map (List.filter fun s => s.stop ≤ stop)) := by
  induction lists using advance_induct with
  | step lists ih =>
    by_cases late : ∃ front ∈ lists, stop < front.1.stop
    · -- a front that stops too late rules out every window, as no later span of its list is earlier
      rw [unordered_of_late rising late, List.filter_eq_nil_iff]
      obtain ⟨front, member, ends⟩ := late
      have all : ∀ s ∈ front.spans, stop < s.stop := fun s inside =>
        Nat.lt_of_lt_of_le ends ((rising front member).stop_le inside)
      intro window found ends
      have := lt_stop_unorderedFrom ⟨front, member, all⟩ window found
      have := of_decide_eq_true ends
      omega
    · -- otherwise both searches hold the same fronts, and move on together
      have early : ∀ front ∈ lists, front.1.stop ≤ stop := fun front member =>
        Nat.not_lt.1 fun ends => late ⟨front, member, ends⟩
      obtain ⟨⟨first, among, starts⟩, last, among', ends⟩ := exists_hull some
      have inside : (hull lists).stop ≤ stop := ends ▸ early last among'
      rw [← spans_upTo stop early, unordered_map_spans (by simpa using some), unorderedFrom_eq,
        unorderedFrom_eq width (lists.map _), hull_upTo, List.filter_append,
        advance_upTo stop rising early]
      congr 1
      · split
        · exact List.filter_cons_of_pos (by simpa using inside)
        · rfl
      · cases moved : advance (hull lists).start lists with
        | none => rfl
        | some next =>
          have left : next ≠ [] := by
            obtain ⟨before, s, t, rest, behind, _, _, rfl⟩ := of_advance moved
            simp
          have risingNext := rising_of_advance rising moved
          rw [Option.map_some, Option.getD_some, Option.bind_some, ih next moved risingNext left]
          by_cases all : next.all (fun front => front.1.stop ≤ stop) = true
          · rw [if_pos all, Option.map_some, Option.getD_some,
              ← unordered_map_spans (by simpa using left), spans_upTo stop (by simpa using all)]
          · rw [if_neg all, Option.map_none, Option.getD_none,
              unordered_of_late risingNext (by simpa using all)]

theorem unordered_filter {keep : Span → Bool}
    (each : ∀ lists : List Front, lists ≠ [] → (∀ front ∈ lists, Rising front.spans) →
      (unorderedFrom width lists).filter keep =
        unordered width ((lists.map Front.spans).map (List.filter keep)))
    (rising : ∀ list ∈ given, Rising list) :
    (unordered width given).filter keep = unordered width (given.map (List.filter keep)) := by
  rcases unordered_cases given with rfl | empty | ⟨lists, some, rfl⟩
  · rfl
  · have empty' : [] ∈ given.map (List.filter keep) := List.mem_map.2 ⟨[], empty, rfl⟩
    rw [unordered_of_empty width empty, unordered_of_empty width empty', List.filter_nil]
  · rw [unordered_map_spans some]
    exact each lists some fun front member => rising _ (List.mem_map_of_mem member)

theorem unordered_within (rising : ∀ list ∈ given, Rising list) :
    (unordered width given).filter p.contains =
      unordered width (given.map (List.filter p.contains)) := by
  have both (list : List Span) : list.filter p.contains =
      (list.filter fun s => p.start ≤ s.start).filter fun s => s.stop ≤ p.stop := by
    rw [List.filter_filter]
    exact List.filter_congr fun s _ => by rw [Span.contains, Bool.and_comm]
  have risingFrom : ∀ list ∈ given.map (List.filter fun s => p.start ≤ s.start), Rising list := by
    intro list member
    obtain ⟨whole, inside, rfl⟩ := List.mem_map.1 member
    exact (rising whole inside).filter _
  rw [both, unordered_filter (fun lists some h => unorderedFrom_from p.start h some) rising,
    unordered_filter (fun lists some h => unorderedFrom_upTo p.stop h some) risingFrom,
    List.map_map]
  congr 1
  exact List.map_congr_left fun list _ => (both list).symm

def Front.shift (offset : Nat) (front : Front) : Front :=
  (front.1.shift offset, front.2.map (Span.shift offset))

theorem hull_shift (some : lists ≠ []) :
    hull (lists.map (Front.shift offset)) = (hull lists).shift offset := by
  induction lists with
  | nil => exact absurd rfl some
  | cons first rest ih =>
    cases rest with
    | nil => rfl
    | cons second rest =>
      have later := ih (List.cons_ne_nil _ _)
      rw [List.map_cons] at later
      rw [List.map_cons, List.map_cons, hull, later, hull]
      simp [Front.shift, Span.shift, Nat.add_min_add_right, Nat.add_max_add_right]

theorem advance_shift (start offset : Nat) (lists : List Front) :
    advance (start + offset) (lists.map (Front.shift offset)) =
      (advance start lists).map (List.map (Front.shift offset)) := by
  induction lists with
  | nil => rfl
  | cons front lists ih =>
    obtain ⟨s, rest⟩ := front
    rw [List.map_cons, Front.shift]
    by_cases here : s.start = start
    · have shifted : (s.shift offset).start = start + offset := congrArg (· + offset) here
      cases rest with
      | nil => rw [List.map_nil, advance, advance, if_pos here, if_pos shifted, Option.map_none]
      | cons t rest =>
        rw [List.map_cons, advance, advance, if_pos here, if_pos shifted]
        rfl
    · have shifted : (s.shift offset).start ≠ start + offset := fun same =>
        here (Nat.add_right_cancel same)
      rw [advance_of_ne _ here, advance_of_ne _ shifted, ih, Option.map_map, Option.map_map]
      rfl

theorem unorderedFrom_shift (some : lists ≠ []) :
    unorderedFrom width (lists.map (Front.shift offset)) =
      (unorderedFrom width lists).map (Span.shift offset) := by
  induction lists using advance_induct with
  | step lists ih =>
    have wide : ((hull lists).shift offset).stop - ((hull lists).shift offset).start =
        (hull lists).stop - (hull lists).start := Nat.add_sub_add_right _ _ _
    have moves := advance_shift (hull lists).start offset lists
    rw [unorderedFrom_eq, unorderedFrom_eq width lists, hull_shift some, wide, List.map_append,
      show ((hull lists).shift offset).start = (hull lists).start + offset from rfl, moves]
    congr 1
    · split <;> rfl
    · cases moved : advance (hull lists).start lists with
      | none => rfl
      | some next =>
        refine ih next moved fun none => ?_
        obtain ⟨before, s, t, rest, behind, _, _, rfl⟩ := of_advance moved
        simp at none

theorem unordered_shift :
    unordered width (given.map (List.map (Span.shift offset))) =
      (unordered width given).map (Span.shift offset) := by
  rcases unordered_cases given with rfl | empty | ⟨lists, some, rfl⟩
  · rfl
  · have empty' : [] ∈ given.map (List.map (Span.shift offset)) :=
      List.mem_map.2 ⟨[], empty, rfl⟩
    rw [unordered_of_empty width empty, unordered_of_empty width empty', List.map_nil]
  · have shifted : (lists.map Front.spans).map (List.map (Span.shift offset)) =
        (lists.map (Front.shift offset)).map Front.spans := by
      rw [List.map_map, List.map_map]
      rfl
    rw [shifted, unordered_map_spans (by simpa using some), unordered_map_spans some,
      unorderedFrom_shift some]

end RankedRetrieval.Window
