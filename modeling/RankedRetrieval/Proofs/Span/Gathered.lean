import Mathlib.Order.Bounds.Basic
import RankedRetrieval.Proofs.Span.Linked
import RankedRetrieval.Proofs.Span.Unordered

set_option autoImplicit false

/-!
# Which unordered windows are found

Every window that is found is spanned by a choice of one span from each list
(`choice_of_unordered`). Where the stops of each list do not fall, the fronts that the search comes
to at a start are the earliest spans from there on. So the first window of a start is the narrowest
that a choice has there (`isLeast_of_find?`), and one is found wherever some choice is narrow enough
(`exists_start_unordered_iff`, `exists_unordered_iff`).
-/

namespace RankedRetrieval

structure Span.SpannedBy (window : Span) (chosen : List Span) : Prop where
  inside : ∀ s ∈ chosen, window.start ≤ s.start ∧ s.stop ≤ window.stop
  starts : ∃ s ∈ chosen, s.start = window.start
  stops : ∃ s ∈ chosen, s.stop = window.stop

namespace Window

variable {width b e : Nat} {lists next : List Front} {given left : List (List Span)}
  {window : Span}

/-- One span of each list can be chosen so that they span the window. -/
def Choice (given : List (List Span)) (window : Span) : Prop :=
  ∃ chosen, List.Forall₂ (· ∈ ·) chosen given ∧ window.SpannedBy chosen

theorem spannedBy_hull (some : lists ≠ []) : (hull lists).SpannedBy (lists.map Prod.fst) := by
  obtain ⟨⟨early, among, starts⟩, late, among', stops⟩ := exists_hull some
  refine ⟨List.forall_mem_map.2 fun front member => ?_, ?_, ?_⟩
  · exact ⟨start_hull_le member, le_stop_hull member⟩
  · exact ⟨early.1, List.mem_map_of_mem among, starts⟩
  · exact ⟨late.1, List.mem_map_of_mem among', stops⟩

theorem Choice.mono (h : Choice left window) (within : List.Forall₂ (· ⊆ ·) left given) :
    Choice given window := by
  obtain ⟨chosen, members, spanned⟩ := h
  refine ⟨chosen, ?_, spanned⟩
  clear spanned
  induction within generalizing chosen with
  | nil => exact members
  | cons sub _ ih =>
    cases members with
    | cons here others => exact .cons (sub here) (ih _ others)

theorem choice_hull (some : lists ≠ []) : Choice (lists.map Front.spans) (hull lists) := by
  refine ⟨lists.map Prod.fst, ?_, spannedBy_hull some⟩
  exact List.forall₂_map_left_iff.2 (List.forall₂_map_right_iff.2
    (List.forall₂_same.2 fun front _ => List.mem_cons_self))

/-- What is found is spanned by a choice and is no wider than what is asked for. -/
theorem choice_of_unorderedFrom (some : lists ≠ []) (h : window ∈ unorderedFrom width lists) :
    Choice (lists.map Front.spans) window ∧ window.stop - window.start ≤ width := by
  induction lists using advance_induct with
  | step lists ih =>
    rw [unorderedFrom_eq, List.mem_append] at h
    rcases h with here | later
    · split at here
      · rename_i narrow
        rw [List.mem_singleton.1 here]
        exact ⟨choice_hull some, narrow⟩
      · cases here
    · cases moved : advance (hull lists).start lists with
      | none =>
        rw [moved] at later
        cases later
      | some next =>
        rw [moved] at later
        have within := spans_of_advance moved
        have left : next ≠ [] := fun none => some (List.forall₂_nil_right_iff.1 (none ▸ within))
        obtain ⟨choice, narrow⟩ := ih next moved left later
        refine ⟨choice.mono ?_, narrow⟩
        exact List.forall₂_map_left_iff.2 (List.forall₂_map_right_iff.2
          (within.flip.imp fun _ _ sub => sub.subset))

theorem exists_of_mem_left {β γ : Type} {R : β → γ → Prop} {xs : List β} {ys : List γ}
    (h : List.Forall₂ R xs ys) {x : β} (member : x ∈ xs) : ∃ y ∈ ys, R x y := by
  induction h with
  | nil => cases member
  | cons here _ ih =>
    rcases List.mem_cons.1 member with rfl | later
    · exact ⟨_, List.mem_cons_self, here⟩
    · obtain ⟨y, inside, related⟩ := ih later
      exact ⟨y, List.mem_cons_of_mem _ inside, related⟩

theorem exists_of_mem_right {β γ : Type} {R : β → γ → Prop} {xs : List β} {ys : List γ}
    (h : List.Forall₂ R xs ys) {y : γ} (member : y ∈ ys) : ∃ x ∈ xs, R x y :=
  exists_of_mem_left h.flip member

theorem forall₂_filter {chosen : List Span} (members : List.Forall₂ (· ∈ ·) chosen given)
    {keep : Span → Bool} (all : ∀ s ∈ chosen, keep s = true) :
    List.Forall₂ (· ∈ ·) chosen (given.map (List.filter keep)) := by
  induction members with
  | nil => exact .nil
  | cons here _ ih =>
    obtain ⟨first, others⟩ := List.forall_mem_cons.1 all
    exact .cons (List.mem_filter.2 ⟨here, first⟩) (ih others)

theorem choice_of_unordered (h : window ∈ unordered width given) :
    Choice given window ∧ window.stop - window.start ≤ width := by
  rcases unordered_cases given with rfl | empty | ⟨lists, some, rfl⟩
  · cases h
  · rw [unordered_of_empty width empty] at h
    cases h
  · rw [unordered_map_spans some] at h
    exact choice_of_unorderedFrom some h

/-- Of the spans from the start of a choice on, the first ones span a window that starts there too
and stops no later. -/
theorem exists_fronts_of_choice (rising : ∀ list ∈ given, Rising list)
    (choice : Choice given { start := b, stop := e }) :
    ∃ lists : List Front, lists ≠ [] ∧
      given.map (List.filter fun s => b ≤ s.start) = lists.map Front.spans ∧
      (hull lists).start = b ∧ (hull lists).stop ≤ e := by
  obtain ⟨chosen, members, spanned⟩ := choice
  have kept : List.Forall₂ (· ∈ ·) chosen (given.map (List.filter fun s => b ≤ s.start)) := by
    refine forall₂_filter members fun s member => ?_
    simpa using (spanned.inside s member).1
  obtain ⟨s, among, starts⟩ := spanned.starts
  -- no list is empty after the filter, as the choice still has a span in each
  rcases unordered_cases (given.map (List.filter fun s => b ≤ s.start)) with
    none | empty | ⟨lists, some, same⟩
  · rw [none, List.forall₂_nil_right_iff] at kept
    rw [kept] at among
    cases among
  · obtain ⟨t, _, none⟩ := exists_of_mem_right kept empty
    cases none
  · rw [same, List.forall₂_map_right_iff] at kept
    have risingFront : ∀ front ∈ lists, Rising front.spans := by
      intro front member
      have inside : front.spans ∈ given.map (List.filter fun s => b ≤ s.start) :=
        same ▸ List.mem_map_of_mem member
      obtain ⟨list, whole, filtered⟩ := List.mem_map.1 inside
      exact filtered ▸ (rising list whole).filter _
    refine ⟨lists, some, same, Nat.le_antisymm ?_ ?_, ?_⟩
    · obtain ⟨front, member, here⟩ := exists_of_mem_left kept among
      have before : front.1.start ≤ s.start := (risingFront front member).start_le here
      rw [starts] at before
      exact Nat.le_trans (start_hull_le member) before
    · obtain ⟨front, member, earliest⟩ := (exists_hull some).1
      have inside : front.spans ∈ given.map (List.filter fun s => b ≤ s.start) :=
        same ▸ List.mem_map_of_mem member
      obtain ⟨list, _, filtered⟩ := List.mem_map.1 inside
      have first : front.1 ∈ list.filter fun s => b ≤ s.start := filtered ▸ List.mem_cons_self
      rw [← earliest]
      simpa using (List.mem_filter.1 first).2
    · obtain ⟨front, member, latest⟩ := (exists_hull some).2
      obtain ⟨t, chosenHere, here⟩ := exists_of_mem_right kept member
      rw [← latest]
      exact Nat.le_trans ((risingFront front member).stop_le here) (spanned.inside t chosenHere).2

/-- The first window from the start of a narrow choice on starts there, and ends no later. -/
theorem exists_first_of_choice (rising : ∀ list ∈ given, Rising list)
    (choice : Choice given { start := b, stop := e }) (narrow : e - b ≤ width) :
    ∃ first rest, (unordered width given).filter (fun window => b ≤ window.start) =
      first :: rest ∧ first.start = b ∧ first.stop ≤ e := by
  obtain ⟨lists, some, same, starts, stops⟩ := exists_fronts_of_choice rising choice
  have here : (hull lists).stop - (hull lists).start ≤ width := by omega
  rw [unordered_filter (fun _ some h => unorderedFrom_from b h some) rising, same,
    unordered_map_spans some, unorderedFrom_eq, if_pos here]
  exact ⟨hull lists, _, rfl, starts, stops⟩

/-- There is a window at a start just when some choice that is narrow enough starts there. -/
theorem exists_start_unordered_iff (rising : ∀ list ∈ given, Rising list) :
    (∃ window ∈ unordered width given, window.start = b) ↔
      ∃ e, Choice given { start := b, stop := e } ∧ e - b ≤ width := by
  refine ⟨?_, ?_⟩
  · rintro ⟨window, found, rfl⟩
    exact ⟨window.stop, choice_of_unordered found⟩
  · rintro ⟨e, choice, narrow⟩
    obtain ⟨first, rest, all, starts, _⟩ := exists_first_of_choice rising choice narrow
    have member : first ∈ (unordered width given).filter fun window => b ≤ window.start :=
      all ▸ List.mem_cons_self
    exact ⟨first, List.mem_of_mem_filter member, starts⟩

/-- The first window at a start ends where the choice ends that ends first. -/
theorem isLeast_of_find? (rising : ∀ list ∈ given, Rising list)
    (h : (unordered width given).find? (fun window => window.start = b) = some window) :
    IsLeast {e | Choice given { start := b, stop := e }} window.stop := by
  obtain rfl : window.start = b := by simpa using List.find?_some h
  obtain ⟨choice, narrow⟩ := choice_of_unordered (List.mem_of_find?_eq_some h)
  refine ⟨choice, fun e other => ?_⟩
  by_cases wide : e - window.start ≤ width
  · obtain ⟨first, rest, all, starts, stops⟩ := exists_first_of_choice rising other wide
    have found : ((unordered width given).filter fun v => window.start ≤ v.start).find?
        (fun v => v.start = window.start) = some window := by
      rw [List.find?_filter, ← h]
      congr 1
      funext v
      simp only [decide_eq_true_eq, Bool.decide_and, Bool.and_eq_right_iff_imp]
      exact fun same => Nat.le_of_eq same.symm
    rw [all, List.find?_cons_of_pos (by simpa using starts), Option.some.injEq] at found
    exact found ▸ stops
  · omega

theorem exists_spannedBy {chosen : List Span} (some : chosen ≠ []) :
    ∃ window : Span, window.SpannedBy chosen := by
  have spanned : (hull (chosen.map fun s => (s, []))).SpannedBy _ :=
    spannedBy_hull (by simpa using some)
  rw [List.map_map] at spanned
  exact ⟨_, by simpa [Function.comp_def] using spanned⟩

/-- Some window is found just when some choice lies within the width. -/
theorem exists_unordered_iff (rising : ∀ list ∈ given, Rising list) (some : given ≠ []) :
    unordered width given ≠ [] ↔
      ∃ chosen, List.Forall₂ (· ∈ ·) chosen given ∧
        ∃ start, ∀ s ∈ chosen, start ≤ s.start ∧ s.stop ≤ start + width := by
  refine ⟨fun found => ?_, fun ⟨chosen, members, start, near⟩ => ?_⟩
  · obtain ⟨window, member⟩ := List.exists_mem_of_ne_nil _ found
    obtain ⟨⟨chosen, members, spanned⟩, narrow⟩ := choice_of_unordered member
    refine ⟨chosen, members, window.start, fun s inside => ?_⟩
    have := spanned.inside s inside
    omega
  · have nonempty : chosen ≠ [] := fun none => some (List.forall₂_nil_left_iff.1 (none ▸ members))
    obtain ⟨window, spanned⟩ := exists_spannedBy nonempty
    have narrow : window.stop - window.start ≤ width := by
      obtain ⟨first, among, starts⟩ := spanned.starts
      obtain ⟨last, among', stops⟩ := spanned.stops
      have := near first among
      have := near last among'
      omega
    obtain ⟨first, rest, all, _⟩ := exists_first_of_choice rising ⟨chosen, members, spanned⟩ narrow
    intro none
    rw [none] at all
    cases all

/-- What holds between the first windows and all that the search goes on to holds along the whole
search. -/
theorem pairwise_unorderedFrom {before : Span → Span → Prop} (holds : List Front → Prop)
    (step : ∀ lists next, holds lists → advance (hull lists).start lists = some next →
      holds next ∧ ∀ window ∈ unorderedFrom width next, before (hull lists) window)
    (h : holds lists) : (unorderedFrom width lists).Pairwise before := by
  induction lists using advance_induct with
  | step lists ih =>
    rw [unorderedFrom_eq, List.pairwise_append]
    cases moved : advance (hull lists).start lists with
    | none =>
      refine ⟨?_, .nil, fun _ _ _ none => absurd none List.not_mem_nil⟩
      split
      · exact List.pairwise_singleton _ _
      · exact .nil
    | some next =>
      obtain ⟨holdsNext, later⟩ := step lists next h moved
      refine ⟨?_, ih next moved holdsNext, fun first here window found => ?_⟩
      · split
        · exact List.pairwise_singleton _ _
        · exact .nil
      · split at here
        · rw [List.mem_singleton.1 here]
          exact later window found
        · cases here

theorem ne_nil_of_advance {start : Nat} (h : advance start lists = some next) : next ≠ [] := by
  obtain ⟨before, s, t, rest, behind, _, _, rfl⟩ := of_advance h
  simp

theorem start_hull_le_of_mem (rising : ∀ front ∈ lists, Rising front.spans) {front : Front}
    (member : front ∈ lists) {s : Span} (inside : s ∈ front.spans) :
    (hull lists).start ≤ s.start :=
  Nat.le_trans (start_hull_le member) ((rising front member).start_le inside)

theorem forall_spans_of_advance {start : Nat} (h : advance start lists = some next)
    (good : Span → Prop) (all : ∀ front ∈ lists, ∀ s ∈ front.spans, good s) :
    ∀ front ∈ next, ∀ s ∈ front.spans, good s := by
  intro front member s inside
  obtain ⟨whole, among, sub⟩ := exists_of_mem_right (spans_of_advance h) member
  exact all whole among s (sub.subset inside)

theorem starts_unorderedFrom (rising : ∀ front ∈ lists, Rising front.spans) :
    (unorderedFrom width lists).Pairwise fun v w => v.start ≤ w.start := by
  refine pairwise_unorderedFrom (fun lists => ∀ front ∈ lists, Rising front.spans)
    (fun _ _ rising moved => ⟨rising_of_advance rising moved, ?_⟩) rising
  refine le_start_unorderedFrom (ne_nil_of_advance moved) (forall_spans_of_advance moved _ ?_)
  exact fun front member s inside => start_hull_le_of_mem rising member inside

theorem pairwise_unordered {before : Span → Span → Prop}
    (each : ∀ lists : List Front, lists ≠ [] → given = lists.map Front.spans →
      (unorderedFrom width lists).Pairwise before) :
    (unordered width given).Pairwise before := by
  rcases unordered_cases given with rfl | empty | ⟨lists, some, rfl⟩
  · exact .nil
  · rw [unordered_of_empty width empty]
    exact .nil
  · rw [unordered_map_spans some]
    exact each lists some rfl

theorem starts_unordered (rising : ∀ list ∈ given, Rising list) :
    (unordered width given).Pairwise fun v w => v.start ≤ w.start :=
  pairwise_unordered fun _ _ same => starts_unorderedFrom fun front member =>
    rising front.spans (same ▸ List.mem_map_of_mem member)

theorem stop_hull_le (rising : ∀ front ∈ lists, Rising front.spans) (some : lists ≠ [])
    (found : window ∈ unorderedFrom width lists) : (hull lists).stop ≤ window.stop := by
  obtain ⟨late, among, stops⟩ := (exists_hull some).2
  by_contra early
  have all : ∀ s ∈ late.spans, window.stop < s.stop := fun s inside =>
    Nat.lt_of_lt_of_le (stops ▸ Nat.not_le.1 early) ((rising late among).stop_le inside)
  exact Nat.lt_irrefl _ (lt_stop_unorderedFrom ⟨late, among, all⟩ window found)

theorem stops_unorderedFrom (rising : ∀ front ∈ lists, Rising front.spans) (some : lists ≠ []) :
    (unorderedFrom width lists).Pairwise fun v w => v.stop ≤ w.stop := by
  refine pairwise_unorderedFrom
    (fun lists => lists ≠ [] ∧ ∀ front ∈ lists, Rising front.spans) ?_ ⟨some, rising⟩
  rintro lists next ⟨some, rising⟩ moved
  refine ⟨⟨ne_nil_of_advance moved, rising_of_advance rising moved⟩, fun window found => ?_⟩
  have among : window ∈ unorderedFrom width lists := by
    rw [unorderedFrom_eq, moved]
    exact List.mem_append_right _ found
  exact stop_hull_le rising some among

/-- The unordered windows over lists whose stops do not fall are again such a list. -/
theorem rising_unordered (rising : ∀ list ∈ given, Rising list) :
    Rising (unordered width given) := by
  refine ⟨starts_unordered rising, ?_, fun window found => ?_⟩
  · refine pairwise_unordered fun _ some same => stops_unorderedFrom (fun front member => ?_) some
    exact rising front.spans (same ▸ List.mem_map_of_mem member)
  · obtain ⟨⟨chosen, members, spanned⟩, _⟩ := choice_of_unordered found
    obtain ⟨s, among, starts⟩ := spanned.starts
    obtain ⟨list, member, here⟩ := exists_of_mem_left members among
    have forward := (rising list member).forward s here
    have inside := spanned.inside s among
    omega

/-- The start that a search has passed is not among what is left, if no two spans start at one
place. -/
theorem nodup_starts_of_advance {start : Nat}
    (apart : ((lists.map Front.spans).flatten.map Span.start).Nodup)
    (h : advance start lists = some next) :
    ((next.map Front.spans).flatten.map Span.start).Nodup ∧
      ∀ front ∈ next, ∀ s ∈ front.spans, s.start ≠ start := by
  obtain ⟨before, s, t, rest, behind, rfl, rfl, rfl⟩ := of_advance h
  have split : ((before ++ (s, t :: rest) :: behind).map Front.spans).flatten.map Span.start =
      (before.map Front.spans).flatten.map Span.start ++
        s.start :: ((t, rest) :: behind |>.map Front.spans).flatten.map Span.start := by
    simp [Front.spans]
  rw [split, List.nodup_middle, ← List.map_append, ← List.flatten_append, ← List.map_append,
    List.nodup_cons] at apart
  refine ⟨apart.2, fun front member u inside same => apart.1 ?_⟩
  exact List.mem_map.2 ⟨u, List.mem_flatten_of_mem (List.mem_map_of_mem member) inside, same⟩

theorem lt_starts_unorderedFrom (rising : ∀ front ∈ lists, Rising front.spans)
    (apart : ((lists.map Front.spans).flatten.map Span.start).Nodup) :
    (unorderedFrom width lists).Pairwise fun v w => v.start < w.start := by
  refine pairwise_unorderedFrom (fun lists => (∀ front ∈ lists, Rising front.spans) ∧
    ((lists.map Front.spans).flatten.map Span.start).Nodup) ?_ ⟨rising, apart⟩
  rintro lists next ⟨rising, apart⟩ moved
  obtain ⟨apartNext, passed⟩ := nodup_starts_of_advance apart moved
  have reached := forall_spans_of_advance moved (fun s => (hull lists).start ≤ s.start)
    fun front member s inside => start_hull_le_of_mem rising member inside
  refine ⟨⟨rising_of_advance rising moved, apartNext⟩, ?_⟩
  refine le_start_unorderedFrom (ne_nil_of_advance moved) fun front member s inside => ?_
  exact Nat.lt_of_le_of_ne (reached front member s inside) (passed front member s inside).symm

theorem lt_starts_unordered (rising : ∀ list ∈ given, Rising list)
    (apart : (given.flatten.map Span.start).Nodup) :
    (unordered width given).Pairwise fun v w => v.start < w.start := by
  refine pairwise_unordered fun _ _ same => ?_
  subst same
  exact lt_starts_unorderedFrom (List.forall_mem_map.1 rising) apart

/-- The rounds of a search, by the spans that come first in each, up to the round in which a list
ends. -/
inductive Rounds : List Front → List (List Front) → Prop
  | last {lists : List Front} (ends : advance (hull lists).start lists = none) :
      Rounds lists [lists]
  | next {lists next : List Front} {rounds : List (List Front)}
      (moved : advance (hull lists).start lists = some next) (rest : Rounds next rounds) :
      Rounds lists (lists :: rounds)

/-- A search ends, at the latest when it has passed all the spans that are behind the first ones. -/
theorem exists_rounds (width : Nat) (lists : List Front) :
    ∃ rounds, Rounds lists rounds ∧ rounds.length ≤ behind lists + 1 ∧
      unorderedFrom width lists =
        (rounds.map hull).filter fun window => window.stop - window.start ≤ width := by
  induction lists using advance_induct with
  | step lists ih =>
    rw [unorderedFrom_eq]
    cases moved : advance (hull lists).start lists with
    | none =>
      refine ⟨[lists], .last moved, Nat.le_add_left 1 _, ?_⟩
      simp [List.filter_singleton]
    | some next =>
      obtain ⟨rounds, run, short, found⟩ := ih next moved
      have fewer := behind_advance moved
      refine ⟨lists :: rounds, .next moved run, ?_, ?_⟩
      · rw [List.length_cons]
        omega
      · rw [Option.map_some, Option.getD_some, found, List.map_cons, List.filter_cons]
        simp only [decide_eq_true_eq]
        split <;> rfl

theorem behind_add_length (lists : List Front) :
    behind lists + lists.length = ((lists.map Front.spans).map List.length).sum := by
  induction lists with
  | nil => rfl
  | cons front lists ih =>
    simp only [List.map_cons, List.sum_cons, ← ih, behind, Front.spans, List.length_cons]
    omega

theorem starts_tokens (positions : List (List Nat)) :
    (positions.map Span.tokens).flatten.map Span.start = positions.flatten := by
  induction positions with
  | nil => rfl
  | cons list positions ih =>
    have same : (Span.tokens list).map Span.start = list := by
      rw [Span.tokens, List.map_map]
      exact List.map_id list
    rw [List.map_cons, List.flatten_cons, List.map_append, ih, same, List.flatten_cons]

/-- On the positions of terms the search is over after at most as many rounds as there are
positions. There is a window at a start just when some choice that is narrow enough starts there,
the first of them is the narrowest that a choice has there, and the starts do not fall; they rise if
no position belongs to two lists. -/
theorem unordered_positions (width : Nat) (positions : List (List Nat)) (nonempty : positions ≠ [])
    (each : ∀ list ∈ positions, list ≠ [])
    (ascending : ∀ list ∈ positions, list.Pairwise (· < ·)) :
    let given := positions.map Span.tokens
    let found := unordered width given
    (∃ lists rounds, fronts given = some lists ∧ Rounds lists rounds ∧
        rounds.length ≤ (positions.map List.length).sum ∧
        found = (rounds.map hull).filter fun window => window.stop - window.start ≤ width) ∧
      (∀ b, (∃ window ∈ found, window.start = b) ↔
        ∃ e, Choice given { start := b, stop := e } ∧ e - b ≤ width) ∧
      (∀ b first, found.find? (fun window => window.start = b) = some first →
        IsLeast {e | Choice given { start := b, stop := e }} first.stop) ∧
      found.Pairwise (fun v w => v.start ≤ w.start) ∧
      (positions.Pairwise List.Disjoint → found.Pairwise fun v w => v.start < w.start) := by
  intro given found
  have rising : ∀ list ∈ given, Rising list :=
    List.forall_mem_map.2 fun list member => rising_tokens (ascending list member)
  refine ⟨?_, fun b => exists_start_unordered_iff rising, fun b first h => ?_,
    starts_unordered rising, fun disjoint => lt_starts_unordered rising ?_⟩
  · rcases unordered_cases given with none | empty | ⟨lists, left, same⟩
    · exact absurd (List.map_eq_nil_iff.1 none) nonempty
    · obtain ⟨list, member, none⟩ := List.mem_map.1 empty
      exact absurd (List.map_eq_nil_iff.1 none) (each list member)
    · obtain ⟨rounds, run, short, all⟩ := exists_rounds width lists
      refine ⟨lists, rounds, same ▸ fronts_map_spans lists, run, ?_, ?_⟩
      · have first := List.length_pos_iff.2 left
        have count := behind_add_length lists
        rw [← same, List.map_map] at count
        have lengths : List.length ∘ Span.tokens = List.length := by
          funext list
          exact List.length_map _
        rw [lengths] at count
        omega
      · rw [← all, ← unordered_map_spans left, ← same]
  · exact isLeast_of_find? rising h
  · rw [starts_tokens, List.nodup_flatten]
    exact ⟨fun list member => (ascending list member).imp Nat.ne_of_lt, disjoint⟩

/-- Two lists that have a position in common: it starts two windows, of which the first is the one
token. -/
theorem unordered_positions_shared :
    let positions := [[0, 2, 5], [2, 6]]
    (positions ≠ [] ∧ (∀ list ∈ positions, list ≠ []) ∧
        ∀ list ∈ positions, list.Pairwise (· < ·)) ∧
      unordered 4 (positions.map Span.tokens) = [⟨0, 3⟩, ⟨2, 3⟩, ⟨2, 6⟩, ⟨5, 7⟩] ∧
      IsLeast {e | Choice (positions.map Span.tokens) { start := 2, stop := e }} 3 := by
  intro positions
  have nonempty : positions ≠ [] := by decide
  have each : ∀ list ∈ positions, list ≠ [] := by decide
  have ascending : ∀ list ∈ positions, list.Pairwise (· < ·) := by decide
  have found : unordered 4 (positions.map Span.tokens) = [⟨0, 3⟩, ⟨2, 3⟩, ⟨2, 6⟩, ⟨5, 7⟩] := by
    decide +kernel
  obtain ⟨_, _, least, _⟩ := unordered_positions 4 positions nonempty each ascending
  refine ⟨⟨nonempty, each, ascending⟩, found, least 2 ⟨2, 3⟩ ?_⟩
  rw [found]
  rfl

end Window

end RankedRetrieval
