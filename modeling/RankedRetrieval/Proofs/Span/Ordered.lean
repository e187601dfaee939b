import Mathlib.Data.List.Basic
import RankedRetrieval.Span.Window

set_option autoImplicit false

namespace RankedRetrieval

namespace Span

def shift (offset : Nat) (s : Span) : Span :=
  { start := s.start + offset, stop := s.stop + offset }

theorem contains_iff {p s : Span} :
    p.contains s = true ↔ p.start ≤ s.start ∧ s.stop ≤ p.stop := by
  simp [contains]

end Span

/-- Spans whose starts and stops do not fall from one to the next. -/
structure Rising (spans : List Span) : Prop where
  starts : spans.Pairwise fun s t => s.start ≤ t.start
  stops : spans.Pairwise fun s t => s.stop ≤ t.stop
  forward : ∀ s ∈ spans, s.start ≤ s.stop

namespace Rising

variable {s : Span} {spans spans' : List Span}

theorem sublist (h : Rising spans) (sub : spans'.Sublist spans) : Rising spans' :=
  ⟨h.starts.sublist sub, h.stops.sublist sub, fun s member => h.forward s (sub.subset member)⟩

theorem stop_le (h : Rising (s :: spans)) {t : Span} (member : t ∈ s :: spans) :
    s.stop ≤ t.stop := by
  rcases List.mem_cons.1 member with rfl | later
  · exact Nat.le_refl _
  · exact List.rel_of_pairwise_cons h.stops later

theorem start_le (h : Rising (s :: spans)) {t : Span} (member : t ∈ s :: spans) :
    s.start ≤ t.start := by
  rcases List.mem_cons.1 member with rfl | later
  · exact Nat.le_refl _
  · exact List.rel_of_pairwise_cons h.starts later

theorem shift (h : Rising spans) (offset : Nat) :
    Rising (spans.map (Span.shift offset)) := by
  refine ⟨List.pairwise_map.2 (h.starts.imp fun le => ?_),
    List.pairwise_map.2 (h.stops.imp fun le => ?_), fun s member => ?_⟩
  · exact Nat.add_le_add_right le offset
  · exact Nat.add_le_add_right le offset
  · obtain ⟨t, inside, rfl⟩ := List.mem_map.1 member
    exact Nat.add_le_add_right (h.forward t inside) offset

theorem filter (h : Rising spans) (keep : Span → Bool) :
    Rising (spans.filter keep) :=
  h.sublist List.filter_sublist

end Rising

namespace Window

def nextFrom (stop : Nat) (list : List Span) : Option Span := list.find? fun s => stop ≤ s.start

/-- Where a window ends that has come to `stop` and goes on through the lists. -/
def reach (width : Nat) : Nat → List (List Span) → Option Nat
  | stop, [] => some stop
  | stop, list :: lists =>
    match nextFrom stop list with
    | none => none
    | some s => if width ≤ s.start - stop then none else reach width s.stop lists

theorem le_of_nextFrom {stop : Nat} {list : List Span} {s : Span}
    (h : nextFrom stop list = some s) : stop ≤ s.start := by
  have holds := List.find?_some h
  exact of_decide_eq_true holds

theorem mem_of_nextFrom {stop : Nat} {list : List Span} {s : Span}
    (h : nextFrom stop list = some s) : s ∈ list :=
  List.mem_of_find?_eq_some h

/-- Spans that start too early for one place are too early for every later one. -/
theorem nextFrom_dropWhile {stop t : Nat} (le : stop ≤ t) (list : List Span) :
    nextFrom t (list.dropWhile fun s => s.start < stop) = nextFrom t list := by
  induction list with
  | nil => rfl
  | cons s rest ih =>
    by_cases early : s.start < stop
    · have passed : ¬ t ≤ s.start := by omega
      rw [List.dropWhile_cons_of_pos (by simpa using early), ih, nextFrom, nextFrom,
        List.find?_cons_of_neg (by simpa using passed)]
    · rw [List.dropWhile_cons_of_neg (by simpa using early)]

theorem nextFrom_of_le {stop : Nat} {s : Span} (le : stop ≤ s.start) (rest : List Span) :
    nextFrom stop (s :: rest) = some s :=
  List.find?_cons_of_pos (by simpa using le)

theorem stop_le_of_dropWhile {stop : Nat} {list : List Span} {s : Span} {rest : List Span}
    (h : (list.dropWhile fun s => s.start < stop) = s :: rest) : stop ≤ s.start := by
  have head := List.head?_dropWhile_not (fun s : Span => decide (s.start < stop)) list
  rw [h] at head
  simpa using head

variable {width stop : Nat} {lists left : List (List Span)}

theorem reach_cons_none {list : List Span} (h : nextFrom stop list = none) :
    reach width stop (list :: lists) = none := by
  rw [reach, h]

theorem reach_cons_some {list : List Span} {s : Span} (h : nextFrom stop list = some s) :
    reach width stop (list :: lists) =
      if width ≤ s.start - stop then none else reach width s.stop lists := by
  rw [reach, h]

/-- What is left of the lists serves every window that comes from `stop` or from behind it. -/
structure Serves (width stop : Nat) (lists left : List (List Span)) : Prop where
  rising : ∀ list ∈ left, Rising list
  same : ∀ t, stop ≤ t → reach width t left = reach width t lists

def Chain.Tells (width stop : Nat) (lists : List (List Span)) : Chain → Prop
  | found last left => reach width stop lists = some last ∧ Serves width stop lists left
  | gap left => reach width stop lists = none ∧ Serves width stop lists left
  | exhausted => ∀ t, stop ≤ t → reach width t lists = none

theorem Serves.cons {list : List Span} {s : Span} {rest : List Span}
    (h : Serves width s.stop lists left) (rising : Rising (s :: rest))
    (same : ∀ t, stop ≤ t → nextFrom t (s :: rest) = nextFrom t list) :
    Serves width stop (list :: lists) ((s :: rest) :: left) := by
  refine ⟨List.forall_mem_cons.2 ⟨rising, h.rising⟩, fun t le => ?_⟩
  cases found : nextFrom t (s :: rest) with
  | none => rw [reach_cons_none found, reach_cons_none (same t le ▸ found)]
  | some u =>
    have later := rising.stop_le (mem_of_nextFrom found)
    rw [reach_cons_some found, reach_cons_some (same t le ▸ found), h.same u.stop later]

theorem follow_tells (width stop : Nat) (rising : ∀ list ∈ lists, Rising list) :
    (follow width stop lists).Tells width stop lists := by
  induction lists generalizing stop with
  | nil => exact ⟨rfl, List.forall_mem_nil _, fun _ _ => rfl⟩
  | cons list lists ih =>
    obtain ⟨here, others⟩ := List.forall_mem_cons.1 rising
    have same (t : Nat) (le : stop ≤ t) := nextFrom_dropWhile le list
    have sub : (list.dropWhile fun s => s.start < stop).Sublist list := List.dropWhile_sublist _
    rw [follow]
    cases left : list.dropWhile fun s => s.start < stop with
    | nil =>
      rw [left] at same
      exact fun t le => reach_cons_none (same t le).symm
    | cons s rest =>
      rw [left] at same sub
      have risingLeft := here.sublist sub
      have le := stop_le_of_dropWhile left
      have next : nextFrom stop list = some s :=
        (same stop (Nat.le_refl _)).symm.trans (nextFrom_of_le le rest)
      dsimp only
      split
      · rename_i far
        refine ⟨?_, List.forall_mem_cons.2 ⟨risingLeft, others⟩, fun t le => ?_⟩
        · rw [reach_cons_some next, if_pos far]
        · rw [reach, reach, same t le]
      · -- near enough: the chain goes on from where this span stops, and tells what the rest does
        rename_i near
        have tells := ih s.stop others
        have here : reach width stop (list :: lists) = reach width s.stop lists := by
          rw [reach_cons_some next, if_neg near]
        cases ended : follow width s.stop lists with
        | found last lists' =>
          rw [ended] at tells
          exact ⟨here.trans tells.1, tells.2.cons risingLeft same⟩
        | gap lists' =>
          rw [ended] at tells
          exact ⟨here.trans tells.1, tells.2.cons risingLeft same⟩
        | exhausted =>
          -- a later start only meets a later span of this list, and none is left behind that one
          rw [ended] at tells
          intro t le
          cases found : nextFrom t (s :: rest) with
          | none => exact reach_cons_none ((same t le).symm.trans found)
          | some u =>
            rw [reach_cons_some ((same t le).symm.trans found),
              tells u.stop (risingLeft.stop_le (mem_of_nextFrom found)), ite_self]

def windowFrom (width : Nat) (lists : List (List Span)) (s : Span) : Option Span :=
  (reach width s.stop lists).map fun stop => { start := s.start, stop }

theorem windowFrom_congr {s : Span} (h : Serves width stop lists left) (le : stop ≤ s.stop) :
    windowFrom width left s = windowFrom width lists s := by
  rw [windowFrom, windowFrom, h.same _ le]

theorem orderedFrom_eq {starts : List Span} (stops : starts.Pairwise fun s t => s.stop ≤ t.stop)
    (rising : ∀ list ∈ lists, Rising list) :
    orderedFrom width starts lists = starts.filterMap (windowFrom width lists) := by
  induction starts generalizing lists with
  | nil => rfl
  | cons s starts ih =>
    obtain ⟨least, later⟩ := List.pairwise_cons.1 stops
    have tells := follow_tells width s.stop rising
    rw [orderedFrom]
    cases ended : follow width s.stop lists with
    | found last left =>
      rw [ended] at tells
      obtain ⟨here, serves⟩ := tells
      have window : windowFrom width lists s = some { start := s.start, stop := last } := by
        rw [windowFrom, here, Option.map_some]
      rw [List.filterMap_cons_some window]
      dsimp only
      rw [ih later serves.rising]
      congr 1
      exact List.filterMap_congr fun t member => windowFrom_congr serves (least t member)
    | gap left =>
      rw [ended] at tells
      obtain ⟨here, serves⟩ := tells
      have nothing : windowFrom width lists s = none := by rw [windowFrom, here, Option.map_none]
      rw [List.filterMap_cons_none nothing]
      dsimp only
      rw [ih later serves.rising]
      exact List.filterMap_congr fun t member => windowFrom_congr serves (least t member)
    | exhausted =>
      rw [ended] at tells
      refine (List.filterMap_eq_nil_iff.2 fun t member => ?_).symm
      have le : s.stop ≤ t.stop := by
        rcases List.mem_cons.1 member with rfl | later
        · exact Nat.le_refl _
        · exact least t later
      rw [windowFrom, tells t.stop le, Option.map_none]

/-- Each span of the first list starts at most one ordered window, the one that a search through the
other lists from their beginnings finds. -/
theorem ordered_eq_reach {first : List Span} (rising : ∀ list ∈ first :: lists, Rising list) :
    ordered width (first :: lists) = first.filterMap (windowFrom width lists) := by
  obtain ⟨here, others⟩ := List.forall_mem_cons.1 rising
  exact orderedFrom_eq here.stops others

variable {offset : Nat} {p s : Span} {list : List Span}

theorem nextFrom_within (rising : Rising list) (le : p.start ≤ stop) :
    nextFrom stop (list.filter p.contains) =
      (nextFrom stop list).filter fun s => s.stop ≤ p.stop := by
  induction list with
  | nil => rfl
  | cons s rest ih =>
    have later := ih (rising.sublist (List.sublist_cons_self s rest))
    by_cases reached : stop ≤ s.start
    · rw [nextFrom_of_le reached rest]
      by_cases ends : s.stop ≤ p.stop
      · have inside : p.contains s = true := Span.contains_iff.2 ⟨Nat.le_trans le reached, ends⟩
        rw [List.filter_cons_of_pos inside, nextFrom_of_le reached,
          Option.filter_some_pos (by simpa using ends)]
      · -- all the spans behind end even later
        have none : (s :: rest).filter p.contains = [] := by
          refine List.filter_eq_nil_iff.2 fun t member inside => ends ?_
          exact Nat.le_trans (rising.stop_le member) (Span.contains_iff.1 inside).2
        rw [none, Option.filter_some_neg (by simpa using ends)]
        rfl
    · have passed : nextFrom stop (s :: rest) = nextFrom stop rest :=
        List.find?_cons_of_neg (by simpa using reached)
      rw [passed, ← later, List.filter_cons]
      split
      · exact List.find?_cons_of_neg (by simpa using reached)
      · rfl

theorem le_of_reach (rising : ∀ list ∈ lists, Rising list) {last : Nat}
    (h : reach width stop lists = some last) : stop ≤ last := by
  induction lists generalizing stop with
  | nil =>
    cases h
    exact Nat.le_refl _
  | cons list lists ih =>
    obtain ⟨here, others⟩ := List.forall_mem_cons.1 rising
    cases found : nextFrom stop list with
    | none =>
      rw [reach_cons_none found] at h
      cases h
    | some s =>
      rw [reach_cons_some found] at h
      split at h
      · cases h
      · exact Nat.le_trans (le_of_nextFrom found)
          (Nat.le_trans (here.forward s (mem_of_nextFrom found)) (ih others h))

theorem reach_within (rising : ∀ list ∈ lists, Rising list) (after : p.start ≤ stop)
    (before : stop ≤ p.stop) :
    reach width stop (lists.map (List.filter p.contains)) =
      (reach width stop lists).filter fun last => last ≤ p.stop := by
  induction lists generalizing stop with
  | nil => exact (Option.filter_some_pos (by simpa using before)).symm
  | cons list lists ih =>
    obtain ⟨here, others⟩ := List.forall_mem_cons.1 rising
    have within := nextFrom_within here after
    rw [List.map_cons]
    cases found : nextFrom stop list with
    | none =>
      rw [found, Option.filter_none] at within
      rw [reach_cons_none within, reach_cons_none found, Option.filter_none]
    | some s =>
      rw [found] at within
      have forward := here.forward s (mem_of_nextFrom found)
      rw [reach_cons_some found]
      by_cases ends : s.stop ≤ p.stop
      · rw [Option.filter_some_pos (by simpa using ends)] at within
        rw [reach_cons_some within]
        split
        · rw [Option.filter_none]
        · exact ih others (Nat.le_trans after (Nat.le_trans (le_of_nextFrom found) forward)) ends
      · rw [Option.filter_some_neg (by simpa using ends)] at within
        rw [reach_cons_none within, eq_comm, Option.filter_eq_none_iff]
        intro last h inside
        split at h
        · cases h
        · exact ends (Nat.le_trans (le_of_reach others h) (of_decide_eq_true inside))

theorem windowFrom_within (rising : ∀ list ∈ lists, Rising list) (forward : s.start ≤ s.stop) :
    (windowFrom width lists s).filter p.contains =
      if p.contains s then windowFrom width (lists.map (List.filter p.contains)) s else none := by
  have window : (windowFrom width lists s).filter p.contains =
      if p.start ≤ s.start then
        ((reach width s.stop lists).filter fun last => last ≤ p.stop).map
          fun stop => { start := s.start, stop }
      else none := by
    unfold windowFrom
    cases reach width s.stop lists with
    | none =>
      rw [Option.filter_none, Option.map_none, Option.filter_none, ite_self]
    | some last => by_cases le : p.start ≤ s.start <;> by_cases ends : last ≤ p.stop <;>
        simp [Option.filter_some, Span.contains, le, ends]
  rw [window]
  by_cases le : p.start ≤ s.start
  · rw [if_pos le]
    by_cases ends : s.stop ≤ p.stop
    · rw [if_pos (Span.contains_iff.2 ⟨le, ends⟩), windowFrom,
        reach_within rising (Nat.le_trans le forward) ends]
    · rw [if_neg fun inside => ends (Span.contains_iff.1 inside).2, Option.map_eq_none_iff,
        Option.filter_eq_none_iff]
      intro last h inside
      exact ends (Nat.le_trans (le_of_reach rising h) (of_decide_eq_true inside))
  · rw [if_neg le, if_neg fun inside => le (Span.contains_iff.1 inside).1]

theorem ordered_within (rising : ∀ list ∈ lists, Rising list) :
    (ordered width lists).filter p.contains =
      ordered width (lists.map (List.filter p.contains)) := by
  cases lists with
  | nil => rfl
  | cons first lists =>
    obtain ⟨here, others⟩ := List.forall_mem_cons.1 rising
    have rising' : ∀ list ∈ (first :: lists).map (List.filter p.contains), Rising list := by
      intro list member
      obtain ⟨whole, inside, rfl⟩ := List.mem_map.1 member
      exact (rising whole inside).filter _
    rw [List.map_cons] at rising' ⊢
    rw [ordered_eq_reach rising, ordered_eq_reach rising', List.filter_filterMap,
      List.filterMap_filter]
    exact List.filterMap_congr fun s member => windowFrom_within others (here.forward s member)

theorem nextFrom_shift (stop offset : Nat) (list : List Span) :
    nextFrom (stop + offset) (list.map (Span.shift offset)) =
      (nextFrom stop list).map (Span.shift offset) := by
  rw [nextFrom, List.find?_map, nextFrom]
  congr 2
  funext s
  simp [Span.shift]

theorem reach_shift (stop offset : Nat) (lists : List (List Span)) :
    reach width (stop + offset) (lists.map (List.map (Span.shift offset))) =
      (reach width stop lists).map (· + offset) := by
  induction lists generalizing stop with
  | nil => rfl
  | cons list lists ih =>
    have shifted := nextFrom_shift stop offset list
    rw [List.map_cons]
    cases found : nextFrom stop list with
    | none =>
      rw [found, Option.map_none] at shifted
      rw [reach_cons_none shifted, reach_cons_none found, Option.map_none]
    | some s =>
      rw [found, Option.map_some] at shifted
      have between : (s.shift offset).start - (stop + offset) = s.start - stop := by
        simp only [Span.shift]
        omega
      rw [reach_cons_some shifted, reach_cons_some found, between]
      split
      · rfl
      · exact ih s.stop

theorem ordered_shift (rising : ∀ list ∈ lists, Rising list) :
    ordered width (lists.map (List.map (Span.shift offset))) =
      (ordered width lists).map (Span.shift offset) := by
  cases lists with
  | nil => rfl
  | cons first lists =>
    have rising' : ∀ list ∈ (first :: lists).map (List.map (Span.shift offset)), Rising list := by
      intro list member
      obtain ⟨whole, inside, rfl⟩ := List.mem_map.1 member
      exact (rising whole inside).shift offset
    rw [List.map_cons] at rising' ⊢
    rw [ordered_eq_reach rising, ordered_eq_reach rising', List.map_filterMap, List.filterMap_map]
    refine List.filterMap_congr fun s _ => ?_
    have shifted : reach width (s.stop + offset) (lists.map (List.map (Span.shift offset))) =
        (reach width s.stop lists).map (· + offset) := reach_shift s.stop offset lists
    rw [Function.comp_apply, windowFrom, windowFrom,
      show (s.shift offset).stop = s.stop + offset from rfl, shifted, Option.map_map,
      Option.map_map]
    rfl

end Window

end RankedRetrieval
