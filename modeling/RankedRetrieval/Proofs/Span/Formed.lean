import RankedRetrieval.Plan.Reading
import RankedRetrieval.Proofs.Span.Arranged
import RankedRetrieval.Proofs.Span.Gathered

set_option autoImplicit false

namespace RankedRetrieval

/-- Spans that hold something each, whose starts do not fall from one to the next. -/
structure Formed (spans : List Span) : Prop where
  starts : spans.Pairwise fun s t => s.start ≤ t.start
  filled : ∀ s ∈ spans, s.start < s.stop

namespace Formed

variable {s : Span} {spans spans' : List Span}

theorem nil : Formed [] := ⟨.nil, List.forall_mem_nil _⟩

theorem sublist (h : Formed spans) (sub : spans'.Sublist spans) : Formed spans' :=
  ⟨h.starts.sublist sub, fun s member => h.filled s (sub.subset member)⟩

theorem start_le (h : Formed (s :: spans)) {t : Span} (member : t ∈ s :: spans) :
    s.start ≤ t.start := by
  rcases List.mem_cons.1 member with rfl | later
  · exact Nat.le_refl _
  · exact List.rel_of_pairwise_cons h.starts later

theorem arrange {lists : List (List Span)} (formed : ∀ list ∈ lists, Formed list) :
    Formed (Span.arrange lists.flatten) := by
  refine ⟨(Span.sorted_arrange _).imp fun before => ?_, fun s member => ?_⟩
  · have := Span.precedes_iff.1 before
    omega
  · obtain ⟨list, among, inside⟩ := List.mem_flatten.1 (Span.mem_arrange.1 member)
    exact (formed list among).filled s inside

end Formed

namespace Window

variable {width stop last : Nat} {window : Span} {lists given : List (List Span)}
  {fs next : List Front}

theorem Linked.le (h : Linked width stop lists last)
    (forward : ∀ list ∈ lists, ∀ s ∈ list, s.start ≤ s.stop) : stop ≤ last := by
  induction h with
  | done => exact Nat.le_refl _
  | step member after _ _ ih =>
    obtain ⟨here, others⟩ := List.forall_mem_cons.1 forward
    exact Nat.le_trans after (Nat.le_trans (here _ member) (ih others))

theorem Linked.stops (h : Linked width stop lists last) :
    last = stop ∨ ∃ list ∈ lists, ∃ s ∈ list, s.stop = last := by
  induction h with
  | done => exact .inl rfl
  | step member _ _ _ ih =>
    rcases ih with rfl | ⟨list, among, s, inside, stops⟩
    · exact .inr ⟨_, List.mem_cons_self, _, member, rfl⟩
    · exact .inr ⟨list, List.mem_cons_of_mem _ among, s, inside, stops⟩

theorem starts_orderedFrom (starts : List Span) (lists : List (List Span)) :
    ((orderedFrom width starts lists).map Span.start).Sublist (starts.map Span.start) := by
  induction starts generalizing lists with
  | nil => exact .slnil
  | cons s starts ih =>
    rw [orderedFrom]
    cases follow width s.stop lists with
    | found stop left => exact (ih left).cons_cons s.start
    | gap left => exact (ih left).cons s.start
    | exhausted => exact List.nil_sublist _

theorem formed_ordered (formed : ∀ list ∈ lists, Formed list) : Formed (ordered width lists) := by
  cases lists with
  | nil => exact .nil
  | cons first lists =>
    obtain ⟨here, others⟩ := List.forall_mem_cons.1 formed
    refine ⟨?_, fun window found => ?_⟩
    · have starts := List.pairwise_map.2 here.starts
      exact List.pairwise_map.1 (starts.sublist (starts_orderedFrom first lists))
    · obtain ⟨s, member, starts, linked⟩ := linked_of_ordered found
      have forward := linked.le fun list among s inside =>
        Nat.le_of_lt ((others list among).filled s inside)
      exact Nat.lt_of_lt_of_le (starts ▸ here.filled s member) forward

theorem formed_of_advance {start : Nat} (formed : ∀ front ∈ fs, Formed front.spans)
    (h : advance start fs = some next) : ∀ front ∈ next, Formed front.spans := by
  intro front member
  obtain ⟨whole, among, sub⟩ := exists_of_mem_right (spans_of_advance h) member
  exact (formed whole among).sublist sub

theorem formed_unordered (formed : ∀ list ∈ given, Formed list) :
    Formed (unordered width given) := by
  refine ⟨pairwise_unordered fun fs some same => ?_, fun window found => ?_⟩
  · refine pairwise_unorderedFrom (fun fs => ∀ front ∈ fs, Formed front.spans)
      (fun fs next formed moved => ⟨formed_of_advance formed moved, ?_⟩)
      fun front member => formed _ (same ▸ List.mem_map_of_mem member)
    -- what is left starts no earlier than the first spans that have been looked at
    refine le_start_unorderedFrom (ne_nil_of_advance moved) (forall_spans_of_advance moved _ ?_)
    exact fun front member s inside =>
      Nat.le_trans (start_hull_le member) ((formed front member).start_le inside)
  · obtain ⟨⟨chosen, members, spanned⟩, _⟩ := choice_of_unordered found
    obtain ⟨s, among, starts⟩ := spanned.starts
    obtain ⟨list, member, here⟩ := exists_of_mem_left members among
    have filled := (formed list member).filled s here
    have inside := spanned.inside s among
    omega

theorem formed_windows (order : WindowOrder) (width : Nat)
    (formed : ∀ list ∈ lists, Formed list) : Formed (Plan.windows order width lists) := by
  cases order with
  | ordered => exact formed_ordered formed
  | unordered => exact formed_unordered formed

theorem exists_stop_of_windows {order : WindowOrder}
    (found : window ∈ Plan.windows order width lists) :
    ∃ list ∈ lists, ∃ s ∈ list, s.stop = window.stop := by
  cases order with
  | ordered =>
    cases lists with
    | nil => cases found
    | cons first lists =>
      obtain ⟨s, member, _, linked⟩ := linked_of_ordered found
      rcases linked.stops with same | ⟨list, among, t, inside, stops⟩
      · exact ⟨first, List.mem_cons_self, s, member, same.symm⟩
      · exact ⟨list, List.mem_cons_of_mem _ among, t, inside, stops⟩
  | unordered =>
    obtain ⟨⟨chosen, members, spanned⟩, _⟩ := choice_of_unordered found
    obtain ⟨s, among, stops⟩ := spanned.stops
    obtain ⟨list, member, here⟩ := exists_of_mem_left members among
    exact ⟨list, member, s, here, stops⟩

end Window

end RankedRetrieval
