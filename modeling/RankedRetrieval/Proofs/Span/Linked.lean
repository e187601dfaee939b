import Mathlib.Data.List.Forall2
import RankedRetrieval.Proofs.Span.Ordered

set_option autoImplicit false

/-!
# Which ordered windows are found

Spans are linked when each of them starts at or after the end of the one before it, with fewer than
`width` tokens between. Every window that is found is made of linked spans (`linked_of_ordered`). Of
the linked spans that can be chosen from one start the search tries one choice only, the nearest
span of each list. It misses none where the spans of a list that are within reach of each other
end together (`isSome_windowFrom_iff`). On the positions of terms that is so for phrases
(`ordered_positions`).
-/

namespace RankedRetrieval

namespace Span

theorem token_inj {p q : Nat} (h : token p = token q) : p = q := congrArg start h

def tokens (positions : List Nat) : List Span := positions.map token

theorem mem_tokens {s : Span} {positions : List Nat} :
    s ∈ tokens positions ↔ ∃ p ∈ positions, token p = s := List.mem_map

theorem token_mem_tokens {p : Nat} {positions : List Nat} :
    token p ∈ tokens positions ↔ p ∈ positions :=
  List.mem_map_of_injective fun _ _ => token_inj

end Span

theorem rising_tokens {positions : List Nat} (ascending : positions.Pairwise (· < ·)) :
    Rising (Span.tokens positions) := by
  refine ⟨List.pairwise_map.2 (ascending.imp fun lt => ?_),
    List.pairwise_map.2 (ascending.imp fun lt => ?_), fun s member => ?_⟩
  · exact Nat.le_of_lt lt
  · exact Nat.succ_le_succ (Nat.le_of_lt lt)
  · obtain ⟨p, _, rfl⟩ := Span.mem_tokens.1 member
    exact Nat.le_succ p

namespace Window

variable {width stop last : Nat} {list : List Span} {lists left : List (List Span)} {s t : Span}

/-- Spans linked one to the next can be chosen, one from each list, that go on from `stop` and come
to `last`. -/
inductive Linked (width : Nat) : Nat → List (List Span) → Nat → Prop
  | done (stop : Nat) : Linked width stop [] stop
  | step {stop last : Nat} {s : Span} {list : List Span} {lists : List (List Span)}
      (member : s ∈ list) (after : stop ≤ s.start) (near : s.start - stop < width)
      (rest : Linked width s.stop lists last) : Linked width stop (list :: lists) last

theorem Linked.mono (h : Linked width stop left last)
    (within : List.Forall₂ (· ⊆ ·) left lists) : Linked width stop lists last := by
  induction h generalizing lists with
  | done stop =>
    cases within
    exact .done stop
  | step member after near _ ih =>
    cases within with
    | cons here others => exact .step (here member) after near (ih others)

def Chain.Within (lists : List (List Span)) : Chain → Prop
  | found _ left | gap left => List.Forall₂ (· ⊆ ·) left lists
  | exhausted => True

theorem follow_within (width stop : Nat) (lists : List (List Span)) :
    (follow width stop lists).Within lists := by
  induction lists generalizing stop with
  | nil => exact .nil
  | cons list lists ih =>
    have sub : (list.dropWhile fun s => s.start < stop) ⊆ list := List.dropWhile_subset _
    rw [follow]
    cases left : list.dropWhile fun s => s.start < stop with
    | nil => trivial
    | cons s rest =>
      rw [left] at sub
      dsimp only
      split
      · exact .cons sub (List.forall₂_same.2 fun list _ => List.Subset.refl list)
      · have later := ih s.stop
        cases ended : follow width s.stop lists with
        | found last lists' | gap lists' =>
          rw [ended] at later
          exact .cons sub later
        | exhausted => trivial

theorem linked_of_follow (h : follow width stop lists = .found last left) :
    Linked width stop lists last := by
  induction lists generalizing stop left with
  | nil =>
    cases h
    exact .done _
  | cons list lists ih =>
    rw [follow] at h
    cases dropped : list.dropWhile fun s => s.start < stop with
    | nil =>
      rw [dropped] at h
      cases h
    | cons s rest =>
      rw [dropped] at h
      dsimp only at h
      split at h
      · cases h
      · rename_i near
        have member : s ∈ list := List.dropWhile_subset _ (dropped ▸ List.mem_cons_self)
        cases ended : follow width s.stop lists with
        | found last' left' =>
          rw [ended] at h
          cases h
          exact .step member (stop_le_of_dropWhile dropped) (Nat.not_le.1 near) (ih ended)
        | gap left' | exhausted =>
          rw [ended] at h
          cases h

theorem linked_of_orderedFrom {starts : List Span} {window : Span}
    (h : window ∈ orderedFrom width starts lists) :
    ∃ s ∈ starts, s.start = window.start ∧ Linked width s.stop lists window.stop := by
  induction starts generalizing lists with
  | nil => cases h
  | cons s starts ih =>
    have within := follow_within width s.stop lists
    rw [orderedFrom] at h
    cases ended : follow width s.stop lists with
    | found last left =>
      rw [ended] at h within
      rcases List.mem_cons.1 h with rfl | later
      · exact ⟨s, List.mem_cons_self, rfl, linked_of_follow ended⟩
      · obtain ⟨t, member, starts, linked⟩ := ih later
        exact ⟨t, List.mem_cons_of_mem _ member, starts, linked.mono within⟩
    | gap left =>
      rw [ended] at h within
      obtain ⟨t, member, starts, linked⟩ := ih h
      exact ⟨t, List.mem_cons_of_mem _ member, starts, linked.mono within⟩
    | exhausted =>
      rw [ended] at h
      cases h

/-- An ordered window is made of a span of the first list and of linked spans of the others,
whatever the lists are. -/
theorem linked_of_ordered {first : List Span} {window : Span}
    (h : window ∈ ordered width (first :: lists)) :
    ∃ s ∈ first, s.start = window.start ∧ Linked width s.stop lists window.stop :=
  linked_of_orderedFrom h

/-- The nearest span comes before all others that are not too early. -/
theorem nextFrom_of_pairwise {before : Span → Span → Prop} (ordered : list.Pairwise before)
    (member : t ∈ list) (after : stop ≤ t.start) :
    ∃ s, nextFrom stop list = some s ∧ (s = t ∨ before s t) := by
  induction list with
  | nil => cases member
  | cons s rest ih =>
    obtain ⟨first, later⟩ := List.pairwise_cons.1 ordered
    by_cases reached : stop ≤ s.start
    · refine ⟨s, nextFrom_of_le reached rest, ?_⟩
      rcases List.mem_cons.1 member with same | behind
      · exact .inl same.symm
      · exact .inr (first t behind)
    · have behind : t ∈ rest := by
        rcases List.mem_cons.1 member with rfl | behind
        · exact absurd after reached
        · exact behind
      have passed : nextFrom stop (s :: rest) = nextFrom stop rest :=
        List.find?_cons_of_neg (by simpa using reached)
      rw [passed]
      exact ih later behind

theorem of_reach_cons (h : reach width stop (list :: lists) = some last) :
    ∃ s, nextFrom stop list = some s ∧ s.start - stop < width ∧
      reach width s.stop lists = some last := by
  cases found : nextFrom stop list with
  | none =>
    rw [reach_cons_none found] at h
    cases h
  | some s =>
    rw [reach_cons_some found] at h
    split at h
    · cases h
    · exact ⟨s, rfl, Nat.not_le.1 ‹_›, h⟩

theorem linked_of_reach (h : reach width stop lists = some last) :
    Linked width stop lists last := by
  induction lists generalizing stop with
  | nil =>
    cases h
    exact .done _
  | cons list lists ih =>
    obtain ⟨s, found, near, later⟩ := of_reach_cons h
    exact .step (mem_of_nextFrom found) (le_of_nextFrom found) near (ih later)

theorem reach_mono {stop' last' : Nat} (rising : ∀ list ∈ lists, Rising list) (le : stop ≤ stop')
    (h : reach width stop lists = some last) (h' : reach width stop' lists = some last') :
    last ≤ last' := by
  induction lists generalizing stop stop' with
  | nil =>
    cases h
    cases h'
    exact le
  | cons list lists ih =>
    obtain ⟨here, others⟩ := List.forall_mem_cons.1 rising
    obtain ⟨s, nearest, _, later⟩ := of_reach_cons h
    obtain ⟨t, found, _, later'⟩ := of_reach_cons h'
    obtain ⟨s', same, first⟩ := nextFrom_of_pairwise here.stops (mem_of_nextFrom found)
      (Nat.le_trans le (le_of_nextFrom found))
    obtain rfl : s = s' := Option.some.inj (nearest.symm.trans same)
    exact ih others (first.elim (fun same => Nat.le_of_eq (congrArg _ same)) id) later later'

/-- The ordered windows over lists whose stops do not fall are again such a list. -/
theorem rising_ordered (rising : ∀ list ∈ lists, Rising list) :
    Rising (ordered width lists) := by
  cases lists with
  | nil => exact ⟨.nil, .nil, List.forall_mem_nil _⟩
  | cons first lists =>
    obtain ⟨here, others⟩ := List.forall_mem_cons.1 rising
    rw [ordered_eq_reach rising]
    refine ⟨List.pairwise_filterMap.2 (here.starts.imp ?_),
      List.pairwise_filterMap.2 (here.stops.imp ?_), fun window member => ?_⟩
    · intro s t le v opens w opens'
      obtain ⟨_, _, rfl⟩ := Option.map_eq_some_iff.1 opens
      obtain ⟨_, _, rfl⟩ := Option.map_eq_some_iff.1 opens'
      exact le
    · intro s t le v opens w opens'
      obtain ⟨_, reached, rfl⟩ := Option.map_eq_some_iff.1 opens
      obtain ⟨_, reached', rfl⟩ := Option.map_eq_some_iff.1 opens'
      exact reach_mono others le reached reached'
    · obtain ⟨s, inside, opens⟩ := List.mem_filterMap.1 member
      obtain ⟨_, reached, rfl⟩ := Option.map_eq_some_iff.1 opens
      exact Nat.le_trans (here.forward s inside) (le_of_reach others reached)

/-- Spans of which one starts within the width of another end together. -/
def Apart (width : Nat) (list : List Span) : Prop :=
  ∀ s ∈ list, ∀ t ∈ list, s.start ≤ t.start → t.start < s.start + width → s.stop = t.stop

/-- The nearest spans are linked where any are, if in each list but the last the spans within reach
of each other end together. -/
theorem exists_reach_of_linked (rising : ∀ list ∈ lists, Rising list)
    (apart : ∀ list ∈ lists.dropLast, Apart width list) (h : Linked width stop lists last) :
    ∃ last, reach width stop lists = some last := by
  induction h with
  | done stop => exact ⟨stop, rfl⟩
  | @step stop last t list lists member after near rest ih =>
    obtain ⟨here, others⟩ := List.forall_mem_cons.1 rising
    obtain ⟨s, nearest, first⟩ := nextFrom_of_pairwise here.starts member after
    have least : s.start ≤ t.start := first.elim (fun same => Nat.le_of_eq (congrArg _ same)) id
    have reached := le_of_nextFrom nearest
    rw [reach_cons_some nearest, if_neg (by omega)]
    cases lists with
    | nil => exact ⟨s.stop, rfl⟩
    | cons second lists =>
      rw [List.dropLast_cons_cons, List.forall_mem_cons] at apart
      have together : s.stop = t.stop :=
        apart.1 s (mem_of_nextFrom nearest) t member least (by omega)
      rw [together]
      exact ih others apart.2

theorem exists_reach_iff (rising : ∀ list ∈ lists, Rising list)
    (apart : ∀ list ∈ lists.dropLast, Apart width list) :
    (∃ last, reach width stop lists = some last) ↔ ∃ last, Linked width stop lists last :=
  ⟨fun ⟨last, h⟩ => ⟨last, linked_of_reach h⟩,
    fun ⟨_, h⟩ => exists_reach_of_linked rising apart h⟩

/-- There is a window from a start just when some choice goes on from it. -/
theorem isSome_windowFrom_iff (rising : ∀ list ∈ lists, Rising list)
    (apart : ∀ list ∈ lists.dropLast, Apart width list) :
    (windowFrom width lists s).isSome = true ↔ ∃ last, Linked width s.stop lists last := by
  rw [windowFrom, Option.isSome_map, Option.isSome_iff_exists]
  exact exists_reach_iff rising apart

theorem phrase_cons_iff {first : List Nat} {rest : List (List Nat)} {p : Nat} :
    (∀ i (inside : i < (first :: rest).length), p + i ∈ (first :: rest)[i]) ↔
      p ∈ first ∧ ∀ i (inside : i < rest.length), p + 1 + i ∈ rest[i] := by
  refine ⟨fun each => ⟨each 0 (Nat.zero_lt_succ _), fun i inside => ?_⟩,
    fun ⟨starts, each⟩ i inside => ?_⟩
  · have next := each (i + 1) (Nat.succ_lt_succ inside)
    rwa [Nat.add_right_comm]
  · cases i with
    | zero => exact starts
    | succ i =>
      have next := each i (Nat.lt_of_succ_lt_succ inside)
      rwa [Nat.add_right_comm] at next

/-- Terms that follow each other without a gap take the positions one after the other. -/
theorem linked_phrase_iff {positions : List (List Nat)} :
    Linked 1 stop (positions.map Span.tokens) last ↔
      (∀ i (inside : i < positions.length), stop + i ∈ positions[i]) ∧
        last = stop + positions.length := by
  induction positions generalizing stop with
  | nil =>
    refine ⟨fun h => ?_, fun h => ?_⟩
    · cases h
      exact ⟨fun i inside => absurd inside (Nat.not_lt_zero i), rfl⟩
    · rw [h.2]
      exact .done stop
  | cons first rest ih =>
    have ends : stop + (first :: rest).length = stop + 1 + rest.length := by
      rw [List.length_cons]
      omega
    rw [phrase_cons_iff, ends]
    refine ⟨fun h => ?_, fun ⟨⟨here, each⟩, reached⟩ => ?_⟩
    · cases h with
      | step member after near linked =>
        obtain ⟨p, inside, rfl⟩ := Span.mem_tokens.1 member
        obtain rfl : p = stop := by
          change stop ≤ p at after
          change p - stop < 1 at near
          omega
        obtain ⟨each, reached⟩ := ih.1 linked
        exact ⟨⟨inside, each⟩, reached⟩
    · have near : stop - stop < 1 := by omega
      exact .step (s := Span.token stop) (Span.token_mem_tokens.2 here) (Nat.le_refl stop) near
        (ih.2 ⟨each, reached⟩)

theorem apart_tokens (positions : List Nat) : Apart 1 (Span.tokens positions) := by
  intro s member t member' le near
  obtain ⟨p, _, rfl⟩ := Span.mem_tokens.1 member
  obtain ⟨q, _, rfl⟩ := Span.mem_tokens.1 member'
  change p ≤ q at le
  change q < p + 1 at near
  change p + 1 = q + 1
  omega

theorem reach_phrase_iff {positions : List (List Nat)}
    (ascending : ∀ list ∈ positions, list.Pairwise (· < ·)) :
    reach 1 stop (positions.map Span.tokens) = some last ↔
      (∀ i (inside : i < positions.length), stop + i ∈ positions[i]) ∧
        last = stop + positions.length := by
  have rising : ∀ list ∈ positions.map Span.tokens, Rising list :=
    List.forall_mem_map.2 fun list member => rising_tokens (ascending list member)
  have apart : ∀ list ∈ (positions.map Span.tokens).dropLast, Apart 1 list := by
    intro list member
    obtain ⟨given, _, rfl⟩ := List.mem_map.1 (List.dropLast_subset _ member)
    exact apart_tokens given
  rw [← linked_phrase_iff]
  refine ⟨linked_of_reach, fun linked => ?_⟩
  obtain ⟨last', found⟩ := exists_reach_of_linked rising apart linked
  -- a phrase can end in one place only
  rw [found, (linked_phrase_iff.1 linked).2, (linked_phrase_iff.1 (linked_of_reach found)).2]

/-- On the positions of terms the search finds in order, and once each, the windows that a search of
its own from every start finds; with no gap allowed they are the phrases. -/
theorem ordered_positions (width : Nat) (first : List Nat) (rest : List (List Nat))
    (ascending : ∀ positions ∈ first :: rest, positions.Pairwise (· < ·)) :
    ordered width ((first :: rest).map Span.tokens) =
        (Span.tokens first).filterMap (windowFrom width (rest.map Span.tokens)) ∧
      (ordered width ((first :: rest).map Span.tokens)).Pairwise (fun v w => v.start < w.start) ∧
      ∀ window, window ∈ ordered 1 ((first :: rest).map Span.tokens) ↔
        ∃ p, window = { start := p, stop := p + (first :: rest).length } ∧
          ∀ i (inside : i < (first :: rest).length), p + i ∈ (first :: rest)[i] := by
  obtain ⟨here, others⟩ := List.forall_mem_cons.1 ascending
  have rising : ∀ list ∈ (first :: rest).map Span.tokens, Rising list :=
    List.forall_mem_map.2 fun list member => rising_tokens (ascending list member)
  have found (width : Nat) : ordered width ((first :: rest).map Span.tokens) =
      (Span.tokens first).filterMap (windowFrom width (rest.map Span.tokens)) :=
    ordered_eq_reach rising
  refine ⟨found width, ?_, fun window => ?_⟩
  · rw [found width, List.pairwise_filterMap]
    refine List.pairwise_map.2 (here.imp fun {p q} lt v fromP w fromQ => ?_)
    obtain ⟨_, _, rfl⟩ := Option.map_eq_some_iff.1 fromP
    obtain ⟨_, _, rfl⟩ := Option.map_eq_some_iff.1 fromQ
    exact lt
  · rw [found 1, List.mem_filterMap]
    refine ⟨fun ⟨s, member, opens⟩ => ?_, fun ⟨p, shape, each⟩ => ?_⟩
    · obtain ⟨p, inside, rfl⟩ := Span.mem_tokens.1 member
      obtain ⟨last, reached, rfl⟩ := Option.map_eq_some_iff.1 opens
      obtain ⟨each, ends⟩ := (reach_phrase_iff others).1 reached
      refine ⟨p, ?_, phrase_cons_iff.2 ⟨inside, each⟩⟩
      rw [ends, List.length_cons]
      exact congrArg (Span.mk p) (Nat.add_right_comm p 1 rest.length)
    · obtain ⟨inside, each⟩ := phrase_cons_iff.1 each
      have reached : reach 1 (p + 1) (rest.map Span.tokens) = some (p + 1 + rest.length) :=
        (reach_phrase_iff others).2 ⟨each, rfl⟩
      refine ⟨Span.token p, Span.token_mem_tokens.2 inside, ?_⟩
      rw [windowFrom, show (Span.token p).stop = p + 1 from rfl, reached, shape, List.length_cons]
      exact congrArg some (congrArg (Span.mk p) (Nat.add_right_comm p 1 rest.length))

/-- The phrase "a b c" in "a b x a b c b c": from the first start the third term is too far away. -/
theorem ordered_positions_phrase :
    (∀ positions ∈ [[0, 3], [1, 4, 6], [5, 7]], positions.Pairwise (· < ·)) ∧
      ordered 1 ([[0, 3], [1, 4, 6], [5, 7]].map Span.tokens) = [⟨3, 6⟩] ∧
      ordered 4 ([[0, 3], [1, 4, 6], [5, 7]].map Span.tokens) = [⟨0, 6⟩, ⟨3, 6⟩] := by
  have ascending : ∀ positions ∈ [[0, 3], [1, 4, 6], [5, 7]], positions.Pairwise (· < ·) := by
    decide
  refine ⟨ascending, ?_, ?_⟩
  · exact (ordered_positions 1 [0, 3] [[1, 4, 6], [5, 7]] ascending).1
  · exact (ordered_positions 4 [0, 3] [[1, 4, 6], [5, 7]] ascending).1

end Window

end RankedRetrieval
