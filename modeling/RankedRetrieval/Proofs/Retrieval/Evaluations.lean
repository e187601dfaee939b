import RankedRetrieval.Proofs.Plan.Moves
import RankedRetrieval.Proofs.Plan.Scored
import RankedRetrieval.Proofs.Ranking.Best
import RankedRetrieval.Retrieval.Execution

set_option autoImplicit false

namespace RankedRetrieval

variable {α : Type} [Arithmetic α]

/-- One evaluation: the cursor before it, and what it is asked to score. -/
structure Evaluation (α : Type) where
  root : Cursor α
  context : Context

namespace Evaluation

def score (e : Evaluation α) : α := (e.root.score e.context none).1

def entry (e : Evaluation α) : Entry α :=
  { score := e.score, document := e.context.document, passage := e.context.passage }

end Evaluation

namespace Cursor

def scored (c : Cursor α) (ctx : Context) : Cursor α := (c.score ctx none).2.1

def evaluations (c : Cursor α) : List Context → List (Evaluation α)
  | [] => []
  | ctx :: rest => { root := c, context := ctx } :: (c.scored ctx).evaluations rest

omit [Arithmetic α] in
def toward (c : Cursor α) (target : DocId) : Cursor α :=
  { c with position := c.plan.advance c.position target }

theorem document_scored (c : Cursor α) (ctx : Context) : (c.scored ctx).document = c.document :=
  c.document_score ctx none

theorem document_foldl_scored (c : Cursor α) (contexts : List Context) :
    (contexts.foldl scored c).document = c.document := by
  induction contexts generalizing c with
  | nil => rfl
  | cons ctx rest ih => rw [List.foldl_cons, ih, document_scored]

end Cursor

/-- A cursor over the documents of a query, and one over the lengths that passages divide. -/
structure Walk (α : Type) where
  root : Cursor α
  lengths : Cursor α

namespace Walk

omit [Arithmetic α] in
def measured (w : Walk α) : Cursor α := w.lengths.catchUp w.root.document

omit [Arithmetic α] in
def contexts (scheme : Option PassageScheme) (w : Walk α) : List Context :=
  match scheme with
  | none => [.whole w.root.document]
  | some scheme =>
    (scheme.passages (w.measured.lengthAt (.whole w.root.document))).map fun passage =>
      { document := w.root.document, passage := some passage }

def step (scheme : Option PassageScheme) (w : Walk α) : Walk α where
  root := ((w.contexts scheme).foldl Cursor.scored w.root).toward (next w.root.document)
  lengths := if scheme.isSome then w.measured else w.lengths

theorem lt_step (scheme : Option PassageScheme) {w : Walk α}
    (notDone : w.root.document ≠ terminated) :
    w.root.document < (w.step scheme).root.document :=
  UInt32.lt_of_lt_of_le (lt_next notDone) (Plan.le_document_advance _ _ _)

def documents (scheme : Option PassageScheme) (w : Walk α) : List DocId :=
  if _end : w.root.document = terminated then []
  else w.root.document :: (w.step scheme).documents scheme
termination_by distance w.root.document
decreasing_by exact distance_lt (lt_step scheme _end)

def evaluations (scheme : Option PassageScheme) (w : Walk α) : List (Evaluation α) :=
  if _end : w.root.document = terminated then []
  else w.root.evaluations (w.contexts scheme) ++ (w.step scheme).evaluations scheme
termination_by distance w.root.document
decreasing_by exact distance_lt (lt_step scheme _end)

theorem le_documents (scheme : Option PassageScheme) (w : Walk α) :
    ∀ d ∈ w.documents scheme, w.root.document ≤ d := by
  fun_induction documents scheme w with
  | case1 w done => exact List.forall_mem_nil _
  | case2 w notDone ih =>
    refine List.forall_mem_cons.2 ⟨UInt32.le_refl _, fun d later => ?_⟩
    exact UInt32.le_trans (UInt32.le_of_lt (lt_step scheme notDone)) (ih d later)

theorem documents_pairwise (scheme : Option PassageScheme) (w : Walk α) :
    (w.documents scheme).Pairwise fun d e => d < e := by
  fun_induction documents scheme w with
  | case1 w done => exact List.Pairwise.nil
  | case2 w notDone ih =>
    refine List.pairwise_cons.2 ⟨fun d later => ?_, ih⟩
    exact UInt32.lt_of_lt_of_le (lt_step scheme notDone) (le_documents scheme _ d later)

end Walk

section Order

def Entry.Before (e f : Entry α) : Prop :=
  e.document < f.document ∨ (e.document = f.document ∧ e.passageRank < f.passageRank)

theorem le_start_passagesFrom (s : PassageScheme) (length : Nat) (bounded : length ≤ maxPosition)
    (start : Nat) : ∀ span ∈ s.passagesFrom length bounded start, start ≤ span.start := by
  fun_induction PassageScheme.passagesFrom s length bounded start with
  | case1 start stop last =>
    intro span member
    exact Nat.le_of_eq (congrArg Span.start (List.mem_singleton.1 member)).symm
  | case2 start stop more ih =>
    intro span member
    have := s.shift_pos
    rcases List.mem_cons.1 member with rfl | member
    · exact Nat.le_refl start
    · have := ih span member
      omega

theorem passagesFrom_pairwise (s : PassageScheme) (length : Nat) (bounded : length ≤ maxPosition)
    (start : Nat) :
    (s.passagesFrom length bounded start).Pairwise fun a b => a.start < b.start := by
  fun_induction PassageScheme.passagesFrom s length bounded start with
  | case1 start stop last => exact List.pairwise_singleton _ _
  | case2 start stop more ih =>
    refine List.pairwise_cons.2 ⟨fun span member => ?_, ih⟩
    have := le_start_passagesFrom s length bounded _ span member
    have := s.shift_pos
    have := s.size_pos
    dsimp only
    omega

theorem passages_pairwise (s : PassageScheme) (length : Nat) :
    (s.passages length).Pairwise fun a b => a.start < b.start :=
  passagesFrom_pairwise s _ _ 0

namespace Walk

omit [Arithmetic α] in
theorem document_contexts {scheme : Option PassageScheme} {w : Walk α} {ctx : Context}
    (h : ctx ∈ w.contexts scheme) : ctx.document = w.root.document := by
  cases scheme with
  | none => rw [List.mem_singleton.1 h, Context.whole]
  | some scheme =>
    obtain ⟨passage, _, rfl⟩ := List.mem_map.1 h
    rfl

end Walk

omit [Arithmetic α] in
theorem Walk.contexts_of_passages (scheme : Option PassageScheme) (w : Walk α) :
    ((w.contexts scheme).map Context.passage).map
      (fun passage => { document := w.root.document, passage }) = w.contexts scheme := by
  have same (c : Context) (inside : c ∈ w.contexts scheme) :
      ({ document := w.root.document, passage := c.passage } : Context) = id c := by
    rw [← document_contexts inside]
    rfl
  rw [List.map_map]
  exact (List.map_congr_left same).trans (List.map_id _)

theorem Cursor.map_context_evaluations (c : Cursor α) (contexts : List Context) :
    (c.evaluations contexts).map Evaluation.context = contexts := by
  induction contexts generalizing c with
  | nil => rfl
  | cons ctx rest ih => rw [Cursor.evaluations, List.map_cons, ih]

theorem Walk.contexts_pairwise (scheme : Option PassageScheme) (w : Walk α) :
    ((w.root.evaluations (w.contexts scheme)).map Evaluation.entry).Pairwise Entry.Before := by
  have contexts := w.root.map_context_evaluations (w.contexts scheme)
  rw [List.pairwise_map]
  have order : (w.contexts scheme).Pairwise fun a b =>
      a.document = b.document ∧ ∀ score score' : α,
        Entry.passageRank { score, document := a.document, passage := a.passage } <
          Entry.passageRank { score := score', document := b.document, passage := b.passage } := by
    cases scheme with
    | none => exact List.pairwise_singleton _ _
    | some scheme =>
      refine List.pairwise_map.2 ((passages_pairwise scheme _).imp fun lt => ?_)
      exact ⟨rfl, fun _ _ => Nat.succ_lt_succ lt⟩
  rw [← contexts, List.pairwise_map] at order
  exact order.imp fun h => .inr ⟨h.1, h.2 _ _⟩

theorem Walk.le_document_evaluations (scheme : Option PassageScheme) (w : Walk α) :
    ∀ e ∈ w.evaluations scheme, w.root.document ≤ e.context.document := by
  fun_induction Walk.evaluations scheme w with
  | case1 w done => exact List.forall_mem_nil _
  | case2 w notDone ih =>
    intro e member
    rcases List.mem_append.1 member with here | later
    · have context : e.context ∈ w.contexts scheme := by
        rw [← w.root.map_context_evaluations (w.contexts scheme)]
        exact List.mem_map_of_mem here
      rw [document_contexts context]
      exact UInt32.le_refl _
    · exact UInt32.le_trans (UInt32.le_of_lt (lt_step scheme notDone)) (ih e later)

/-- Documents are evaluated one after the other, and so are the passages of each. -/
theorem Walk.evaluations_pairwise (scheme : Option PassageScheme) (w : Walk α) :
    ((w.evaluations scheme).map Evaluation.entry).Pairwise Entry.Before := by
  fun_induction Walk.evaluations scheme w with
  | case1 w done => exact List.Pairwise.nil
  | case2 w notDone ih =>
    rw [List.map_append]
    refine List.pairwise_append.2 ⟨w.contexts_pairwise scheme, ih, ?_⟩
    intro e here f later
    obtain ⟨x, inHere, rfl⟩ := List.mem_map.1 here
    obtain ⟨y, inLater, rfl⟩ := List.mem_map.1 later
    have context : x.context ∈ w.contexts scheme := by
      rw [← w.root.map_context_evaluations (w.contexts scheme)]
      exact List.mem_map_of_mem inHere
    have after := (w.step scheme).le_document_evaluations scheme y inLater
    refine .inl (UInt32.lt_of_lt_of_le ?_ after)
    have same : x.entry.document = w.root.document := document_contexts context
    rw [same]
    exact lt_step scheme notDone

theorem Entry.eq_of_rank_eq {entries : List (Entry α)} (order : entries.Pairwise Before) :
    ∀ e ∈ entries, ∀ f ∈ entries, e.rank f = .eq → e = f := by
  have apart {e f : Entry α} (before : e.Before f) :
      (compare e.document.toNat f.document.toNat).then (compare e.passageRank f.passageRank) ≠
        .eq := by
    intro same
    obtain ⟨document, passage⟩ := Ordering.then_eq_eq.1 same
    rw [Nat.compare_eq_eq] at document passage
    rcases before with lt | ⟨_, lt⟩
    · rw [UInt32.lt_iff_toNat_lt, document] at lt
      exact Nat.lt_irrefl _ lt
    · rw [passage] at lt
      exact Nat.lt_irrefl _ lt
  intro e inE f inF same
  obtain ⟨i, hi, rfl⟩ := List.mem_iff_getElem.1 inE
  obtain ⟨j, hj, rfl⟩ := List.mem_iff_getElem.1 inF
  have places := (Ordering.then_eq_eq.1 same).2
  rcases Nat.lt_trichotomy i j with lt | rfl | gt
  · exact absurd places (apart (List.pairwise_iff_getElem.1 order i j hi hj lt))
  · rfl
  · have swapped := apart (List.pairwise_iff_getElem.1 order j i hj hi gt)
    obtain ⟨document, passage⟩ := Ordering.then_eq_eq.1 places
    refine absurd (Ordering.then_eq_eq.2 ⟨?_, ?_⟩) swapped
    · rw [Nat.compare_eq_eq] at document ⊢
      exact document.symm
    · rw [Nat.compare_eq_eq] at passage ⊢
      exact passage.symm

end Order

structure Stats.Counts (visited scored : Nat) (s t : Stats) : Prop where
  visited : t.visited = s.visited + visited
  scored : t.scored = s.scored + scored
  pruned : t.pruned = s.pruned
  stoppedEarly : t.stoppedEarly = s.stoppedEarly

theorem Stats.Counts.refl (s : Stats) : Counts 0 0 s s := ⟨rfl, rfl, rfl, rfl⟩

theorem Stats.Counts.trans {s t u : Stats} {v v' n n' : Nat} (h : Counts v n s t)
    (h' : Counts v' n' t u) : Counts (v + v') (n + n') s u where
  visited := by rw [h'.visited, h.visited, Nat.add_assoc]
  scored := by rw [h'.scored, h.scored, Nat.add_assoc]
  pruned := h'.pruned.trans h.pruned
  stoppedEarly := h'.stoppedEarly.trans h.stoppedEarly

namespace Scan

def walk (s : Scan α) : Walk α := { root := s.root, lengths := s.lengths }

structure Thorough (rules : ScanRules α) : Prop where
  notEarly : rules.earlyTermination = false
  noDelta : rules.delta = false

structure After (walk : Walk α) (evaluations : List (Evaluation α)) (visited : Nat)
    (s t : Scan α) : Prop where
  root : t.root = walk.root
  lengths : t.lengths = walk.lengths
  best : t.best = (evaluations.map Evaluation.entry).foldl TopK.insert s.best
  stats : Stats.Counts visited evaluations.length s.stats t.stats

variable {rules : ScanRules α}

theorem after_evaluate (thorough : Thorough rules) (document : DocId) (s : Scan α)
    (passage : Option Span) :
    After { s.walk with root := s.root.scored { document, passage } }
      [{ root := s.root, context := { document, passage } }] 0 s
      (s.evaluate rules document passage) := by
  have free : s.delta rules = none := by
    rw [delta, thorough.noDelta]
    rfl
  have kept : (s.root.score { document, passage } none).2.2 = none :=
    s.root.plan.delta_score_none _ _
  unfold evaluate
  rw [free]
  dsimp only
  rw [kept]
  exact ⟨rfl, rfl, rfl, rfl, rfl, rfl, rfl⟩

theorem after_foldl_evaluate (thorough : Thorough rules) (document : DocId) (s : Scan α)
    (passages : List (Option Span)) :
    let contexts : List Context := passages.map fun passage => { document, passage }
    After { s.walk with root := contexts.foldl Cursor.scored s.root }
      (s.root.evaluations contexts) 0 s (passages.foldl (evaluate rules document) s) := by
  induction passages generalizing s with
  | nil => exact ⟨rfl, rfl, rfl, .refl s.stats⟩
  | cons passage rest ih =>
    have first := after_evaluate thorough document s passage
    have others := ih (s.evaluate rules document passage)
    rw [first.root] at others
    refine ⟨others.root, others.lengths.trans first.lengths, ?_, ?_⟩
    · rw [List.foldl_cons, others.best, first.best]
      rfl
    · have stats := first.stats.trans others.stats
      rw [List.length_singleton, Nat.add_comm 1] at stats
      exact stats

theorem visit_eq (rules : ScanRules α) {s : Scan α} {w : Walk α}
    (document : s.root.document = w.root.document) (lengths : s.lengths = w.lengths) :
    s.visit rules =
      ((w.contexts rules.passages).map Context.passage).foldl (evaluate rules w.root.document)
        { s with
          lengths := (w.step rules.passages).lengths
          stats := { s.stats with visited := s.stats.visited + 1 } } := by
  unfold visit Walk.contexts Walk.step Walk.measured
  rw [← document, ← lengths]
  cases rules.passages with
  | none => rfl
  | some scheme =>
    rw [List.map_map]
    rfl

theorem after_visit (thorough : Thorough rules) (s : Scan α) :
    let w := s.walk
    After
      { root := (w.contexts rules.passages).foldl Cursor.scored w.root
        lengths := if rules.passages.isSome then w.measured else w.lengths }
      (w.root.evaluations (w.contexts rules.passages)) 1 s (s.visit rules) := by
  have all := after_foldl_evaluate thorough s.walk.root.document
    { s with
      lengths := (s.walk.step rules.passages).lengths
      stats := { s.stats with visited := s.stats.visited + 1 } }
    ((s.walk.contexts rules.passages).map Context.passage)
  rw [s.walk.contexts_of_passages] at all
  rw [visit_eq (w := s.walk) rules rfl rfl]
  refine ⟨all.root, all.lengths, all.best, ?_⟩
  exact ⟨all.stats.visited, all.stats.scored, all.stats.pruned, all.stats.stoppedEarly⟩

theorem moveTo_visit (s : Scan α) :
    (s.visit rules).root.moveTo (next s.root.document) =
      .ok ((s.visit rules).root.toward (next s.root.document)) := by
  rw [← s.document_visit rules]
  exact Cursor.moveTo_next _

/-- A scan that may leave nothing out makes the evaluations of its walk, in their order. -/
theorem finish_eq (thorough : Thorough rules) (s : Scan α) :
    ∃ t, finish rules s = .ok t ∧
      t.best = ((s.walk.evaluations rules.passages).map Evaluation.entry).foldl TopK.insert
        s.best ∧
      Stats.Counts (s.walk.documents rules.passages).length
        (s.walk.evaluations rules.passages).length s.stats t.stats := by
  fun_induction finish rules s with
  | case1 s done =>
    have here : s.walk.root.document = terminated := done
    rw [Walk.evaluations, dif_pos here, Walk.documents, dif_pos here]
    exact ⟨s, rfl, rfl, .refl s.stats⟩
  | case2 s notDone decided =>
    rw [isDecided, thorough.notEarly] at decided
    cases decided
  | case3 s notDone open_ error moved =>
    rw [moveTo_visit] at moved
    cases moved
  | case4 s notDone open_ root moved ih =>
    rw [moveTo_visit] at moved
    cases moved
    have visited := after_visit thorough s
    have same : ({ s.visit rules with
        root := (s.visit rules).root.toward (next s.root.document) } : Scan α).walk =
        s.walk.step rules.passages := by
      rw [walk, Walk.step, visited.root, visited.lengths]
      rfl
    obtain ⟨t, finished, best, stats⟩ := ih
    rw [same] at best stats
    have here : s.walk.root.document ≠ terminated := notDone
    rw [Walk.evaluations, dif_neg here, Walk.documents, dif_neg here]
    refine ⟨t, finished, ?_, ?_⟩
    · rw [best, List.map_append, List.foldl_append, visited.best]
    · rw [List.length_cons, List.length_append, Nat.add_comm _ 1]
      exact visited.stats.trans stats

end Scan

end RankedRetrieval
