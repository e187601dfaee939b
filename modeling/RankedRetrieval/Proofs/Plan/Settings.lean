import RankedRetrieval.Proofs.Plan.Built
import RankedRetrieval.Retrieval.Execution

set_option autoImplicit false

namespace RankedRetrieval

def pruningKeys : List String := ["earlyTermination", "deltaScoring"]

/-- Parameters that differ in no other setting. -/
def Parameters.SameButPruning (p p' : Parameters) : Prop :=
  ∀ key, key ∉ pruningKeys → p'.get? key = p.get? key

namespace Parameters

theorem sameButPruning_set (p : Parameters) {key : String} (pruning : key ∈ pruningKeys)
    (value : Json) : p.SameButPruning (p.set key value) := by
  intro other apart
  rw [get?_set, if_neg]
  rintro rfl
  exact apart pruning

theorem SameButPruning.trans {p p' p'' : Parameters} (h : p.SameButPruning p')
    (h' : p'.SameButPruning p'') : p.SameButPruning p'' :=
  fun key other => (h' key other).trans (h key other)

end Parameters

namespace Setting

theorem read_congr {β : Type} {p p' : Parameters} (same : p.SameButPruning p') {key : String}
    (other : key ∉ pruningKeys) (as : Json → Option β) : p'.read as key = p.read as key := by
  rw [Parameters.read, same key other]
  rfl

variable {levels levels' : List Parameters}

theorem find?_congr {β : Type} (same : List.Forall₂ Parameters.SameButPruning levels levels')
    {key : String} (other : key ∉ pruningKeys) (as : Json → Option β) :
    find? levels' as key = find? levels as key := by
  unfold find?
  induction same with
  | nil => rfl
  | cons first _ ih => rw [List.findSome?_cons, List.findSome?_cons, read_congr first other, ih]

theorem value_congr {β : Type} (same : List.Forall₂ Parameters.SameButPruning levels levels')
    (key : String) (other : key ∉ pruningKeys) (as : Json → Option β) (default : β) :
    value levels' as key default = value levels as key default := by
  rw [value, value, find?_congr same other]

theorem flag_congr (same : List.Forall₂ Parameters.SameButPruning levels levels')
    {names : List String} (others : ∀ name ∈ names, name ∉ pruningKeys) (default : Bool) :
    flag levels' names default = flag levels names default := by
  have each {p p' : Parameters} (first : p.SameButPruning p') :
      anyName names p' = anyName names p := by
    have read : ∀ name ∈ names, p'.read Json.asFlag name = p.read Json.asFlag name :=
      fun name member => read_congr first (others name member) _
    rw [anyName, anyName, List.filterMap_congr read]
  have found : levels'.findSome? (anyName names) = levels.findSome? (anyName names) := by
    induction same with
    | nil => rfl
    | cons first _ ih => rw [List.findSome?_cons, List.findSome?_cons, each first, ih]
  rw [flag, flag, found]

end Setting

namespace Workshop

open Plan

variable {α : Type} [Arithmetic α]

structure Same (w w' : Workshop) : Prop where
  collection : w'.collection = w.collection
  vocabulary : w'.vocabulary = w.vocabulary
  levels : List.Forall₂ Parameters.SameButPruning w.levels w'.levels

variable {w w' : Workshop}

theorem realSetting_congr (same : w.Same w') (parameters : Parameters) (key : String)
    (other : key ∉ pruningKeys) (default : Float) :
    w'.realSetting (α := α) parameters key default = w.realSetting parameters key default := by
  have levels : List.Forall₂ Parameters.SameButPruning (parameters :: w.levels)
      (parameters :: w'.levels) := .cons (fun _ _ => rfl) same.levels
  rw [realSetting, realSetting, Setting.value_congr levels key other]

theorem scorer_congr (same : w.Same w') (form : Form) (parameters : Parameters)
    (lengths counts : Plan α) (term : TermStatistics) (field : FieldStatistics)
    (bounds : LengthBounds) :
    w'.scorer form parameters lengths counts term field bounds =
      w.scorer form parameters lengths counts term field bounds := by
  unfold scorer
  rw [realSetting_congr same parameters "k1" (by decide),
    realSetting_congr same parameters "b" (by decide),
    realSetting_congr same parameters "mu" (by decide)]

theorem buildAll_congr {children : List Query}
    (each : ∀ q ∈ children, w'.build (α := α) q = w.build q) (question : Capability)
    (operator : String) :
    w'.buildAll (α := α) question operator children = w.buildAll question operator children := by
  induction children with
  | nil =>
    unfold buildAll
    rfl
  | cons q rest ih =>
    obtain ⟨here, others⟩ := List.forall_mem_cons.1 each
    unfold buildAll
    rw [here, ih others]

/-- What is built does not depend on what allows pruning. -/
theorem build_congr (same : w.Same w') (q : Query) : w'.build (α := α) q = w.build q := by
  induction q with
  | node operator parameters children ih =>
    have all (question : Capability) := buildAll_congr ih question operator
    have scorers := scorer_congr (α := α) same
    obtain ⟨collection, vocabulary, levels⟩ := w
    obtain ⟨collection', vocabulary', levels'⟩ := w'
    obtain ⟨rfl, rfl, _⟩ := same
    unfold build
    refine bind_congr fun meaning => ?_
    obtain ⟨capabilities, form⟩ := meaning
    cases form with
    | termExtents | termCounts | fieldLengths | prior | custom => rfl
    | orderedWindow | unorderedWindow | synonym | combine | booleanAnd | booleanOr =>
      simp only [all]
    | passageFilter | passageLength | logarithm | scale =>
      dsimp only
      split
      · rw [ih _ (by simp)]
      · rfl
    | require =>
      dsimp only
      split
      · rw [ih _ (by simp), ih _ (by simp)]
      · rfl
    | dirichlet | bm25 =>
      dsimp only
      split
      · rw [ih _ (by simp)]
        simp only [scorers]
        rfl
      · rw [ih _ (by simp), ih _ (by simp)]
        simp only [scorers]
        rfl
      · rfl

end Workshop

namespace Retrieval

variable {α : Type} [Arithmetic α] {r : Retrieval} {p p' : Parameters}

theorem levels_congr (same : p.SameButPruning p') :
    List.Forall₂ Parameters.SameButPruning (r.levels p) (r.levels p') :=
  .cons same (.cons (fun _ _ => rfl) .nil)

theorem plan_congr (same : p.SameButPruning p') (q : Query) :
    r.plan (α := α) q p' = r.plan q p := by
  have workshops : (r.workshop p).Same (r.workshop p') := ⟨rfl, rfl, levels_congr same⟩
  rw [plan, plan, Workshop.build_congr workshops]

theorem requested_congr (same : p.SameButPruning p') :
    (Options.ofSettings (r.levels p')).requested = (Options.ofSettings (r.levels p)).requested :=
  Setting.value_congr (levels_congr same) _ (by decide) Json.asCount 1000

theorem byPassage_congr (same : p.SameButPruning p') :
    Setting.byPassage (r.levels p') = Setting.byPassage (r.levels p) :=
  Setting.flag_congr (levels_congr same) (by decide) false

theorem passageField_congr (same : p.SameButPruning p') :
    passageField (r.levels p') = passageField (r.levels p) :=
  Setting.value_congr (levels_congr same) _ (by decide) Json.asText defaultField

theorem ofSettings_congr (same : p.SameButPruning p') :
    PassageScheme.ofSettings (r.levels p') = PassageScheme.ofSettings (r.levels p) := by
  have levels := levels_congr (r := r) same
  unfold PassageScheme.ofSettings
  simp only [Setting.value_congr levels "passageSize" (by decide),
    Setting.value_congr levels "passageShift" (by decide)]

end Retrieval

end RankedRetrieval
