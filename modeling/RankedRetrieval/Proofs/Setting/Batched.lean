import Mathlib.Data.List.Basic
import RankedRetrieval.Retrieval.Batch

set_option autoImplicit false

/-!
# The settings of a query in a batch

The parameters of a query and of its batch are put together key by key, before any setting is read.
A key of the query is therefore in the way of the batch even where it cannot be read, and a flag may
be off by one name in the query and on by another in the batch. Apart from these two, the batch is a
level between the query and the retrieval (`Retrieval.levels_effective`). With these settings each
query of a batch runs on its own (`Retrieval.runBatch_ok_iff`).
-/

namespace RankedRetrieval

namespace Setting

variable {β : Type} (as : Json → Option β) (key : String)

theorem find?_cons (level : Parameters) (levels : List Parameters) :
    find? (level :: levels) as key = (level.read as key).or (find? levels as key) := by
  rw [find?, List.findSome?_cons]
  cases level.read as key <;> rfl

theorem find?_append (above levels : List Parameters) :
    find? (above ++ levels) as key = (find? above as key).or (find? levels as key) :=
  List.findSome?_append

theorem value_append {levels levels' : List Parameters}
    (same : find? levels' as key = find? levels as key) (above : List Parameters) (default : β) :
    value (above ++ levels') as key default = value (above ++ levels) as key default := by
  rw [value, value, find?_append, find?_append, same]

theorem anyName_eq_none_iff {names : List String} {level : Parameters} :
    anyName names level = none ↔ ∀ name ∈ names, level.read Json.asFlag name = none := by
  rw [← List.filterMap_eq_nil_iff, anyName]
  split <;> simp_all

theorem anyName_eq_some_true_iff {names : List String} {level : Parameters} :
    anyName names level = some true ↔ ∃ name ∈ names, level.read Json.asFlag name = some true := by
  have any : (names.filterMap (level.read Json.asFlag)).any id = true ↔
      ∃ name ∈ names, level.read Json.asFlag name = some true := by
    rw [List.any_eq_true]
    constructor
    · rintro ⟨value, member, on⟩
      obtain ⟨name, among, read⟩ := List.mem_filterMap.1 member
      exact ⟨name, among, by rw [read]; exact congrArg some on⟩
    · rintro ⟨name, among, read⟩
      exact ⟨true, List.mem_filterMap.2 ⟨name, among, read⟩, rfl⟩
  rw [← any, anyName]
  split <;> simp_all

theorem anyName_congr {names : List String} {level level' : Parameters}
    (same : ∀ name ∈ names, level'.read Json.asFlag name = level.read Json.asFlag name) :
    anyName names level' = anyName names level := by
  rw [anyName, anyName, List.filterMap_congr same]

end Setting

namespace BatchQuery

open Setting

variable {β : Type} {b : BatchQuery} {batch : Parameters} {as : Json → Option β} {key : String}

/-- What a batch gives under these keys is no setting of a single query. -/
def reserved : List String := ["query", "queries", "requested"]

/-- The query has the key in a form that cannot be read, and the batch in one that can. -/
def Hides (b : BatchQuery) (batch : Parameters) (as : Json → Option β) (key : String) : Prop :=
  b.parameters.contains key = true ∧ b.parameters.read as key = none ∧ batch.read as key ≠ none

instance : Decidable (b.Hides batch as key) := inferInstanceAs (Decidable (_ ∧ _ ∧ _))

/-- The query has names of the flag, all of them off, and the batch has another name of it on. -/
def TurnedOn (b : BatchQuery) (batch : Parameters) (names : List String) : Prop :=
  anyName names b.parameters = some false ∧
    ∃ name ∈ names, b.parameters.read Json.asFlag name = none ∧
      batch.read Json.asFlag name = some true

instance (names : List String) : Decidable (b.TurnedOn batch names) :=
  inferInstanceAs (Decidable (_ ∧ _))

theorem get?_effective (apart : key ∉ reserved) :
    (b.effective batch).get? key = (b.parameters.get? key).or (batch.get? key) := by
  obtain ⟨query, queries, requested⟩ : "query" ≠ key ∧ "queries" ≠ key ∧ "requested" ≠ key := by
    simpa [reserved, eq_comm] using apart
  have backoff : ((batch.remove "query").remove "queries").get? key = batch.get? key := by
    rw [Parameters.get?_remove, if_neg queries, Parameters.get?_remove, if_neg query]
  rw [effective]
  split
  · rw [Parameters.get?_set, if_neg requested, Parameters.get?_backedBy, backoff]
  · rw [Parameters.get?_backedBy, backoff]

theorem read_effective (apart : key ∉ reserved) :
    (b.effective batch).read as key =
      if b.parameters.contains key then b.parameters.read as key else batch.read as key := by
  rw [Parameters.read, get?_effective apart, Parameters.contains, Parameters.read]
  cases b.parameters.get? key <;> rfl

/-- Nothing hidden, a key is read at the query and then at the batch. -/
theorem read_effective_eq_or (apart : key ∉ reserved) (shown : ¬ b.Hides batch as key) :
    (b.effective batch).read as key = (b.parameters.read as key).or (batch.read as key) := by
  rw [read_effective apart]
  split
  · next has =>
    cases own : b.parameters.read as key with
    | some value => rfl
    | none =>
      have unreadable : batch.read as key = none :=
        of_not_not fun readable => shown ⟨has, own, readable⟩
      rw [unreadable, Option.or_none]
  · next missing =>
    have own : b.parameters.read as key = none := by
      rw [Parameters.read, Option.not_isSome_iff_eq_none.1 missing, Option.bind_none]
    rw [own, Option.none_or]

theorem read_effective_of_hides (apart : key ∉ reserved) (hidden : b.Hides batch as key) :
    (b.effective batch).read as key = none := by
  rw [read_effective apart, if_pos hidden.1, hidden.2.1]

/-- The merged level reads as the two levels exactly where nothing is hidden, or where what is
hidden is what the retrieval says too. -/
theorem find?_effective_iff (apart : key ∉ reserved) (global : Parameters) :
    find? [b.effective batch, global] as key = find? [b.parameters, batch, global] as key ↔
      ¬ (b.Hides batch as key ∧ global.read as key ≠ batch.read as key) := by
  have last : find? [global] as key = global.read as key := by
    rw [find?_cons, show find? [] as key = none from rfl, Option.or_none]
  rw [find?_cons as key _ [global], find?_cons as key _ [batch, global],
    find?_cons as key _ [global], last]
  by_cases hidden : b.Hides batch as key
  · rw [read_effective_of_hides apart hidden, hidden.2.1, Option.none_or, Option.none_or,
      Option.or_of_isSome (Option.isSome_iff_ne_none.2 hidden.2.2)]
    simp [hidden]
  · rw [read_effective_eq_or apart hidden, Option.or_assoc]
    simp [hidden]

variable {names : List String}

/-- Of a flag of which nothing is hidden, the merged level says what the first of the two levels
says that names it, unless the batch turns it on. -/
theorem anyName_effective (apart : ∀ name ∈ names, name ∉ reserved)
    (shown : ∀ name ∈ names, ¬ b.Hides batch Json.asFlag name) :
    (b.TurnedOn batch names → anyName names (b.effective batch) = some true) ∧
      (¬ b.TurnedOn batch names →
        anyName names (b.effective batch) =
          (anyName names b.parameters).or (anyName names batch)) := by
  have read : ∀ name ∈ names, (b.effective batch).read Json.asFlag name =
      (b.parameters.read Json.asFlag name).or (batch.read Json.asFlag name) :=
    fun name member => read_effective_eq_or (apart name member) (shown name member)
  refine ⟨fun ⟨_, name, member, own, on⟩ => ?_, fun kept => ?_⟩
  · rw [anyName_eq_some_true_iff]
    exact ⟨name, member, by rw [read name member, own, on, Option.none_or]⟩
  cases own : anyName names b.parameters with
  | none =>
    rw [Option.none_or]
    refine anyName_congr fun name member => ?_
    rw [read name member, anyName_eq_none_iff.1 own name member, Option.none_or]
  | some value =>
    rw [Option.some_or]
    cases value with
    | true =>
      obtain ⟨name, member, on⟩ := anyName_eq_some_true_iff.1 own
      exact anyName_eq_some_true_iff.2 ⟨name, member, by rw [read name member, on, Option.some_or]⟩
    | false =>
      cases merged : anyName names (b.effective batch) with
      | none =>
        -- a name of the query is a name of the merged level
        have none_own : anyName names b.parameters = none := by
          rw [anyName_eq_none_iff] at merged ⊢
          intro name member
          have both := merged name member
          rw [read name member] at both
          exact (Option.or_eq_none_iff.1 both).1
        rw [own] at none_own
        cases none_own
      | some merged_value =>
        cases merged_value with
        | false => rfl
        | true =>
          obtain ⟨name, member, on⟩ := anyName_eq_some_true_iff.1 merged
          rw [read name member] at on
          rcases Option.or_eq_some_iff.1 on with here | ⟨missing, there⟩
          · rw [anyName_eq_some_true_iff.2 ⟨name, member, here⟩] at own
            cases own
          · exact absurd ⟨own, name, member, missing, there⟩ kept

end BatchQuery

namespace Retrieval

open Setting BatchQuery

/-- What a query of a batch reads is what the query, the batch and the retrieval say in this order,
where the query does not hide what the batch says. A flag, nothing of it hidden, is read so unless
the batch turns it on by a name that the query does not use. -/
theorem levels_effective (r : Retrieval) (b : BatchQuery) (batch : Parameters) :
    (∀ {β : Type} (as : Json → Option β) (key : String), key ∉ reserved →
        ¬ b.Hides batch as key → ∀ (above : List Parameters) (default : β),
          value (above ++ r.levels (b.effective batch)) as key default =
            value (above ++ [b.parameters, batch, r.global]) as key default) ∧
      ∀ names : List String, (∀ name ∈ names, name ∉ reserved) →
        (∀ name ∈ names, ¬ b.Hides batch Json.asFlag name) → ∀ default : Bool,
          (flag (r.levels (b.effective batch)) names default =
              flag [b.parameters, batch, r.global] names default ↔
            ¬ b.TurnedOn batch names) := by
  refine ⟨fun as key apart shown above default => ?_, fun names apart shown default => ?_⟩
  · have same := (find?_effective_iff apart r.global).2 fun hidden => shown hidden.1
    exact value_append as key same above default
  obtain ⟨turned, kept⟩ := anyName_effective apart shown
  by_cases on : b.TurnedOn batch names
  · -- the first level of the query itself says no
    have code : flag (r.levels (b.effective batch)) names default = true := by
      rw [flag, levels, List.findSome?_cons, turned on]
      rfl
    have said : flag [b.parameters, batch, r.global] names default = false := by
      rw [flag, List.findSome?_cons, on.1]
      rfl
    rw [code, said]
    simp [on]
  · refine iff_of_true ?_ on
    rw [flag, flag, levels, List.findSome?_cons, List.findSome?_cons, List.findSome?_cons, kept on]
    cases anyName names b.parameters with
    | some value => rfl
    | none =>
      rw [Option.none_or, List.findSome?_cons]
      rfl

section Runs

variable {α : Type} [Arithmetic α] (r : Retrieval) (queries : List BatchQuery)
  (batch : Parameters) (i : Nat)

theorem getElem?_runBatch : (r.runBatch (α := α) queries batch)[i]? =
    queries[i]?.map fun b => (r.run b.query (b.effective batch)).mapError
      fun cause => { number := b.number, cause } :=
  List.getElem?_map

/-- A query of a batch has the results with which it runs on its own, with the merged settings. -/
theorem runBatch_ok_iff (results : Results α) :
    (r.runBatch queries batch)[i]? = some (.ok results) ↔
      ∃ b, queries[i]? = some b ∧ r.run b.query (b.effective batch) = .ok results := by
  rw [getElem?_runBatch, Option.map_eq_some_iff]
  refine exists_congr fun b => and_congr_right fun _ => ?_
  cases r.run (α := α) b.query (b.effective batch) <;> simp [Except.mapError]

theorem runBatch_error_iff (f : BatchFailure) :
    (r.runBatch (α := α) queries batch)[i]? = some (.error f) ↔
      ∃ b, queries[i]? = some b ∧ f.number = b.number ∧
        r.run (α := α) b.query (b.effective batch) = .error f.cause := by
  rw [getElem?_runBatch, Option.map_eq_some_iff]
  refine exists_congr fun b => and_congr_right fun _ => ?_
  obtain ⟨number, cause⟩ := f
  cases r.run (α := α) b.query (b.effective batch) <;>
    simp [Except.mapError, BatchFailure.mk.injEq, eq_comm]

end Runs

section Example

variable (parameters : Parameters)

def queryWith : BatchQuery :=
  { number := "1", query := .node "text" (.single "term" (.string "a")) [], parameters }

def plainRetrieval : Retrieval :=
  { collection := { names := #[], fields := [], priors := [] }
    vocabulary := .builtIn
    global := .single "passageField" (.string "title") }

def shortPassages : Parameters :=
  { fields := [("extentQuery", .bool true), ("passageSize", .number (.int 20))] }

theorem levels_effective_silent :
    let b := queryWith (.single "passageShift" (.number (.int 10)))
    value (plainRetrieval.levels (b.effective shortPassages)) Json.asCount "passageSize" 100 = 20 ∧
      Setting.byPassage (plainRetrieval.levels (b.effective shortPassages)) = true := by
  intro b
  obtain ⟨values, flags⟩ := levels_effective plainRetrieval b shortPassages
  refine ⟨?_, ?_⟩
  · exact (values Json.asCount "passageSize" (by decide) (by decide) [] 100).trans (by decide)
  · exact ((flags ["passageQuery", "extentQuery"] (by decide) (by decide) false).2
      (by decide)).trans (by decide)

/-- A query that turns passages off, and gives their size in a form that cannot be read. -/
theorem levels_effective_contested :
    let b := queryWith { fields := [("passageQuery", .bool false), ("passageSize", .bool true)] }
    let merged := plainRetrieval.levels (b.effective shortPassages)
    let apart := [b.parameters, shortPassages, plainRetrieval.global]
    (Setting.byPassage apart = false ∧ Setting.byPassage merged = true) ∧
      value apart Json.asCount "passageSize" 100 = 20 ∧
      value merged Json.asCount "passageSize" 100 = 100 := by
  decide

end Example

end Retrieval

end RankedRetrieval
