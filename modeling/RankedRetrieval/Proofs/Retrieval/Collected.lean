import Mathlib.Data.List.Forall2
import RankedRetrieval.Retrieval.Batch

set_option autoImplicit false

/-!
# Numbers of the queries of a batch

Entries without a number are numbered in their order, whatever numbers the other entries give. No
two of them get the same number, but one may get the number that another entry gives
(`collect_numbers`).
-/

namespace RankedRetrieval.BatchQuery

def entries (batch : Parameters) : List Json :=
  entriesOf batch "query" ++ entriesOf batch "queries"

def wrapped? : Json → Option (Fields × Json)
  | .object fields => (Table.get? "query" fields).map (fields, ·)
  | _ => none

def given (entry : Json) : String :=
  match wrapped? entry with
  | none => ""
  | some (fields, _) =>
    match Table.get? "number" fields with
    | some (.string s) => s
    | some (.number n) => n.render
    | _ => ""

/-- The query is the one that the entry has, or is, and the parameters are what else it has. -/
def Describes (entry : Json) (b : BatchQuery) : Prop :=
  match wrapped? entry with
  | none => Query.ofJson entry = .ok b.query ∧ b.parameters = .empty
  | some (fields, query) =>
    Query.ofJson query = .ok b.query ∧
      b.parameters = (Parameters.remove { fields } "number").remove "query"

def automatic (n : Nat) : String := "unk-" ++ toString n

def unnumbered (entries : List Json) (i : Nat) : Nat :=
  (entries.take i).countP fun entry => given entry = ""

variable {entry entry' : Json} {b : BatchQuery} {read : List BatchQuery} {list : List Json}
  {i j m n : Nat} {key : String}

theorem automatic_inj : automatic m = automatic n ↔ m = n := by
  refine ⟨fun same => ?_, congrArg automatic⟩
  have digits := congrArg String.toList ((String.append_right_inj _).1 same)
  rw [Nat.toString_eq_repr, Nat.toString_eq_repr, Nat.toList_repr, Nat.toList_repr] at digits
  have value := congrArg (Nat.ofDigitChars 10 · 0) digits
  simpa using value

theorem automatic_ne_empty (n : Nat) : automatic n ≠ "" := by
  simp [automatic]

section Unnumbered

@[simp] theorem unnumbered_zero (list : List Json) : unnumbered list 0 = 0 := rfl

@[simp] theorem unnumbered_cons (entry : Json) (list : List Json) (i : Nat) :
    unnumbered (entry :: list) (i + 1) =
      unnumbered list i + if given entry = "" then 1 else 0 := by
  simp [unnumbered, List.countP_cons]

theorem unnumbered_mono (list : List Json) (le : i ≤ j) :
    unnumbered list i ≤ unnumbered list j := by
  have first : (list.take j).take i = list.take i := by rw [List.take_take, Nat.min_eq_left le]
  rw [unnumbered, ← first]
  exact (List.take_sublist i _).countP_le

theorem unnumbered_lt (there : list[i]? = some entry) (free : given entry = "") (lt : i < j) :
    unnumbered list i < unnumbered list j := by
  have here : unnumbered list (i + 1) = unnumbered list i + 1 := by
    rw [unnumbered, List.take_add_one, there, List.countP_append]
    simp [free, unnumbered]
  exact Nat.lt_of_lt_of_le (here ▸ Nat.lt_succ_self _) (unnumbered_mono list lt)

end Unnumbered

section Read

theorem describes_of_bare (bare : wrapped? entry = none) (done : ofJson.bare entry = .ok b) :
    Describes entry b ∧ b.number = given entry := by
  simp only [Describes, given, bare]
  cases parsed : Query.ofJson entry with
  | error fault =>
    rw [ofJson.bare, parsed] at done
    cases done
  | ok q =>
    rw [ofJson.bare, parsed] at done
    cases done
    exact ⟨⟨rfl, rfl⟩, rfl⟩

theorem describes_of_ofJson (done : ofJson entry = .ok b) :
    Describes entry b ∧ b.number = given entry := by
  cases entry with
  | object fields =>
    cases own : Table.get? "query" fields with
    | none =>
      rw [ofJson, own] at done
      exact describes_of_bare (by rw [wrapped?, own]; rfl) done
    | some query =>
      have wrapped : wrapped? (.object fields) = some (fields, query) := by
        rw [wrapped?, own]
        rfl
      simp only [Describes, given, wrapped]
      cases number : readNumber fields with
      | error fault =>
        simp only [ofJson, own, number] at done
        cases done
      | ok text =>
        cases parsed : Query.ofJson query with
        | error fault =>
          simp only [ofJson, own, number, parsed] at done
          cases done
        | ok q =>
          simp only [ofJson, own, number, parsed] at done
          cases done
          refine ⟨⟨rfl, rfl⟩, ?_⟩
          unfold readNumber at number
          cases found : Table.get? "number" fields with
          | none =>
            rw [found] at number
            cases number
            rfl
          | some value =>
            rw [found] at number
            cases value <;> cases number <;> rfl
  | _ => exact describes_of_bare rfl done

theorem readEntries_eq_ok {entries : List Json} (done : readEntries key entries = .ok read) :
    List.Forall₂ (fun entry b => ofJson entry = .ok b) entries read := by
  induction entries generalizing read with
  | nil =>
    cases done
    exact .nil
  | cons entry rest ih =>
    cases one : ofJson entry with
    | error fault =>
      rw [readEntries, one] at done
      cases done
    | ok b =>
      cases others : readEntries key rest with
      | error fault =>
        rw [readEntries, one, others] at done
        cases done
      | ok read' =>
        rw [readEntries, one, others] at done
        cases done
        exact .cons one (ih others)

theorem collect_eq_ok {batch : Parameters} {out : List BatchQuery}
    (done : collect batch = .ok out) :
    ∃ read, List.Forall₂ (fun entry b => ofJson entry = .ok b) (entries batch) read ∧
      out = numberFrom 0 read := by
  cases first : readEntries "query" (entriesOf batch "query") with
  | error fault =>
    rw [collect, first] at done
    cases done
  | ok read =>
    cases others : readEntries "queries" (entriesOf batch "queries") with
    | error fault =>
      rw [collect, first, others] at done
      cases done
    | ok read' =>
      rw [collect, first, others] at done
      cases done
      exact ⟨_, List.rel_append (readEntries_eq_ok first) (readEntries_eq_ok others), rfl⟩

end Read

section Number

/-- The number under which an entry is collected, with `next` for the first that gives none. -/
def assigned (next : Nat) (entries : List Json) (i : Nat) (entry : Json) : String :=
  if given entry = "" then automatic (next + unnumbered entries i) else given entry

theorem assigned_succ (next : Nat) (entry first : Json) (list : List Json) (i : Nat) :
    assigned next (first :: list) (i + 1) entry =
      assigned (if given first = "" then next + 1 else next) list i entry := by
  by_cases free : given first = ""
  · simp [assigned, free, Nat.add_assoc, Nat.add_comm]
  · simp [assigned, free]

theorem numberFrom_numbers (next : Nat)
    (all : List.Forall₂ (fun entry b => ofJson entry = .ok b) list read)
    (there : list[i]? = some entry) :
    ∃ b, (numberFrom next read)[i]? = some b ∧ Describes entry b ∧
      b.number = assigned next list i entry := by
  induction all generalizing next i with
  | nil => cases there
  | @cons first b rest read done _ ih =>
    obtain ⟨describes, number⟩ := describes_of_ofJson done
    have isEmpty : b.number.isEmpty = decide (given first = "") := by
      rw [number]
      exact Bool.eq_iff_iff.2 (by simp)
    rw [numberFrom, isEmpty]
    cases i with
    | zero =>
      cases there
      by_cases free : given entry = ""
      · exact ⟨{ b with number := automatic next }, by simp [free, automatic], describes,
          by simp [assigned, free]⟩
      · exact ⟨b, by simp [free], describes, by simp [assigned, free, number]⟩
    | succ i =>
      rw [assigned_succ]
      by_cases free : given first = ""
      · simpa [free] using ih _ there
      · simpa [free] using ih _ there

theorem length_numberFrom (next : Nat) (read : List BatchQuery) :
    (numberFrom next read).length = read.length := by
  induction read generalizing next with
  | nil => rfl
  | cons b rest ih =>
    rw [numberFrom]
    split <;> rw [List.length_cons, List.length_cons, ih]

theorem assigned_ne_empty (next : Nat) (entry : Json) : assigned next list i entry ≠ "" := by
  unfold assigned
  split
  · exact automatic_ne_empty _
  · assumption

/-- Two entries are collected under one number if both give it, or if one gives the number that the
other gets for having none. -/
theorem assigned_eq_iff (other : i ≠ j) (here : list[i]? = some entry)
    (there : list[j]? = some entry') :
    assigned 0 list i entry = assigned 0 list j entry' ↔
      given entry ≠ "" ∧ given entry' = given entry ∨
        given entry = "" ∧ given entry' = automatic (unnumbered list i) ∨
        given entry' = "" ∧ given entry = automatic (unnumbered list j) := by
  have apart (free : given entry = "") (free' : given entry' = "") :
      unnumbered list i ≠ unnumbered list j := by
    rcases Nat.lt_or_gt_of_ne other with lt | gt
    · exact Nat.ne_of_lt (unnumbered_lt here free lt)
    · exact Nat.ne_of_gt (unnumbered_lt there free' gt)
  by_cases free : given entry = "" <;> by_cases free' : given entry' = ""
  · simp [assigned, free, free', automatic_inj, apart free free', (automatic_ne_empty _).symm]
  · simpa [assigned, free, free'] using Eq.comm
  · simp [assigned, free, free']
  · simpa [assigned, free, free'] using Eq.comm

end Number

/-- The entries under `query` come before those under `queries`, each in its order. A number that is
given is kept, and the entries without one are numbered in order. -/
theorem collect_numbers {batch : Parameters} {out : List BatchQuery}
    (done : collect batch = .ok out) :
    out.length = (entries batch).length ∧
      (∀ i entry b, (entries batch)[i]? = some entry → out[i]? = some b →
        Describes entry b ∧ b.number ≠ "" ∧ (given entry ≠ "" → b.number = given entry) ∧
          (given entry = "" → b.number = automatic (unnumbered (entries batch) i))) ∧
      ∀ i j entry entry' b b', i ≠ j → (entries batch)[i]? = some entry →
        (entries batch)[j]? = some entry' → out[i]? = some b → out[j]? = some b' →
        (b.number = b'.number ↔
          given entry ≠ "" ∧ given entry' = given entry ∨
            given entry = "" ∧ given entry' = automatic (unnumbered (entries batch) i) ∨
            given entry' = "" ∧ given entry = automatic (unnumbered (entries batch) j)) := by
  obtain ⟨read, all, rfl⟩ := collect_eq_ok done
  have each {i entry b} (there : (entries batch)[i]? = some entry)
      (listed : (numberFrom 0 read)[i]? = some b) :
      Describes entry b ∧ b.number = assigned 0 (entries batch) i entry := by
    obtain ⟨b', listed', found⟩ := numberFrom_numbers 0 all there
    obtain rfl := Option.some.inj (listed'.symm.trans listed)
    exact found
  refine ⟨(length_numberFrom 0 read).trans all.length_eq.symm, fun i entry b there listed => ?_,
    fun i j entry entry' b b' other here there listed listed' => ?_⟩
  · obtain ⟨describes, number⟩ := each there listed
    refine ⟨describes, number ▸ assigned_ne_empty 0 entry, fun own => ?_, fun free => ?_⟩
    · rw [number, assigned, if_neg own]
    · rw [number, assigned, if_pos free, Nat.zero_add]
  · rw [(each here listed).2, (each there listed').2]
    exact assigned_eq_iff other here there

section Example

def bareTerm (term : String) : Json :=
  .object [("operator", .string "extents"), ("parameters", .object [("term", .string term)])]

def mixedBatch : Parameters where
  fields := [
    ("queries", .array [.object [("query", bareTerm "one"), ("requested", .int 3)],
      .object [("number", .string "q4"), ("query", bareTerm "two")]]),
    ("query", .array [bareTerm "red", .object [("number", .int 12), ("query", bareTerm "blue")]])]

theorem collect_numbers_mixed :
    ∃ out b b', collect mixedBatch = .ok out ∧ out.length = 4 ∧ out[1]? = some b ∧
      b.number = "12" ∧ out[2]? = some b' ∧ b'.number = "unk-1" ∧ b.number ≠ b'.number := by
  obtain ⟨out, done⟩ : ∃ out, collect mixedBatch = .ok out := ⟨_, rfl⟩
  obtain ⟨length, each, same_iff⟩ := collect_numbers done
  have four : out.length = 4 := length
  have second : out[1]? = some out[1] := List.getElem?_eq_getElem (by omega)
  have third : out[2]? = some out[2] := List.getElem?_eq_getElem (by omega)
  have own := (each 1 _ _ rfl second).2.2.1 (by decide)
  have free := (each 2 _ _ rfl third).2.2.2 (by decide)
  refine ⟨out, _, _, done, four, second, own, third, free, fun same => ?_⟩
  exact absurd ((same_iff 1 2 _ _ _ _ (by decide) rfl rfl second third).1 same) (by decide)

/-- A number that is given is like the one that the next entry gets. -/
def clashingBatch : Parameters := .single "queries" <| .array [
  .object [("number", .string "unk-0"), ("query", bareTerm "one")], bareTerm "two"]

theorem collect_numbers_clash :
    ∃ entry entry' b b', entries clashingBatch = [entry, entry'] ∧
      collect clashingBatch = .ok [b, b'] ∧ b.number = b'.number ∧ given entry = b.number ∧
      given entry' = "" ∧ given entry' ≠ b'.number :=
  ⟨_, _, _, _, rfl, rfl, rfl, rfl, rfl, by decide⟩

end Example

end RankedRetrieval.BatchQuery
