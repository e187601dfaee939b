import Mathlib.Data.List.Destutter
import RankedRetrieval.Proofs.Collection.Contents

set_option autoImplicit false

namespace RankedRetrieval

namespace Table

section Keyed

variable {β : Type} {t t' : Table DocId β}

theorem mem_iff_get? (keyed : t.Keyed) {d : DocId} {value : β} :
    (d, value) ∈ t ↔ t.get? d = some value := by
  refine ⟨fun member => ?_, mem_of_get?⟩
  induction t with
  | nil => cases member
  | cons entry rest ih =>
    obtain ⟨least, tail⟩ := List.pairwise_cons.1 keyed
    rcases List.mem_cons.1 member with rfl | later
    · exact if_pos rfl
    · rw [get?, if_neg (UInt32.ne_of_lt (least _ later))]
      exact ih tail later

theorem eq_of_get? (keyed : t.Keyed) (keyed' : t'.Keyed) (same : ∀ d, t.get? d = t'.get? d) :
    t = t' := by
  have irreflexive : Std.Irrefl fun x y : DocId × β => x.1 < y.1 := ⟨fun x => UInt32.lt_irrefl x.1⟩
  have antisymmetric : Std.Antisymm fun x y : DocId × β => x.1 < y.1 :=
    ⟨fun _ _ lt gt => absurd gt (UInt32.lt_asymm lt)⟩
  refine List.Pairwise.eq_of_mem_iff keyed keyed' fun entry => ?_
  rw [mem_iff_get? keyed, mem_iff_get? keyed', same]

end Keyed

section Settling

variable {β : Type}

def byDocument (settings : List (DocId × β)) : List (DocId × β) :=
  settings.mergeSort fun s t => s.1 ≤ t.1

def firsts (settings : List (DocId × β)) : List (DocId × β) :=
  settings.destutter fun s t => s.1 ≠ t.1

theorem byDocument_trans (r s t : DocId × β) (h : decide (r.1 ≤ s.1) = true)
    (h' : decide (s.1 ≤ t.1) = true) : decide (r.1 ≤ t.1) = true := by
  rw [decide_eq_true_eq] at *
  exact UInt32.le_trans h h'

theorem byDocument_total (s t : DocId × β) :
    (decide (s.1 ≤ t.1) || decide (t.1 ≤ s.1)) = true := by
  rw [Bool.or_eq_true, decide_eq_true_eq, decide_eq_true_eq]
  exact UInt32.le_total s.1 t.1

theorem byDocument_pairwise (settings : List (DocId × β)) :
    (byDocument settings).Pairwise fun s t => s.1 ≤ t.1 := by
  have sorted := List.pairwise_mergeSort byDocument_trans byDocument_total settings
  exact sorted.imp fun le => of_decide_eq_true le

/-- Sorting moves no setting of a document past another one. -/
theorem filter_byDocument (settings : List (DocId × β)) (d : DocId) :
    ((byDocument settings).filter fun s => s.1 = d) = settings.filter fun s => s.1 = d := by
  have alike : (settings.filter fun s => s.1 = d).Pairwise fun s t => decide (s.1 ≤ t.1) := by
    refine List.pairwise_filter.2 (List.pairwise_of_forall fun s t here there => ?_)
    rw [decide_eq_true_eq] at *
    rw [here, there]
    exact UInt32.le_refl d
  have kept : (settings.filter fun s => s.1 = d).Sublist (byDocument settings) :=
    List.sublist_mergeSort byDocument_trans byDocument_total alike List.filter_sublist
  have inside := kept.filter fun s => s.1 = d
  rw [List.filter_filter] at inside
  simp only [Bool.and_self] at inside
  have length := ((List.mergeSort_perm settings fun s t => s.1 ≤ t.1).filter fun s => s.1 = d)
  exact (inside.eq_of_length length.length_eq.symm).symm

theorem get?_eq_head? (settings : List (DocId × β)) (d : DocId) :
    get? d settings = ((settings.filter fun s => s.1 = d).map Prod.snd).head? := by
  have found := find?_eq settings d
  rw [List.head?_map, List.head?_filter, found, Option.map_map]
  exact Option.map_id'.symm

theorem get?_byDocument (settings : List (DocId × β)) (d : DocId) :
    get? d (byDocument settings) = get? d settings := by
  rw [get?_eq_head?, get?_eq_head?, filter_byDocument]

theorem get?_destutter' (s : DocId × β) (settings : List (DocId × β)) (d : DocId) :
    get? d (settings.destutter' (fun s t => s.1 ≠ t.1) s) = get? d (s :: settings) := by
  induction settings generalizing s with
  | nil => rfl
  | cons t rest ih =>
    by_cases same : s.1 = t.1
    · rw [List.destutter'_cons_neg _ (not_not_intro same), ih, get?, get?, get?, ← same]
      split <;> rfl
    · rw [List.destutter'_cons_pos _ same, get?, ih]
      rfl

theorem get?_firsts (settings : List (DocId × β)) (d : DocId) :
    get? d (firsts settings) = get? d settings := by
  cases settings with
  | nil => rfl
  | cons s rest => exact get?_destutter' s rest d

theorem keyed_firsts {settings : List (DocId × β)}
    (sorted : settings.Pairwise fun s t => s.1 ≤ t.1) : Keyed (firsts settings) := by
  have le := (sorted.sublist (List.destutter_sublist (fun s t => s.1 ≠ t.1) settings)).isChain
  have apart := List.isChain_destutter (fun s t : DocId × β => s.1 ≠ t.1) settings
  have transitive : IsTrans (DocId × β) fun s t => s.1 < t.1 := ⟨fun _ _ _ => UInt32.lt_trans⟩
  refine List.isChain_iff_pairwise.1 (List.isChain_iff_getElem.2 fun i hi => ?_)
  exact UInt32.lt_of_le_of_ne (List.isChain_iff_getElem.1 le i hi)
    (List.isChain_iff_getElem.1 apart i hi)

end Settling

end Table

def DraftStep.setting? (name : String) : DraftStep → Option (DocId × Float)
  | .prior other d value => if other = name then some (d, value) else none
  | _ => none

def DraftStep.default? (name : String) : DraftStep → Option Float
  | .priorDefault other value => if other = name then some value else none
  | _ => none

def priorSettings (steps : List DraftStep) (name : String) : List (DocId × Float) :=
  steps.filterMap (DraftStep.setting? name)

def priorDefaults (steps : List DraftStep) (name : String) : List Float :=
  steps.filterMap (DraftStep.default? name)

def valuesSet (steps : List DraftStep) (name : String) (d : DocId) : List Float :=
  ((priorSettings steps name).filter fun s => s.1 = d).map Prod.snd

def lastDefault (steps : List DraftStep) (name : String) : Float :=
  (priorDefaults steps name).getLast?.getD 0.0

structure PriorsDraft.Holds (p : PriorsDraft) (settings : List (DocId × Float))
    (defaults : List Float) : Prop where
  keyed : p.entries.Keyed
  first : ∀ d, p.entries.get? d = Table.get? d settings
  default : p.default = defaults.getLast?.getD 0.0

namespace PriorsDraft

variable {p : PriorsDraft} {settings : List (DocId × Float)} {defaults : List Float}

theorem holds_empty : PriorsDraft.empty.Holds [] [] where
  keyed := List.Pairwise.nil
  first _ := rfl
  default := rfl

theorem holds_set (h : p.Holds settings defaults) (d : DocId) (value : Float) :
    Holds { p with entries := p.entries.alter d fun old => old.getD value }
      (settings ++ [(d, value)]) defaults where
  keyed := Table.keyed_alter h.keyed _ _
  first e := by
    rw [Table.get?_alter h.keyed, h.first, h.first, Table.get?_eq_head?, Table.get?_eq_head?,
      Table.get?_eq_head?, List.filter_append, List.map_append, List.head?_append]
    by_cases same : d = e
    · subst same
      rw [if_pos rfl]
      cases ((settings.filter fun s => s.1 = d).map Prod.snd).head? <;> simp
    · rw [if_neg same]
      simp [same]
  default := h.default

theorem holds_setDefault (h : p.Holds settings defaults) (value : Float) :
    Holds { p with default := value } settings (defaults ++ [value]) where
  keyed := h.keyed
  first := h.first
  default := by rw [List.getLast?_concat, Option.getD_some]

end PriorsDraft

namespace CollectionDraft

structure HoldsPriors (c : CollectionDraft) (steps : List DraftStep) : Prop where
  keyed : c.priors.Keyed
  tables : ∀ name, ((c.priors.get? name).getD .empty).Holds (priorSettings steps name)
    (priorDefaults steps name)

variable {c : CollectionDraft} {done : List DraftStep}

theorem priorSettings_concat (done : List DraftStep) (step : DraftStep) (name : String) :
    priorSettings (done ++ [step]) name =
      priorSettings done name ++ (step.setting? name).toList := by
  rw [priorSettings, List.filterMap_append]
  cases h : step.setting? name <;> simp [priorSettings, h]

theorem priorDefaults_concat (done : List DraftStep) (step : DraftStep) (name : String) :
    priorDefaults (done ++ [step]) name =
      priorDefaults done name ++ (step.default? name).toList := by
  rw [priorDefaults, List.filterMap_append]
  cases h : step.default? name <;> simp [priorDefaults, h]

theorem HoldsPriors.alter (h : c.HoldsPriors done) (step : DraftStep) (name : String)
    (f : Option PriorsDraft → PriorsDraft)
    (there : (f (c.priors.get? name)).Holds (priorSettings done name ++ (step.setting? name).toList)
      (priorDefaults done name ++ (step.default? name).toList))
    (elsewhere : ∀ other, name ≠ other → step.setting? other = none ∧ step.default? other = none) :
    HoldsPriors { c with priors := c.priors.alter name f } (done ++ [step]) where
  keyed := Table.keyed_alter h.keyed name f
  tables other := by
    rw [Table.get?_alter h.keyed, priorSettings_concat, priorDefaults_concat]
    by_cases same : name = other
    · subst same
      rw [if_pos rfl, Option.getD_some]
      exact there
    · obtain ⟨nothing, nothing'⟩ := elsewhere other same
      rw [if_neg same, nothing, nothing', Option.toList_none, Option.toList_none, List.append_nil,
        List.append_nil]
      exact h.tables other

theorem holdsPriors_apply (h : c.HoldsPriors done) (step : DraftStep) :
    (c.apply step).HoldsPriors (done ++ [step]) := by
  cases step with
  | document name | tokens d field words | text d field text =>
    refine ⟨h.keyed, fun name => ?_⟩
    rw [priorSettings_concat, priorDefaults_concat]
    change (((c.priors.get? name).getD .empty).Holds (priorSettings done name ++ [])
      (priorDefaults done name ++ []))
    rw [List.append_nil, List.append_nil]
    exact h.tables name
  | prior name d value =>
    refine h.alter _ name _ ?_ fun other apart => ⟨if_neg apart, rfl⟩
    have set := PriorsDraft.holds_set (h.tables name) d value
    simpa [DraftStep.setting?, DraftStep.default?] using set
  | priorDefault name value =>
    refine h.alter _ name _ ?_ fun other apart => ⟨rfl, if_neg apart⟩
    have set := PriorsDraft.holds_setDefault (h.tables name) value
    simpa [DraftStep.setting?, DraftStep.default?] using set

theorem holdsPriors_foldl (h : c.HoldsPriors done) (steps : List DraftStep) :
    (steps.foldl apply c).HoldsPriors (done ++ steps) := by
  induction steps generalizing c done with
  | nil =>
    rw [List.append_nil]
    exact h
  | cons step rest ih =>
    have later := ih (holdsPriors_apply h step)
    rw [List.append_assoc] at later
    exact later

def priorsAfter (steps : List DraftStep) (name : String) : PriorsDraft :=
  ((steps.foldl apply .empty).priors.get? name).getD .empty

theorem holds_priorsAfter (steps : List DraftStep) (name : String) :
    (priorsAfter steps name).Holds (priorSettings steps name) (priorDefaults steps name) := by
  have none : CollectionDraft.empty.HoldsPriors [] :=
    { keyed := List.Pairwise.nil, tables := fun _ => PriorsDraft.holds_empty }
  exact (holdsPriors_foldl none steps).tables name

end CollectionDraft

namespace Collection

open CollectionDraft

theorem prior_ofSteps (steps : List DraftStep) (name : String) :
    (ofSteps steps).prior name =
      { entries := (priorsAfter steps name).entries.toArray
        default := (priorsAfter steps name).default } := by
  have listed := Table.get?_map (fun p : PriorsDraft =>
    ({ entries := p.entries.toArray, default := p.default } : Priors)) name
    (steps.foldl CollectionDraft.apply .empty).priors
  rw [prior, ofSteps, finish, listed, priorsAfter]
  cases (steps.foldl CollectionDraft.apply .empty).priors.get? name <;> rfl

/-- A table gives a document the first value that it was set to. -/
theorem find?_prior (steps : List DraftStep) (name : String) (d : DocId) :
    (((ofSteps steps).prior name).entries.find? fun entry => entry.1 = d) =
      (valuesSet steps name d).head?.map fun value => (d, value) := by
  rw [prior_ofSteps, List.find?_toArray, Table.find?_eq, (holds_priorsAfter steps name).first,
    Table.get?_eq_head?]
  rfl

theorem default_prior (steps : List DraftStep) (name : String) :
    ((ofSteps steps).prior name).default = lastDefault steps name := by
  rw [prior_ofSteps]
  exact (holds_priorsAfter steps name).default

/-- The entries of a table are the first settings of documents, by document. -/
theorem entries_prior (steps : List DraftStep) (name : String) :
    ((ofSteps steps).prior name).entries.toList =
      Table.firsts (Table.byDocument (priorSettings steps name)) := by
  have holds := holds_priorsAfter steps name
  rw [prior_ofSteps]
  refine Table.eq_of_get? holds.keyed (Table.keyed_firsts (Table.byDocument_pairwise _)) ?_
  intro d
  rw [holds.first, Table.get?_firsts, Table.get?_byDocument]

end Collection

end RankedRetrieval
