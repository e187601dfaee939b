import RankedRetrieval.Proofs.Plan.Built

set_option autoImplicit false

namespace RankedRetrieval

namespace Vocabulary

inductive Knows (v : Vocabulary) : Query → Prop
  | node {operator : String} {parameters : Parameters} {children : List Query}
      (rule : v.knows operator = true) (below : ∀ child ∈ children, Knows v child) :
      Knows v (.node operator parameters children)

/-- What a query means. One without a meaning is given one in which nothing can be asked. -/
def meaning (v : Vocabulary) (q : Query) : Meaning :=
  (v.resolve q).toOption.getD { capabilities := .ofList [], form := .custom "" }

def asked (v : Vocabulary) (q : Query) : Capabilities := (v.meaning q).capabilities

variable {v : Vocabulary} {operator : String} {parameters : Parameters} {children : List Query}
  {q : Query}

theorem Knows.child (known : v.Knows q) : ∀ child ∈ q.children, v.Knows child := by
  cases known with
  | node _ below => exact below

theorem Knows.leaf (rule : v.knows operator = true) : v.Knows (.node operator parameters []) :=
  .node rule (List.forall_mem_nil _)

theorem Knows.single (rule : v.knows operator = true) (known : v.Knows q) :
    v.Knows (.node operator parameters [q]) :=
  .node rule (List.forall_mem_singleton.2 known)

theorem meaning_of_resolve {m : Meaning} (h : v.resolve q = .ok m) : v.meaning q = m := by
  rw [meaning, h]
  rfl

def share (v : Vocabulary) (mask : Capabilities) (qs : List Query) : Capabilities :=
  qs.foldl (fun shared q => shared.inter (v.asked q)) mask

theorem has_share (v : Vocabulary) (mask : Capabilities) (qs : List Query) (c : Capability) :
    (v.share mask qs).has c = (mask.has c && qs.all fun q => (v.asked q).has c) := by
  induction qs generalizing mask with
  | nil => simp [share]
  | cons q rest ih =>
    have next := ih (mask.inter (v.asked q))
    rw [share, List.foldl_cons, ← share, next, Capabilities.has_inter, List.all_cons,
      Bool.and_assoc]

theorem share_congr (mask : Capabilities) {qs qs' : List Query}
    (same : qs.map v.asked = qs'.map v.asked) : v.share mask qs = v.share mask qs' := by
  have folded (qs : List Query) :
      v.share mask qs = (qs.map v.asked).foldl Capabilities.inter mask := by
    rw [List.foldl_map]
    rfl
  rw [folded, folded, same]

theorem resolveShared_eq (mask : Capabilities) {qs : List Query}
    (resolved : ∀ q ∈ qs, v.resolve q = .ok (v.meaning q)) :
    v.resolveShared mask qs = .ok (v.share mask qs) := by
  induction qs generalizing mask with
  | nil => rfl
  | cons q rest ih =>
    obtain ⟨here, others⟩ := List.forall_mem_cons.1 resolved
    rw [resolveShared, here]
    exact ih _ others

theorem resolve_eq_meaning (known : v.Knows q) : v.resolve q = .ok (v.meaning q) := by
  induction q with
  | node operator parameters children ih =>
    cases known with
    | node rule below =>
      have resolved : ∃ m, v.resolve (.node operator parameters children) = .ok m := by
        rw [resolve]
        rw [knows] at rule
        obtain ⟨rule, found⟩ := Option.isSome_iff_exists.1 rule
        rw [found]
        cases rule with
        | fixed capabilities form => exact ⟨_, rfl⟩
        | shared mask form =>
          dsimp only
          rw [resolveShared_eq mask fun child member => ih child member (below child member)]
          exact ⟨_, rfl⟩
      obtain ⟨m, resolved⟩ := resolved
      rw [resolved, meaning_of_resolve resolved]

theorem meaning_fixed {capabilities : Capabilities} {form : Form}
    (rule : v.rule? operator = some (.fixed capabilities form)) :
    v.meaning (.node operator parameters children) = { capabilities, form } := by
  refine meaning_of_resolve ?_
  rw [resolve, rule]

theorem meaning_shared {mask : Capabilities} {form : Form}
    (rule : v.rule? operator = some (.shared mask form))
    (known : ∀ child ∈ children, v.Knows child) :
    v.meaning (.node operator parameters children) =
      { capabilities := v.share mask children, form } := by
  refine meaning_of_resolve ?_
  rw [resolve, rule]
  dsimp only
  rw [resolveShared_eq mask fun child member => resolve_eq_meaning (known child member)]
  rfl

theorem meaning_congr {children' : List Query} (rule : v.knows operator = true)
    (known : ∀ child ∈ children, v.Knows child) (known' : ∀ child ∈ children', v.Knows child)
    (same : ∀ mask form, v.rule? operator = some (.shared mask form) →
      children'.map v.asked = children.map v.asked) :
    v.meaning (.node operator parameters children') =
      v.meaning (.node operator parameters children) := by
  rw [knows] at rule
  obtain ⟨rule, found⟩ := Option.isSome_iff_exists.1 rule
  cases rule with
  | fixed capabilities form => rw [meaning_fixed found, meaning_fixed found]
  | shared mask form =>
    rw [meaning_shared found known, meaning_shared found known', share_congr mask (same _ _ found)]

section BuiltIn

/-- Whether all that can be asked goes with one question, or is what can be asked of all children
that have occurrences. -/
def isSingle : Rule → Bool
  | .fixed capabilities _ => Capability.all.any fun c => capabilities == c.offers
  | .shared mask form => mask == Capability.extent.offers && form == .synonym

/-- What all rules pass holds of the rule of each operator. -/
theorem of_rule? {test : Rule → Bool} (every : (builtIn.rules.all fun entry => test entry.2) = true)
    {rule : Rule} (found : builtIn.rule? operator = some rule) : test rule = true := by
  obtain ⟨before, after, listed, _⟩ := List.lookup_eq_some_iff.1 found
  exact List.all_eq_true.1 every (operator, rule) (listed ▸ by simp)

theorem isSingle_of_rule? {rule : Rule} (found : builtIn.rule? operator = some rule) :
    isSingle rule = true :=
  of_rule? (by decide) found

theorem synonym_of_shared {mask : Capabilities} {form : Form}
    (rule : builtIn.rule? operator = some (.shared mask form)) :
    mask = Capability.extent.offers ∧ form = .synonym := by
  have single := isSingle_of_rule? rule
  rw [isSingle, Bool.and_eq_true, beq_iff_eq, beq_iff_eq] at single
  exact single

theorem offers_of_fixed {capabilities : Capabilities} {form : Form}
    (rule : builtIn.rule? operator = some (.fixed capabilities form)) :
    ∃ c : Capability, capabilities = c.offers := by
  have single := isSingle_of_rule? rule
  rw [isSingle, List.any_eq_true] at single
  obtain ⟨c, _, same⟩ := single
  exact ⟨c, eq_of_beq same⟩

/-- What can be asked of a query with occurrences, and what of one with lengths. -/
theorem asked_builtIn (known : builtIn.Knows q) :
    (builtIn.asked q).has .indicator = true ∧
      ((builtIn.asked q).has .extent = true → builtIn.asked q = Capability.extent.offers) ∧
      ((builtIn.asked q).has .length = true → builtIn.asked q = Capability.length.offers) := by
  induction q with
  | node operator parameters children ih =>
    cases known with
    | node rule below =>
      rw [knows] at rule
      obtain ⟨rule, found⟩ := Option.isSome_iff_exists.1 rule
      cases rule with
      | fixed capabilities form =>
        obtain ⟨c, rfl⟩ := offers_of_fixed found
        rw [asked, meaning_fixed found]
        dsimp only
        cases c <;> decide
      | shared mask form =>
        obtain ⟨rfl, rfl⟩ := synonym_of_shared found
        rw [asked, meaning_shared found below]
        have indicates : children.all (fun child => (builtIn.asked child).has .indicator) = true :=
          List.all_eq_true.2 fun child member => (ih child member (below child member)).1
        refine ⟨?_, fun extent => ?_, fun length => ?_⟩
        · rw [has_share, indicates]
          rfl
        · rw [has_share, Bool.and_eq_true, List.all_eq_true] at extent
          ext c
          rw [has_share]
          cases shared : (Capability.extent.offers).has c with
          | false => rfl
          | true =>
            rw [Bool.true_and]
            refine List.all_eq_true.2 fun child member => ?_
            rw [(ih child member (below child member)).2.1 (extent.2 child member), shared]
        · rw [has_share] at length
          exact absurd (Bool.and_eq_true _ _ ▸ length).1 (by decide)

end BuiltIn

end Vocabulary

end RankedRetrieval
