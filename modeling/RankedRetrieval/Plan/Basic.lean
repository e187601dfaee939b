import RankedRetrieval.Capability
import RankedRetrieval.Collection.Basic
import RankedRetrieval.Score.Model

set_option autoImplicit false

namespace RankedRetrieval

inductive Mode where
  | any
  | all
  deriving DecidableEq

inductive WindowOrder where
  | ordered
  | unordered
  deriving DecidableEq

inductive Method where
  | sum
  | greatest
  deriving DecidableEq

inductive Plan (α : Type) where
  | extents (postings : Array Posting)
  | counts (postings : Array Posting)
  | lengths (entries : Array (DocId × Nat))
  | prior (entries : Array (DocId × α)) (default : α)
  | window (order : WindowOrder) (width : Nat) (children : List (Plan α))
  | synonym (children : List (Plan α))
  /-- Synonyms of which some can only be counted. -/
  | synonymCounts (children : List (Plan α))
  | passageFilter (child : Plan α)
  | passageLength (child : Plan α)
  | dirichlet (lengths counts : Plan α) (model : Dirichlet α)
  | bm25 (lengths counts : Plan α) (model : Bm25 α)
  | combine (method : Method) (mode : Mode) (children : List (Plan α)) (weights : List α)
  | log (child : Plan α)
  | scale (weight : α) (child : Plan α)
  /-- The documents of `filter` with the scores of `scorer`. -/
  | require (filter scorer : Plan α)
  | boolean (mode : Mode) (children : List (Plan α))

namespace Plan

variable {α : Type}

def kind : Plan α → Capability
  | extents _ | window _ _ _ | synonym _ | passageFilter _ => .extent
  | counts _ | synonymCounts _ => .count
  | lengths _ | passageLength _ => .length
  | prior _ _ | dirichlet _ _ _ | bm25 _ _ _ | combine _ _ _ _ | log _ | scale _ _
  | require _ _ => .scored
  | boolean _ _ => .indicator

def capabilities (p : Plan α) : Capabilities := p.kind.offers

def windowName : WindowOrder → String
  | .ordered => "od"
  | .unordered => "uw"

def booleanName : Mode → String
  | .all => "band"
  | .any => "bor"

def name : Plan α → String
  | extents _ => "extents"
  | counts _ => "counts"
  | lengths _ => "lengths"
  | prior _ _ => "prior"
  | window order _ _ => windowName order
  | synonym _ | synonymCounts _ => "syn"
  | passageFilter _ => "passage-filter"
  | passageLength _ => "passage-length"
  | dirichlet _ _ _ => "dirichlet"
  | bm25 _ _ _ => "bm25"
  | combine _ _ _ _ => "combine"
  | log _ => "log"
  | scale _ _ => "scale"
  | require _ _ => "require"
  | boolean mode _ => booleanName mode

/-- The name of the part whose place is the place of the plan: a plan that follows one child has no
place of its own. -/
def moverName : Plan α → String
  | passageFilter child | passageLength child | log child | scale _ child => child.moverName
  | dirichlet _ counted _ | bm25 _ counted _ => counted.moverName
  | plan => plan.name

section Induction

variable {motive : Plan α → Prop}
  (extents : ∀ postings, motive (.extents postings))
  (counts : ∀ postings, motive (.counts postings))
  (lengths : ∀ entries, motive (.lengths entries))
  (prior : ∀ entries default, motive (.prior entries default))
  (window : ∀ order width children, (∀ child ∈ children, motive child) →
    motive (.window order width children))
  (synonym : ∀ children, (∀ child ∈ children, motive child) → motive (.synonym children))
  (synonymCounts : ∀ children, (∀ child ∈ children, motive child) →
    motive (.synonymCounts children))
  (passageFilter : ∀ child, motive child → motive (.passageFilter child))
  (passageLength : ∀ child, motive child → motive (.passageLength child))
  (dirichlet : ∀ side counted model, motive side → motive counted →
    motive (.dirichlet side counted model))
  (bm25 : ∀ side counted model, motive side → motive counted → motive (.bm25 side counted model))
  (combine : ∀ method mode children weights, (∀ child ∈ children, motive child) →
    motive (.combine method mode children weights))
  (log : ∀ child, motive child → motive (.log child))
  (scale : ∀ weight child, motive child → motive (.scale weight child))
  (require : ∀ filter scorer, motive filter → motive scorer → motive (.require filter scorer))
  (boolean : ∀ mode children, (∀ child ∈ children, motive child) →
    motive (.boolean mode children))

include extents counts lengths prior window synonym synonymCounts passageFilter passageLength
  dirichlet bm25 combine log scale require boolean

@[elab_as_elim, induction_eliminator]
theorem induct : (plan : Plan α) → motive plan
  | .extents postings => extents postings
  | .counts postings => counts postings
  | .lengths entries => lengths entries
  | .prior entries default => prior entries default
  | .window order width children => window order width children fun child _ => induct child
  | .synonym children => synonym children fun child _ => induct child
  | .synonymCounts children => synonymCounts children fun child _ => induct child
  | .passageFilter child => passageFilter child (induct child)
  | .passageLength child => passageLength child (induct child)
  | .dirichlet side counted model => dirichlet side counted model (induct side) (induct counted)
  | .bm25 side counted model => bm25 side counted model (induct side) (induct counted)
  | .combine method mode children weights =>
    combine method mode children weights fun child _ => induct child
  | .log child => log child (induct child)
  | .scale weight child => scale weight child (induct child)
  | .require filter scorer => require filter scorer (induct filter) (induct scorer)
  | .boolean mode children => boolean mode children fun child _ => induct child

end Induction

end Plan

/-- Where a plan stands: the document, the place in a leaf's list, the windows found there, the
order in which children are consulted, and where the children stand. -/
structure Position where
  document : DocId
  offset : Nat
  found : List Span
  order : List Nat
  parts : List Position

namespace Position

def exhausted : Position :=
  { document := terminated, offset := 0, found := [], order := [], parts := [] }

def part (p : Position) (i : Nat) : Position := p.parts.getD i exhausted

def ofParts (document : DocId) (parts : List Position) : Position :=
  { document, offset := 0, found := [], order := [], parts }

/-- Standing on a document; the end is none. -/
def matchesAt (p : Position) (d : DocId) : Bool := d ≠ terminated && p.document = d

end Position

end RankedRetrieval
