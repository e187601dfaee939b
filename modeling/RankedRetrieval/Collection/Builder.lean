import RankedRetrieval.Collection.Basic
import RankedRetrieval.Text.Blank
import RankedRetrieval.Text.Lowercase

set_option autoImplicit false

namespace RankedRetrieval

structure FieldDraft where
  lengths : Table DocId Nat
  terms : Table String (Table DocId (List Span))

def FieldDraft.empty : FieldDraft := { lengths := [], terms := [] }

namespace FieldDraft

def length (f : FieldDraft) (d : DocId) : Nat := (f.lengths.get? d).getD 0

def addToken (d : DocId) (f : FieldDraft) (token : String) : FieldDraft :=
  let position := f.length d
  { lengths := f.lengths.insert d (position + 1)
    terms := f.terms.alter token fun documents =>
      (documents.getD []).alter d fun spans => spans.getD [] ++ [.token position] }

/-- A document is listed even when it is given no token. -/
def addTokens (d : DocId) (f : FieldDraft) (tokens : List String) : FieldDraft :=
  tokens.foldl (addToken d) { f with lengths := f.lengths.insert d (f.length d) }

def finish (f : FieldDraft) : Field where
  lengths := f.lengths.toArray
  postings := f.terms.map fun entry =>
    (entry.1, (entry.2.map fun e => { document := e.1, spans := e.2 }).toArray)

end FieldDraft

structure PriorsDraft where
  entries : Table DocId Float
  default : Float

def PriorsDraft.empty : PriorsDraft := { entries := [], default := 0.0 }

structure CollectionDraft where
  names : Array String
  fields : Table String FieldDraft
  priors : Table String PriorsDraft

namespace CollectionDraft

def empty : CollectionDraft := { names := #[], fields := [], priors := [] }

/-- Register a document; its number is the count of those before it. -/
def addDocument (c : CollectionDraft) (name : String) : CollectionDraft :=
  { c with names := c.names.push name }

def addTokens (c : CollectionDraft) (d : DocId) (field : String) (tokens : List String) :
    CollectionDraft :=
  { c with fields := c.fields.alter field fun f => (f.getD .empty).addTokens d tokens }

def addText (c : CollectionDraft) (d : DocId) (field text : String) : CollectionDraft :=
  c.addTokens d field ((Text.words text).map Text.lowercase)

/-- The first score set for a document stands. -/
def setPrior (c : CollectionDraft) (name : String) (d : DocId) (value : Float) : CollectionDraft :=
  { c with priors := c.priors.alter name fun p =>
      let p := p.getD .empty
      { p with entries := p.entries.alter d fun old => old.getD value } }

/-- The last default set stands. -/
def setPriorDefault (c : CollectionDraft) (name : String) (value : Float) : CollectionDraft :=
  { c with priors := c.priors.alter name fun p => { p.getD .empty with default := value } }

def finish (c : CollectionDraft) : Collection where
  names := c.names
  fields := c.fields.map fun entry => (entry.1, entry.2.finish)
  priors := c.priors.map fun entry =>
    (entry.1, { entries := entry.2.entries.toArray, default := entry.2.default })

end CollectionDraft

inductive DraftStep where
  | document (name : String)
  | tokens (d : DocId) (field : String) (tokens : List String)
  | text (d : DocId) (field text : String)
  | prior (name : String) (d : DocId) (value : Float)
  | priorDefault (name : String) (value : Float)

def DraftStep.listed? : DraftStep → Option DocId
  | .tokens d _ _ | .text d _ _ | .prior _ d _ => some d
  | .document _ | .priorDefault _ _ => none

def CollectionDraft.apply (c : CollectionDraft) : DraftStep → CollectionDraft
  | .document name => c.addDocument name
  | .tokens d field tokens => c.addTokens d field tokens
  | .text d field text => c.addText d field text
  | .prior name d value => c.setPrior name d value
  | .priorDefault name value => c.setPriorDefault name value

def Collection.ofSteps (steps : List DraftStep) : Collection :=
  (steps.foldl CollectionDraft.apply .empty).finish

end RankedRetrieval
