import RankedRetrieval.Score.Arithmetic
import RankedRetrieval.Score.Statistics

set_option autoImplicit false

namespace RankedRetrieval

open Arithmetic

structure Dirichlet (α : Type) where
  mu : α
  term : TermStatistics
  field : FieldStatistics
  lengths : LengthBounds

namespace Dirichlet

variable {α : Type} [Arithmetic α]

/-- How likely the term is in the collection. Counts of windows may exceed the tokens, so the share
is at most one, and a term that does not occur keeps half an occurrence. -/
def background (m : Dirichlet α) : α :=
  let tokens : α := natural (max m.field.collectionLength 1)
  if 0 < m.term.collectionFrequency then
    smaller (natural m.term.collectionFrequency / tokens) 1.0
  else 0.5 / tokens

def likelihood (m : Dirichlet α) (count length : Nat) : α :=
  (natural count + m.mu * m.background) / (natural length + m.mu)

def score (m : Dirichlet α) (count length : Nat) : α := ln (m.likelihood count length)

def bounds (m : Dirichlet α) : Bounds α where
  lower := m.score 0 m.field.maxLength
  upper := m.score m.term.maxCount (m.lengths.best m.term.maxCount)

end Dirichlet

structure Bm25 (α : Type) where
  k1 : α
  b : α
  term : TermStatistics
  field : FieldStatistics
  lengths : LengthBounds

namespace Bm25

variable {α : Type} [Arithmetic α]

/-- What a document gains by containing the term; it is negative for very common ones. -/
def idf (m : Bm25 α) : α :=
  let documents : α := natural m.field.documentCount
  let containing : α := natural m.term.documentFrequency
  ln (1.0 + (documents - containing + 0.5) / (containing + 0.5))

def averageLength (m : Bm25 α) : α :=
  if 0 < m.field.documentCount then
    larger (natural m.field.collectionLength / natural m.field.documentCount)
      2.2250738585072014e-308
  else 1.0

def score (m : Bm25 α) (count length : Nat) : α :=
  if count = 0 then 0.0
  else
    let tf : α := natural count
    let norm := m.k1 * (1.0 - m.b + m.b * natural length / m.averageLength)
    m.idf * tf * (m.k1 + 1.0) / (tf + norm)

/-- Where the gain is negative, a document without the term is the best case. -/
def bounds (m : Bm25 α) : Bounds α where
  lower := 0.0
  upper := larger (m.score m.term.maxCount (m.lengths.best m.term.maxCount)) 0.0

end Bm25

end RankedRetrieval
