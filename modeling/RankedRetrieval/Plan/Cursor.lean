import RankedRetrieval.Failure
import RankedRetrieval.Plan.Score

set_option autoImplicit false

namespace RankedRetrieval

def Plan.answering {α : Type} (plan : Plan α) (question : Capability) (operator : String) :
    Except QueryError (Plan α) :=
  if plan.capabilities.has question then .ok plan
  else .error (.capabilityMismatch operator question plan.capabilities)

structure Cursor (α : Type) where
  plan : Plan α
  position : Position
  question : Capability

namespace Cursor

variable {α : Type}

def ofPlan (plan : Plan α) : Cursor α := { plan, position := plan.start, question := plan.kind }

def name (c : Cursor α) : String := c.plan.name

def capabilities (c : Cursor α) : Capabilities := c.plan.capabilities

def ask (c : Cursor α) (question : Capability) (operator : String) : Except QueryError (Cursor α) :=
  (c.plan.answering question operator).map fun _ => { c with question }

def document (c : Cursor α) : DocId := c.position.document

def isDone (c : Cursor α) : Bool := c.document = terminated

def matchesAt (c : Cursor α) (d : DocId) : Bool := c.position.matchesAt d

def cost (c : Cursor α) : Nat := c.plan.cost c.position

def moveTo (c : Cursor α) (target : DocId) : Except QueryError (Cursor α) :=
  if target < c.document then .error (.invalidMove c.plan.moverName c.document target)
  else .ok { c with position := c.plan.advance c.position target }

def extentsAt (c : Cursor α) (ctx : Context) : List Span := c.plan.extentsAt c.position ctx

def countAt (c : Cursor α) (ctx : Context) : Nat := c.plan.countAt c.position ctx

def lengthAt (c : Cursor α) (ctx : Context) : Nat := c.plan.lengthAt c.position ctx

def catchUp (c : Cursor α) (d : DocId) : Cursor α :=
  { c with position := Axis.catchUp c.plan.advance c.position d }

def score [Arithmetic α] (c : Cursor α) (ctx : Context) (delta : Option (Delta α)) :
    α × Cursor α × Option (Delta α) :=
  let scored := c.plan.score c.position ctx delta
  (scored.value, { c with position := scored.position }, scored.delta)

end Cursor

end RankedRetrieval
