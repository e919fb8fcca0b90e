import SequenceQuery.Expr.Basic

namespace SequenceQuery.Expr

def ownValues : Expr → List Value
  | .const _ v => [v]
  | .segment _ s => [s.startValue, s.lengthValue]
  | _ => []

def constants (e : Expr) : List Value := e.nodes.flatMap ownValues

def slotsFrom (next : Nat) : List Expr → List (NodeId × Nat)
  | [] => []
  | e :: rest =>
    match e.ownValues with
    | [] => slotsFrom next rest
    | values => (e.id, next) :: slotsFrom (next + values.length) rest

def slots (e : Expr) : List (NodeId × Nat) := slotsFrom 0 e.nodes

/-- The slot of a node. One that stands in several places has the slot of the last. -/
def slot? (e : Expr) (id : NodeId) : Option Nat :=
  (e.slots.reverse.find? fun entry => entry.1 == id).map Prod.snd

end SequenceQuery.Expr
