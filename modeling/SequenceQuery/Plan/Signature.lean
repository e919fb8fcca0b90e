import SequenceQuery.Plan.Basic

namespace SequenceQuery

structure Signature where
  isAsync : Bool
  hasSegment : Bool
  deriving DecidableEq

namespace Signature

def ofTypes (types : List ArgumentKind) : Signature :=
  ⟨types.contains .cancellation, types.contains .segment⟩

end Signature

/-- The lists classified so far, each once. -/
structure SignatureTable where
  known : List (List ArgumentKind × Signature)

namespace SignatureTable

def empty : SignatureTable := ⟨[]⟩

def classify (c : SignatureTable) (types : List ArgumentKind) : Signature × SignatureTable :=
  match c.known.lookup types with
  | some s => (s, c)
  | none =>
    let s := Signature.ofTypes types
    (s, ⟨(types, s) :: c.known⟩)

def size (c : SignatureTable) : Nat := c.known.length

end SignatureTable

end SequenceQuery
