import SequenceQuery.Select.Basic
import SequenceQuery.Text.Ascii

namespace SequenceQuery

structure Capabilities where
  /-- Limits and offsets. -/
  paging : Bool
  /-- EXISTS as a selected value. -/
  existsProjection : Bool
  /-- Unknown functions are written as they are. -/
  passthroughFunctions : Bool
  deriving DecidableEq

inductive DialectError
  | unsupported (dialect construct : String)
  | missingConstant (slot : Nat)
  | missingSegment
  deriving DecidableEq

namespace DialectError

def kind : DialectError → String
  | .unsupported .. => "Unsupported"
  | .missingConstant _ => "MissingConstant"
  | .missingSegment => "MissingSegment"

def message : DialectError → String
  | .unsupported dialect construct => dialect ++ " cannot emit " ++ construct
  | .missingConstant slot => "no value for constant slot " ++ toString slot
  | .missingSegment => "query is paged but no segment was supplied"

end DialectError

/-- The values that one run supplies for the sources of a command. -/
structure Arguments where
  constants : List Value
  segment : Option Segment

namespace Arguments

def resolve (a : Arguments) : Source → Except DialectError Value
  | .slot i =>
    match a.constants[i]? with
    | some v => .ok v
    | none => .error (.missingConstant i)
  | .segmentStart =>
    match a.segment with
    | some s => .ok s.startValue
    | none => .error .missingSegment
  | .segmentLength =>
    match a.segment with
    | some s => .ok s.lengthValue
    | none => .error .missingSegment

end Arguments

structure RenderOptions where
  quoteIdentifiers : Bool
  traceEntityState : Bool
  deriving DecidableEq

structure BoundParameter where
  /-- The placeholder as it stands in the text. -/
  name : String
  source : Source
  value : Value
  deriving DecidableEq

/-- Command text with its parameters in placeholder order. -/
structure RenderedCommand where
  text : String
  parameters : List BoundParameter
  deriving DecidableEq

namespace RenderedCommand

def sources (c : RenderedCommand) : List Source := c.parameters.map BoundParameter.source

def values (c : RenderedCommand) : List Value := c.parameters.map BoundParameter.value

end RenderedCommand

structure Dialect where
  name : String
  capabilities : Capabilities
  /-- The database's name of a portable function, which is given in lower case. -/
  functionName : String → Option String
  render : RenderOptions → Arguments → Select → Except DialectError RenderedCommand

/-- Dialects by name, letter case aside. -/
structure DialectTable where
  entries : List (String × Dialect)

namespace DialectTable

def register (r : DialectTable) (name : String) (dialect : Dialect) : DialectTable :=
  let key := Text.lower name
  ⟨(key, dialect) :: r.entries.filter fun entry => entry.1 != key⟩

def resolve? (r : DialectTable) (name : String) : Option Dialect :=
  r.entries.lookup (Text.lower name)

def sortedNames (r : DialectTable) : List String :=
  (r.entries.map Prod.fst).mergeSort fun a b => decide (a ≤ b)

end DialectTable

end SequenceQuery
