import SequenceQuery.Text.Ascii

namespace SequenceQuery

inductive DataType
  | bool | int | bigint | float | text | date | timestamp | json
  deriving DecidableEq

namespace DataType

def label : DataType → String
  | .bool => "boolean"
  | .int => "integer"
  | .bigint => "bigint"
  | .float => "double precision"
  | .text => "text"
  | .date => "date"
  | .timestamp => "timestamp"
  | .json => "jsonb"

def name : DataType → String
  | .bool => "bool"
  | .int => "int"
  | .bigint => "bigint"
  | .float => "float"
  | .text => "text"
  | .date => "date"
  | .timestamp => "timestamp"
  | .json => "json"

def everyType : List DataType := [.bool, .int, .bigint, .float, .text, .date, .timestamp, .json]

def ofName? (name : String) : Option DataType := everyType.find? fun t => t.name == name

end DataType

structure Property where
  name : String
  column : String
  dataType : DataType
  nullable : Bool
  primaryKey : Bool
  deriving DecidableEq

structure Entity where
  name : String
  table : String
  schema : Option String
  properties : List Property
  deriving DecidableEq

namespace Entity

/-- An exact name comes before one that differs in case. -/
def find? (e : Entity) (name : String) : Option Property :=
  Text.findNamed? Property.name name e.properties

def primaryKey (e : Entity) : List Property := e.properties.filter Property.primaryKey

end Entity

structure Catalog where
  entities : List Entity

namespace Catalog

def empty : Catalog := ⟨[]⟩

/-- An entity registered again replaces the one of its name. -/
def register (c : Catalog) (e : Entity) : Catalog :=
  ⟨e :: c.entities.filter fun other => other.name != e.name⟩

def ofList (entities : List Entity) : Catalog := entities.foldl register empty

def entity? (c : Catalog) (name : String) : Option Entity :=
  c.entities.find? fun e => e.name == name

def size (c : Catalog) : Nat := c.entities.length

def sortedNames (c : Catalog) : List String :=
  (c.entities.map Entity.name).mergeSort fun a b => decide (a ≤ b)

theorem entity?_mem {c : Catalog} {name : String} {e : Entity} (h : c.entity? name = some e) :
    e ∈ c.entities :=
  List.mem_of_find?_eq_some h

end Catalog

end SequenceQuery
