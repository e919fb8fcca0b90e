import SequenceQuery.Json.Basic
import SequenceQuery.Toml.Basic

namespace SequenceQuery

namespace Toml

mutual

/-- A date or a time becomes its text. -/
def toJson : Toml → Json
  | .str s => .str s
  | .int n => .int n
  | .float x => .num (.float x)
  | .bool b => .bool b
  | .moment text => .str text
  | .arr items => .arr (itemsToJson items)
  | .table entries => .ofMembers (entriesToJson entries)

def itemsToJson : List Toml → List Json
  | [] => []
  | t :: rest => t.toJson :: itemsToJson rest

def entriesToJson : List (String × Toml) → List (String × Json)
  | [] => []
  | (key, t) :: rest => (key, t.toJson) :: entriesToJson rest

end

end Toml

namespace Json

mutual

def toToml : Json → Toml
  | .null => .table []
  | .bool b => .bool b
  | .num (.int n) => .int n
  | .num (.float x) => .float x
  | .str s => .str s
  | .arr items => .arr (itemsToToml items)
  | .obj members => .table (membersToToml members)

def itemsToToml : List Json → List Toml
  | [] => []
  | j :: rest => j.toToml :: itemsToToml rest

def membersToToml : List (String × Json) → List (String × Toml)
  | [] => []
  | (_, .null) :: rest => membersToToml rest
  | (key, j) :: rest => (key, j.toToml) :: membersToToml rest

end

end Json

end SequenceQuery
