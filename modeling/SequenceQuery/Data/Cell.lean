import SequenceQuery.Calendar.Basic
import SequenceQuery.Json.Basic
import SequenceQuery.Text.Ascii

namespace SequenceQuery

inductive Cell
  | null
  | bool (b : Bool)
  | int16 (n : Int16)
  | int32 (n : Int32)
  | int64 (n : Int64)
  | float32 (x : Single)
  | float64 (x : Double)
  | text (s : String)
  | bytes (bs : List UInt8)
  | date (d : Date)
  | time (t : TimeOfDay)
  | timestamp (t : Timestamp)
  /-- A moment, by the clock at Greenwich. -/
  | timestamptz (t : Timestamp)
  | json (j : Json)
  /-- A value of a type that is not read, which is named. -/
  | unknown (typeName : String)

namespace Cell

def isNull : Cell → Bool
  | .null => true
  | _ => false

def kind : Cell → String
  | .null => "null"
  | .bool _ => "bool"
  | .int16 _ => "int2"
  | .int32 _ => "int4"
  | .int64 _ => "int8"
  | .float32 _ => "float4"
  | .float64 _ => "float8"
  | .text _ => "text"
  | .bytes _ => "bytea"
  | .date _ => "date"
  | .time _ => "time"
  | .timestamp _ => "timestamp"
  | .timestamptz _ => "timestamptz"
  | .json _ => "json"
  | .unknown _ => "unknown"

def display : Cell → String
  | .null => "NULL"
  | .bool b => if b then "true" else "false"
  | .int16 n => toString n.toInt
  | .int32 n => toString n.toInt
  | .int64 n => toString n.toInt
  | .float32 x => x.text
  | .float64 x => x.text
  | .text s => s
  | .bytes bs => "[" ++ toString bs.length ++ " bytes]"
  | .date d => d.display
  | .time t => t.display
  | .timestamp t => t.display
  | .timestamptz t => t.displayUtc
  | .json j => j.compact
  | .unknown s => s

end Cell

structure Column where
  name : String
  typeName : String
  deriving DecidableEq

structure Row where
  columns : List Column
  values : List Cell

namespace Row

/-- The cell under a column name, exact or else up to ASCII case. -/
def get? (row : Row) (name : String) : Option Cell := do
  let (_, i) ← Text.findNamed? (fun c => c.1.name) name row.columns.zipIdx
  row.values[i]?

end Row

/-- The result of running a query, in the form that its last operator asks for. -/
inductive QueryResult
  | rows (rows : List Row)
  | row (row : Row)
  | scalar (cell : Cell)
  | null

namespace QueryResult

def kind : QueryResult → String
  | .rows rs => "sequence of " ++ toString rs.length ++ " rows"
  | .row _ => "row"
  | .scalar cell => cell.kind
  | .null => "null"

end QueryResult

end SequenceQuery
