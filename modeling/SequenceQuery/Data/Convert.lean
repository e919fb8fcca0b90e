import SequenceQuery.Data.Cell

namespace SequenceQuery

inductive TypeName
  | bool | int16 | int32 | int64 | double | text | bytes | date | timestamp | timestamptz | json
  | cell | row | result
  | entity (name : String)
  | option (inner : TypeName)
  | list (inner : TypeName)
  deriving DecidableEq

structure CastError where
  expected : TypeName
  actual : String
  deriving DecidableEq

structure CellType (α : Type) where
  name : TypeName
  convert : Cell → Except CastError α

namespace CellType

def ofPartial {α : Type} (name : TypeName) (read? : Cell → Option α) : CellType α where
  name := name
  convert c :=
    match read? c with
    | some a => .ok a
    | none => .error ⟨name, c.kind⟩

/-- Null becomes none; what does not fit is reported for the inner type. -/
def option {α : Type} (t : CellType α) : CellType (Option α) where
  name := .option t.name
  convert
    | .null => .ok none
    | c => return some (← t.convert c)

def map {α β : Type} (t : CellType α) (f : α → β) : CellType β :=
  ⟨t.name, fun c => f <$> t.convert c⟩

def cell : CellType Cell := .ofPartial .cell some

def bool : CellType Bool := .ofPartial .bool fun
  | .bool b => some b
  | _ => none

def int16 : CellType Int := .ofPartial .int16 fun
  | .int16 n => some n.toInt
  | _ => none

def int32 : CellType Int := .ofPartial .int32 fun
  | .int16 n => some n.toInt
  | .int32 n => some n.toInt
  | _ => none

def int64 : CellType Int := .ofPartial .int64 fun
  | .int16 n => some n.toInt
  | .int32 n => some n.toInt
  | .int64 n => some n.toInt
  | _ => none

def double : CellType Double := .ofPartial .double fun
  | .float32 x => some (.ofSingle x)
  | .float64 x => some x
  | .int16 n => some (.ofInt n.toInt)
  | .int32 n => some (.ofInt n.toInt)
  | .int64 n => some (.ofInt n.toInt)
  | _ => none

def text : CellType String := .ofPartial .text fun
  | .text s => some s
  | _ => none

def bytes : CellType (List UInt8) := .ofPartial .bytes fun
  | .bytes bs => some bs
  | _ => none

def date : CellType Date := .ofPartial .date fun
  | .date d => some d
  | _ => none

def timestamp : CellType Timestamp := .ofPartial .timestamp fun
  | .timestamp t => some t
  | _ => none

/-- A timestamp without a zone is read as one at Greenwich. -/
def timestamptz : CellType Timestamp := .ofPartial .timestamptz fun
  | .timestamptz t => some t
  | .timestamp t => some t
  | _ => none

def json : CellType Json := .ofPartial .json fun
  | .json j => some j
  | _ => none

end CellType

structure RowType (α : Type) where
  name : TypeName
  read : Row → Except CastError α

namespace Row

def getAs {α : Type} (row : Row) (t : CellType α) (name : String) : Except CastError α :=
  match row.get? name with
  | some c => t.convert c
  | none => .error ⟨t.name, "missing column `" ++ name ++ "`"⟩

end Row

namespace RowType

def row : RowType Row := ⟨.row, .ok⟩

end RowType

namespace QueryResult

def asRows : QueryResult → Except CastError (List Row)
  | .rows rs => .ok rs
  | r => .error ⟨.list .row, r.kind⟩

def asEntity {α : Type} (t : RowType α) : QueryResult → Except CastError α
  | .row found => t.read found
  | r => .error ⟨t.name, r.kind⟩

def asEntityOrNone {α : Type} (t : RowType α) : QueryResult → Except CastError (Option α)
  | .null => .ok none
  | r => some <$> r.asEntity t

def asEntities {α : Type} (t : RowType α) : QueryResult → Except CastError (List α)
  | .rows rs => rs.mapM t.read
  | r => .error ⟨.list t.name, r.kind⟩

def singleCell (asked : TypeName) : QueryResult → Except CastError Cell
  | .scalar c => .ok c
  | .null => .ok .null
  | .row ⟨_, [c]⟩ => .ok c
  | r => .error ⟨asked, r.kind⟩

def asCellOf {α : Type} (t : CellType α) (r : QueryResult) : Except CastError α := do
  t.convert (← r.singleCell t.name)

end QueryResult

/-- What a mapper is told about the query whose rows it reads. -/
structure EntityContext where
  noTracking : Bool

/-- Reads rows as entities and then completes each of them. -/
structure EntityReader (α : Type) where
  type : RowType α
  complete : EntityContext → α → α

namespace EntityReader

def ofType {α : Type} (t : RowType α) : EntityReader α := ⟨t, fun _ a => a⟩

def read {α : Type} (m : EntityReader α) (context : EntityContext) (row : Row) :
    Except CastError α :=
  m.complete context <$> m.type.read row

end EntityReader

end SequenceQuery
