import SequenceQuery.Plan.Run
import SequenceQuery.Wire.Types

namespace SequenceQuery.Wire

structure ErrorResponse where
  code : String
  text : String
  position : Option Nat
  /-- A position in a command that the server itself ran, with that command. -/
  internal : Option (Nat × Option String)
  detail : Option String
  hint : Option String
  table : Option String
  column : Option String
  constraint : Option String

namespace ErrorResponse

/-- Whether the wire client understands the response: positions have 32 bits, and an internal one
that counts comes with its command. -/
def isReadable (r : ErrorResponse) : Bool :=
  let fits (n : Nat) : Bool := n < Nat.pow 2 32
  r.position.all fits &&
    r.internal.all fun i => fits i.1 && (r.position.isSome || i.2.isSome)

/-- The failure that is reported for a command. An internal position points into another command
and is left out. None if the code has no category. -/
def toError? (r : ErrorResponse) (command : String) : Option ExecutionError :=
  if !r.isReadable then some .client
  else
    (DatabaseError.of? r.code r.text).map fun e => .database
      { e with
        detail := r.detail
        hint := r.hint
        position := r.position
        table := r.table
        column := r.column
        constraint := r.constraint
        place := r.position.map (DatabaseError.placeOf command) }

end ErrorResponse

inductive Stage
  | prepare
  /-- After so many rows of the result. -/
  | execute (rows : Nat)

structure Server where
  parameterTypes : List ServerType
  columns : List (String × ServerType)
  rows : List (List (Option Bytes))
  failure : Option (Stage × ExecutionError)

/-- What the caller gets, and the parameters as they arrived at the server. -/
structure Exchanged (α : Type) where
  result : α
  bound : List (Option Bytes)

namespace Server

def columnList (s : Server) : List Column := s.columns.map fun c => ⟨c.1, c.2.label⟩

def rowOf (s : Server) (cells : List (Option Bytes)) : Row :=
  ⟨s.columnList, (s.columns.zip cells).map fun (c, bytes) => cellOf c.2 bytes⟩

/-- The rows that the server sends, ending in a failure if it has one. -/
def offers (s : Server) : List (Except ExecutionError Row) :=
  let rows := s.rows.map fun r => .ok (s.rowOf r)
  match s.failure with
  | some (.execute count, e) => rows.take count ++ [.error e]
  | _ => rows

/-- The parameters as they are sent, unless the wire client refuses one. -/
def sent : List Outgoing → Option (List (Option Bytes))
  | [] => some []
  | .refused :: _ => none
  | .sent bytes :: rest => do return bytes :: (← sent rest)

/-- Sends the command. Its text ends at a null character on the wire, so none may stand in it.
Parameters are checked once the statement is prepared, and nothing is bound if one does not fit. -/
def start (s : Server) (command : String) (values : List Value) :
    Exchanged (Except ExecutionError (List (Except ExecutionError Row))) :=
  if command.contains (Char.ofNat 0) then ⟨.error .client, []⟩
  else match s.failure with
  | some (.prepare, e) => ⟨.error e, []⟩
  | _ =>
    match parameters values s.parameterTypes with
    | .error e => ⟨.error e, []⟩
    | .ok outgoing =>
      match sent outgoing with
      | none => ⟨.error .client, []⟩
      | some bound => ⟨.ok s.offers, bound⟩

/-- All rows of a command, or its failure. -/
def query (s : Server) (command : String) (values : List Value) :
    Exchanged (Except ExecutionError (List Row)) :=
  let started := s.start command values
  ⟨started.result.bind fun offers => offers.mapM id, started.bound⟩

end Server

/-- Where a blocking call is made from. -/
inductive Host
  | multiThreaded
  | currentThread
  | noRuntime
  deriving DecidableEq

/-- A blocking call needs a second thread that the connection is driven on. -/
def Server.blockingQuery (s : Server) (host : Host) (command : String) (values : List Value) :
    Exchanged (Except ExecutionError (List Row)) :=
  match host with
  | .multiThreaded => s.query command values
  | .currentThread =>
    ⟨.error (.connection "blocking query requires a multi-threaded tokio runtime"), []⟩
  | .noRuntime => ⟨.error (.connection "blocking query requires a tokio runtime"), []⟩

end SequenceQuery.Wire
