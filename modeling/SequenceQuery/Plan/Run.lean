import SequenceQuery.Data.Failure
import SequenceQuery.Plan.Basic

namespace SequenceQuery

structure Connection where
  failure : Option ExecutionError
  offers : List (Except ExecutionError Row)

namespace Connection

def fetchAll (c : Connection) : Except ExecutionError (List Row) :=
  match c.failure with
  | some e => .error e
  | none => c.offers.mapM id

end Connection

/-- When a request for cancellation arrives. -/
inductive Cancellation
  | never
  | beforeCall
  /-- While the rows are fetched, which is then complete or has to wait once more. -/
  | duringFetch (complete : Bool)
  /-- In a stream, once so many items have been received. -/
  | afterItems (count : Nat)
  deriving DecidableEq

namespace Cancellation

def firedAt (c : Cancellation) (received : Nat) : Bool :=
  match c with
  | .beforeCall => true
  | .afterItems n => n ≤ received
  | _ => false

/-- A request that keeps a fetch of all rows from completing. -/
def preventsFetch : Cancellation → Bool
  | .beforeCall | .duringFetch false | .afterItems 0 => true
  | _ => false

end Cancellation

structure PlanCall where
  constants : List Value
  segment : Option Segment
  cancellation : Option Cancellation

namespace PlanCall

def callForm (i : PlanCall) : CallForm := .select i.cancellation.isSome i.segment.isSome

def arguments (i : PlanCall) : Arguments := ⟨i.constants, i.segment⟩

def cancels (i : PlanCall) : Cancellation := i.cancellation.getD .never

end PlanCall

structure Ran (α : Type) where
  result : α
  sent : List Command

/-- The rows of a stream with how many of them were taken from the connection. -/
structure Streamed (α : Type) where
  items : List (Except QueryError α)
  fetched : Nat

def ResultShape.resultOf (shape : ResultShape) (rows : List Row) : Except QueryError QueryResult :=
  match shape with
  | .sequence => .ok (.rows rows)
  | .single nullable unique =>
    match rows with
    | [] => if nullable then .ok .null else .error .noElements
    | [row] => .ok (.row row)
    | row :: _ :: _ => if unique then .error .moreThanOneElement else .ok (.row row)
  | .scalar nullable =>
    let cell := match rows with
      | ⟨_, c :: _⟩ :: _ => c
      | _ => .null
    if !cell.isNull then .ok (.scalar cell)
    else if nullable then .ok .null
    else .error .noElements

/-- Takes rows until the connection fails or runs out, or cancellation is asked for. -/
def takeRows (cancellation : Cancellation) (received : Nat) :
    List (Except ExecutionError Row) → Streamed Row
  | [] =>
    if cancellation.firedAt received then ⟨[.error .cancelled], 0⟩ else ⟨[], 0⟩
  | offer :: rest =>
    if cancellation.firedAt received then ⟨[.error .cancelled], 0⟩
    else match offer with
      | .error e => ⟨[.error (.execution e)], 1⟩
      | .ok row =>
        let s := takeRows cancellation (received + 1) rest
        ⟨.ok row :: s.items, s.fetched + 1⟩

namespace Plan

/-- The command of a call, which has to bring the arguments that the plan takes. -/
def prepare (plan : Plan) (i : PlanCall) : Except QueryError Command :=
  if i.callForm = plan.callForm then
    match plan.command.bind i.arguments with
    | .ok command => .ok command
    | .error e => .error (.execution (.command e.message))
  else
    .error (.execution (.command ("plan expects a " ++ plan.callForm.name ++ " invocation, got " ++
      i.callForm.name)))

def fetch (plan : Plan) (connection : Connection) (command : Command) :
    Ran (Except QueryError QueryResult) :=
  match connection.fetchAll with
  | .ok rows => ⟨plan.shape.resultOf rows, [command]⟩
  | .error e => ⟨.error (.execution e), [command]⟩

def run (plan : Plan) (i : PlanCall) (connection : Connection) :
    Ran (Except QueryError QueryResult) :=
  match plan.prepare i with
  | .error e => ⟨.error e, []⟩
  | .ok command =>
    if i.cancels.firedAt 0 then ⟨.error .cancelled, []⟩ else plan.fetch connection command

/-- A request for cancellation wins over a fetch that still has to wait. -/
def runAsync (plan : Plan) (i : PlanCall) (connection : Connection) :
    Ran (Except QueryError QueryResult) :=
  match plan.prepare i with
  | .error e => ⟨.error e, []⟩
  | .ok command =>
    if i.cancels.preventsFetch then ⟨.error .cancelled, []⟩ else plan.fetch connection command

/-- The rows one by one. After a failure or a cancellation nothing more is fetched. -/
def stream (plan : Plan) (i : PlanCall) (connection : Connection) : Ran (Streamed Row) :=
  match plan.prepare i with
  | .error e => ⟨⟨[.error e], 0⟩, []⟩
  | .ok command =>
    if i.cancels.firedAt 0 then ⟨⟨[.error .cancelled], 0⟩, []⟩
    else match connection.failure with
      | some e => ⟨⟨[.error (.execution e)], 0⟩, [command]⟩
      | none => ⟨takeRows i.cancels 0 connection.offers, [command]⟩

end Plan

end SequenceQuery
