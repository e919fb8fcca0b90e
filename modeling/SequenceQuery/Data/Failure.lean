import SequenceQuery.Data.Convert
import SequenceQuery.Form.Cause

namespace SequenceQuery

inductive ErrorCategory
  | syntaxError | semantic | execution | transaction | connection | unknown
  deriving DecidableEq

namespace ErrorCategory

def name : ErrorCategory → String
  | .syntaxError => "Syntax"
  | .semantic => "Semantic"
  | .execution => "Execution"
  | .transaction => "Transaction"
  | .connection => "Connection"
  | .unknown => "Unknown"

def label : ErrorCategory → String
  | .syntaxError => "Syntax Error"
  | .semantic => "Semantic Error"
  | .execution => "Execution Error"
  | .transaction => "Transaction Error"
  | .connection => "Connection Error"
  | .unknown => "Error"

/-- The class of a code, its first two bytes. None if they are not whole characters. -/
def codeClass? (code : String) : Option String :=
  match code.toList with
  | a :: b :: _ => if a.utf8Size = 1 ∧ b.utf8Size = 1 then some (String.ofList [a, b])
    else if a.utf8Size = 2 then some (String.ofList [a]) else none
  | [a] => if a.utf8Size = 2 then some (String.ofList [a]) else none
  | [] => none

/-- The category of a code. A code of less than two bytes has none of its own; one that cannot be
cut after two bytes has no category at all. -/
def ofCode? (code : String) : Option ErrorCategory :=
  if code.utf8ByteSize < 2 then some .unknown
  else
    (codeClass? code).map fun
      | "42" => if code == "42601" || code == "42000" then .syntaxError else .semantic
      | "22" | "23" | "53" | "54" | "55" | "57" => .execution
      | "25" | "40" => .transaction
      | "08" => .connection
      | _ => .unknown

end ErrorCategory

structure DatabaseError where
  category : ErrorCategory
  code : String
  text : String
  detail : Option String
  hint : Option String
  /-- Offset into the command, counted in bytes from one. -/
  position : Option Nat
  table : Option String
  column : Option String
  constraint : Option String
  /-- Line and column of the position, counted from one. -/
  place : Option (Nat × Nat)
  deriving DecidableEq

namespace DatabaseError

def of? (code text : String) : Option DatabaseError :=
  (ErrorCategory.ofCode? code).map fun category =>
    ⟨category, code, text, none, none, none, none, none, none, none⟩

def message (e : DatabaseError) : String := e.category.label ++ ": " ++ e.text

/-- The line and column reached after the characters that start before `offset`. -/
def placeAfter (offset : Nat) : (start line column : Nat) → List Char → Nat × Nat
  | _, line, column, [] => (line, column)
  | start, line, column, c :: rest =>
    if offset ≤ start then (line, column)
    else if c = '\n' then placeAfter offset (start + c.utf8Size) (line + 1) 1 rest
    else placeAfter offset (start + c.utf8Size) line (column + 1) rest

/-- Line and column of a byte position in a command. -/
def placeOf (command : String) (position : Nat) : Nat × Nat :=
  placeAfter (position - 1) 0 1 1 command.toList

end DatabaseError

inductive ExecutionError
  | database (e : DatabaseError)
  | connection (text : String)
  /-- A failure of the wire client itself. -/
  | client
  | command (text : String)
  | parameter (index : Nat) (value typeName : String)
  deriving DecidableEq

namespace ExecutionError

def kind : ExecutionError → String
  | .database _ => "Database"
  | .connection _ | .client => "Connection"
  | .command _ => "Command"
  | .parameter .. => "Parameter"

/-- The failure in words. What the wire client says about itself is not part of this library. -/
def message? : ExecutionError → Option String
  | .database e => some e.message
  | .connection text => some ("connection error: " ++ text)
  | .client => none
  | .command text => some ("command error: " ++ text)
  | .parameter index value typeName =>
    some ("cannot bind " ++ value ++ " as parameter $" ++ toString index ++ " of type " ++ typeName)

end ExecutionError

inductive QueryError
  /-- The query has no relational form. -/
  | form (e : FormError)
  | cast (e : CastError)
  | execution (e : ExecutionError)
  | cancelled
  | noElements
  | moreThanOneElement

namespace QueryError

/-- The error in words. A conversion that failed is told by its two types alone. -/
def message? : QueryError → Option String
  | .form e => some e.message
  | .cast _ => none
  | .execution e => e.message?
  | .cancelled => some "query execution was cancelled"
  | .noElements => some "sequence contains no elements"
  | .moreThanOneElement => some "sequence contains more than one element"

def isCancelled : QueryError → Bool
  | .cancelled => true
  | _ => false

def hasNoForm : QueryError → Bool
  | .form _ => true
  | _ => false

end QueryError

end SequenceQuery
