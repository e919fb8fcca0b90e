import SequenceQuery.Expr.Basic

namespace SequenceQuery

abbrev Supply := StateM NodeId

def freshId : Supply NodeId := modifyGet fun next => (next, next + 1)

/-- One operator put on top of a sequence. -/
inductive Step
  | plain (op : Operator)
  | withArgument (op : Operator) (argument : Expr)
  /-- An operator with a lambda of one parameter. -/
  | withLambda (op : Operator) (param : String) (body : Expr)
  | withCount (op : Operator) (count : Int64)
  | segment (segment : Segment)
  | join (op : Operator) (inner : Expr) (outerKey innerKey : String × Expr)
      (result : String × String × Expr)

namespace Expr.Build

def entity (name : String) : Supply Expr := return .entity (← freshId) name
def param (name : String) : Supply Expr := return .param (← freshId) name
def const (value : Value) : Supply Expr := return .const (← freshId) value
def segment (segment : Segment) : Supply Expr := return .segment (← freshId) segment
def member (target : Expr) (name : String) : Supply Expr := return .member (← freshId) target name
def call (op : Operator) (args : List Expr) : Supply Expr := return .call (← freshId) op args

def lambda (params : List String) (body : Expr) : Supply Expr :=
  return .lambda (← freshId) params body

def binary (op : BinaryOp) (left right : Expr) : Supply Expr :=
  return .binary (← freshId) op left right

def unary (op : UnaryOp) (operand : Expr) : Supply Expr := return .unary (← freshId) op operand

def function (name : String) (args : List Expr) : Supply Expr :=
  return .function (← freshId) name args

def object (fields : List (String × Expr)) : Supply Expr := return .object (← freshId) fields

def conditional (test ifTrue ifFalse : Expr) : Supply Expr :=
  return .conditional (← freshId) test ifTrue ifFalse

/-- A parameter and the members read from it one after another. -/
def path (name : String) (members : List String) : Supply Expr := do
  members.foldlM member (← param name)

def step (source : Expr) : Step → Supply Expr
  | .plain op => call op [source]
  | .withArgument op argument => call op [source, argument]
  | .withLambda op p body => do call op [source, ← lambda [p] body]
  | .withCount op n => do call op [source, ← const (.int n)]
  | .segment s => do call .segment [source, ← segment s]
  | .join op inner (p, outerKey) (q, innerKey) (a, b, result) => do
    call op [source, inner, ← lambda [p] outerKey, ← lambda [q] innerKey, ← lambda [a, b] result]

end Expr.Build

end SequenceQuery
