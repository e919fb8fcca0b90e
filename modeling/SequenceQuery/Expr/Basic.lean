import SequenceQuery.Segment

namespace SequenceQuery

abbrev NodeId := Nat

/-- Operators on sequences. The first argument of a call is its source. -/
inductive Operator
  | filter | project | join | leftJoin
  | orderBy | orderByDescending | thenBy | thenByDescending
  | skip | take | segment | distinct | groupBy
  | count | longCount | any | all | contains
  | first | firstOrDefault | single | singleOrDefault
  | sum | min | max | average
  deriving DecidableEq

namespace Operator

def name : Operator → String
  | .filter => "Where"
  | .project => "Select"
  | .join => "Join"
  | .leftJoin => "LeftJoin"
  | .orderBy => "OrderBy"
  | .orderByDescending => "OrderByDescending"
  | .thenBy => "ThenBy"
  | .thenByDescending => "ThenByDescending"
  | .skip => "Skip"
  | .take => "Take"
  | .segment => "Segment"
  | .distinct => "Distinct"
  | .groupBy => "GroupBy"
  | .count => "Count"
  | .longCount => "LongCount"
  | .any => "Any"
  | .all => "All"
  | .contains => "Contains"
  | .first => "First"
  | .firstOrDefault => "FirstOrDefault"
  | .single => "Single"
  | .singleOrDefault => "SingleOrDefault"
  | .sum => "Sum"
  | .min => "Min"
  | .max => "Max"
  | .average => "Average"

def everyOperator : List Operator :=
  [.filter, .project, .join, .leftJoin, .orderBy, .orderByDescending, .thenBy, .thenByDescending,
   .skip, .take, .segment, .distinct, .groupBy, .count, .longCount, .any, .all, .contains, .first,
   .firstOrDefault, .single, .singleOrDefault, .sum, .min, .max, .average]

def ofName? (name : String) : Option Operator := everyOperator.find? fun op => op.name == name

/-- Operators that end a query in one row or one value. -/
def isTerminal : Operator → Bool
  | .count | .longCount | .any | .all | .contains | .first | .firstOrDefault | .single
  | .singleOrDefault | .sum | .min | .max | .average => true
  | _ => false

end Operator

inductive BinaryOp
  | equal | notEqual | lessThan | lessThanOrEqual | greaterThan | greaterThanOrEqual
  | and | or | add | subtract | multiply | divide | modulo | coalesce
  deriving DecidableEq

namespace BinaryOp

def name : BinaryOp → String
  | .equal => "Equal"
  | .notEqual => "NotEqual"
  | .lessThan => "LessThan"
  | .lessThanOrEqual => "LessThanOrEqual"
  | .greaterThan => "GreaterThan"
  | .greaterThanOrEqual => "GreaterThanOrEqual"
  | .and => "And"
  | .or => "Or"
  | .add => "Add"
  | .subtract => "Subtract"
  | .multiply => "Multiply"
  | .divide => "Divide"
  | .modulo => "Modulo"
  | .coalesce => "Coalesce"

def symbol : BinaryOp → String
  | .equal => "=="
  | .notEqual => "!="
  | .lessThan => "<"
  | .lessThanOrEqual => "<="
  | .greaterThan => ">"
  | .greaterThanOrEqual => ">="
  | .and => "&&"
  | .or => "||"
  | .add => "+"
  | .subtract => "-"
  | .multiply => "*"
  | .divide => "/"
  | .modulo => "%"
  | .coalesce => "??"

def everyOp : List BinaryOp :=
  [.equal, .notEqual, .lessThan, .lessThanOrEqual, .greaterThan, .greaterThanOrEqual, .and, .or,
   .add, .subtract, .multiply, .divide, .modulo, .coalesce]

def ofName? (name : String) : Option BinaryOp := everyOp.find? fun op => op.name == name

end BinaryOp

inductive UnaryOp
  | not | negate
  deriving DecidableEq

namespace UnaryOp

def name : UnaryOp → String
  | .not => "Not"
  | .negate => "Negate"

def symbol : UnaryOp → String
  | .not => "!"
  | .negate => "-"

end UnaryOp

inductive Expr
  /-- All entities of a set. -/
  | entity (id : NodeId) (name : String)
  | call (id : NodeId) (op : Operator) (args : List Expr)
  | lambda (id : NodeId) (params : List String) (body : Expr)
  | param (id : NodeId) (name : String)
  | member (id : NodeId) (target : Expr) (name : String)
  | const (id : NodeId) (value : Value)
  | segment (id : NodeId) (segment : Segment)
  | binary (id : NodeId) (op : BinaryOp) (left right : Expr)
  | unary (id : NodeId) (op : UnaryOp) (operand : Expr)
  /-- A scalar function such as `to_lower`. -/
  | function (id : NodeId) (name : String) (args : List Expr)
  | object (id : NodeId) (fields : List (String × Expr))
  | conditional (id : NodeId) (test ifTrue ifFalse : Expr)

namespace Expr

def id : Expr → NodeId
  | .entity id _ | .call id _ _ | .lambda id _ _ | .param id _ | .member id _ _ | .const id _
  | .segment id _ | .binary id _ _ _ | .unary id _ _ | .function id _ _ | .object id _
  | .conditional id _ _ _ => id

/-- Direct children in order of evaluation. -/
def children : Expr → List Expr
  | .entity .. | .param .. | .const .. | .segment .. => []
  | .call _ _ args | .function _ _ args => args
  | .lambda _ _ body => [body]
  | .member _ target _ => [target]
  | .binary _ _ left right => [left, right]
  | .unary _ _ operand => [operand]
  | .object _ fields => fields.map Prod.snd
  | .conditional _ test ifTrue ifFalse => [test, ifTrue, ifFalse]

/-- The query inside lambdas without parameters. -/
def core : Expr → Expr
  | .lambda _ [] body => body.core
  | e => e

def constant? : Expr → Option Value
  | .const _ v => some v
  | _ => none

def isNull : Expr → Bool
  | .const _ .null => true
  | _ => false

mutual

/-- The nodes in pre-order, a shared node once for every place it stands in. -/
def nodes : Expr → List Expr
  | e@(.entity ..) | e@(.param ..) | e@(.const ..) | e@(.segment ..) => [e]
  | e@(.call _ _ args) | e@(.function _ _ args) => e :: nodesOfList args
  | e@(.lambda _ _ body) => e :: body.nodes
  | e@(.member _ target _) => e :: target.nodes
  | e@(.binary _ _ left right) => e :: (left.nodes ++ right.nodes)
  | e@(.unary _ _ operand) => e :: operand.nodes
  | e@(.object _ fields) => e :: nodesOfFields fields
  | e@(.conditional _ test ifTrue ifFalse) => e :: (test.nodes ++ (ifTrue.nodes ++ ifFalse.nodes))

def nodesOfList : List Expr → List Expr
  | [] => []
  | e :: rest => e.nodes ++ nodesOfList rest

def nodesOfFields : List (String × Expr) → List Expr
  | [] => []
  | (_, e) :: rest => e.nodes ++ nodesOfFields rest

end

/-- No node stands in two places. -/
def Unshared (e : Expr) : Prop := (e.nodes.map id).Nodup

instance (e : Expr) : Decidable e.Unshared := inferInstanceAs (Decidable (e.nodes.map id).Nodup)

mutual

def display : Expr → String
  | .entity _ name | .param _ name => name
  | .call _ op args =>
    match displays args with
    | [] => op.name ++ "()"
    | source :: rest => source ++ "." ++ op.name ++ "(" ++ ", ".intercalate rest ++ ")"
  | .lambda _ [p] body => p ++ " => " ++ body.display
  | .lambda _ params body => "(" ++ ", ".intercalate params ++ ") => " ++ body.display
  | .member _ target name => target.display ++ "." ++ name
  | .const _ value => value.display
  | .segment _ s => s.display
  | .binary _ op left right =>
    "(" ++ left.display ++ " " ++ op.symbol ++ " " ++ right.display ++ ")"
  | .unary _ op operand => op.symbol ++ operand.display
  | .function _ name args => name ++ "(" ++ ", ".intercalate (displays args) ++ ")"
  | .object _ fields => "new \x7b " ++ ", ".intercalate (displayFields fields) ++ " \x7d"
  | .conditional _ test ifTrue ifFalse =>
    "(" ++ test.display ++ " ? " ++ ifTrue.display ++ " : " ++ ifFalse.display ++ ")"

def displays : List Expr → List String
  | [] => []
  | e :: rest => e.display :: displays rest

def displayFields : List (String × Expr) → List String
  | [] => []
  | (name, e) :: rest => (name ++ " = " ++ e.display) :: displayFields rest

end

end Expr

end SequenceQuery
