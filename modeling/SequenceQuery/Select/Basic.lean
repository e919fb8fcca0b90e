import SequenceQuery.Expr.Basic

namespace SequenceQuery

/-- Where the value of a bound parameter comes from when a command is run. -/
inductive Source
  | slot (index : Nat)
  | segmentStart
  | segmentLength
  deriving DecidableEq

inductive SqlBinary
  | eq | notEq | lt | ltEq | gt | gtEq
  | and | or
  | plus | minus | multiply | divide | modulo
  | like | concat
  deriving DecidableEq

namespace SqlBinary

def name : SqlBinary → String
  | .eq => "Eq"
  | .notEq => "NotEq"
  | .lt => "Lt"
  | .ltEq => "LtEq"
  | .gt => "Gt"
  | .gtEq => "GtEq"
  | .and => "And"
  | .or => "Or"
  | .plus => "Plus"
  | .minus => "Minus"
  | .multiply => "Multiply"
  | .divide => "Divide"
  | .modulo => "Modulo"
  | .like => "Like"
  | .concat => "Concat"

def everyOp : List SqlBinary :=
  [.eq, .notEq, .lt, .ltEq, .gt, .gtEq, .and, .or, .plus, .minus, .multiply, .divide, .modulo,
   .like, .concat]

def ofName? (name : String) : Option SqlBinary := everyOp.find? fun op => op.name == name

/-- Binding strength; a higher one binds tighter. -/
def precedence : SqlBinary → Nat
  | .or => 1
  | .and => 2
  | .eq | .notEq | .lt | .ltEq | .gt | .gtEq => 4
  | .like => 5
  | .concat => 6
  | .plus | .minus => 7
  | .multiply | .divide | .modulo => 8

/-- Whether `a op (b op c)` means the same as `(a op b) op c`. -/
def isAssociative : SqlBinary → Bool
  | .and | .or | .plus | .multiply | .concat => true
  | _ => false

end SqlBinary

inductive SqlUnary
  | not | minus
  deriving DecidableEq

inductive JoinKind
  | inner | left
  deriving DecidableEq

mutual

structure Select where
  distinct : Bool
  /-- What is selected; nothing listed stands for every column. -/
  items : List SelectItem
  source : Option Table
  joins : List Join
  filter : Option SqlExpr
  groupBy : List SqlExpr
  having : Option SqlExpr
  orderBy : List SortKey
  limit : Option SqlExpr
  offset : Option SqlExpr
  /-- The expression that the statement was made from. -/
  origin : Option Expr

inductive SelectItem
  | wildcard
  | expr (e : SqlExpr) (label : Option String)

inductive Table
  | table (schema : Option String) (name label : String)
  /-- A derived table. -/
  | subquery (query : Select) (label : String)

structure Join where
  kind : JoinKind
  table : Table
  condition : Option SqlExpr

structure SortKey where
  expr : SqlExpr
  ascending : Bool

inductive SqlExpr
  | column (table : Option String) (name : String)
  | literal (value : Value)
  | param (source : Source)
  | binary (op : SqlBinary) (left right : SqlExpr)
  | unary (op : SqlUnary) (operand : SqlExpr)
  | function (name : String) (args : List SqlExpr)
  | aggregate (name : String) (args : List SqlExpr) (distinct : Bool)
  | cases (arms : List (SqlExpr × SqlExpr)) (otherwise : Option SqlExpr)
  | subquery (query : Select)
  | exist (query : Select) (negated : Bool)
  | isIn (operand : SqlExpr) (query : Select) (negated : Bool)
  | isNull (operand : SqlExpr) (negated : Bool)
  /-- The star in a count of rows. -/
  | wildcard
  | nested (inner : SqlExpr)

end

namespace SqlExpr

def and (left right : SqlExpr) : SqlExpr := .binary .and left right

def not (operand : SqlExpr) : SqlExpr := .unary .not operand

def columnOf (table name : String) : SqlExpr := .column (some table) name

def int (n : Int64) : SqlExpr := .literal (.int n)

def aggregateOf (name : String) (args : List SqlExpr) : SqlExpr := .aggregate name args false

def countRows : SqlExpr := aggregateOf "COUNT" [.wildcard]

def coalesce (args : List SqlExpr) : SqlExpr := .function "COALESCE" args

def conjoin (existing : Option SqlExpr) (predicate : SqlExpr) : SqlExpr :=
  match existing with
  | none => predicate
  | some e => and e predicate

end SqlExpr

namespace Table

def label : Table → String
  | .table _ _ a | .subquery _ a => a

end Table

namespace Select

def empty : Select := ⟨false, [], none, [], none, [], none, [], none, none, none⟩

def ofTable (table : Table) : Select := { empty with source := some table }

def ofItem (e : SqlExpr) (origin : Expr) : Select :=
  { empty with items := [.expr e none], origin := some origin }

def hasPaging (s : Select) : Bool := s.limit.isSome || s.offset.isSome

def hasGroups (s : Select) : Bool := !s.groupBy.isEmpty

/-- Whether the statement only names a table, which can then be joined as it is. -/
def isBareTable (s : Select) : Bool :=
  (match s.source with
    | some (.table ..) => true
    | _ => false)
  && s.joins.isEmpty && s.filter.isNone && !s.distinct && !s.hasGroups && s.having.isNone
  && s.orderBy.isEmpty && !s.hasPaging

def filterBy (s : Select) (predicate : SqlExpr) : Select :=
  { s with filter := some (.conjoin s.filter predicate) }

def havingBy (s : Select) (predicate : SqlExpr) : Select :=
  { s with having := some (.conjoin s.having predicate) }

end Select

/-- What a query gives once its rows are fetched. -/
inductive ResultShape
  | sequence
  /-- One row. A nullable result may be missing, a unique one may not have a second row. -/
  | single (nullable unique : Bool)
  /-- The first column of the first row. -/
  | scalar (nullable : Bool)
  deriving DecidableEq

end SequenceQuery
