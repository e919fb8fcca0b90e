import SequenceQuery.Form.Binding

namespace SequenceQuery

structure Progress where
  nextLabel : Nat
  segmentUsed : Bool

abbrev Build := StateT Progress (Except Failure)

def freshLabel : Build String :=
  modifyGet fun p => ("t" ++ toString p.nextLabel, { p with nextLabel := p.nextLabel + 1 })

structure Rows where
  select : Select
  row : Binding

namespace Rows

/-- Names a selected expression, except a column that already has the name. -/
def item (e : SqlExpr) (name : String) : SelectItem :=
  match e with
  | .column _ n => .expr e (if n = name then none else some name)
  | _ => .expr e (some name)

def items (leaves : List Leaf) : List SelectItem := leaves.map fun l => item l.scalar.expr l.name

def project (rows : Rows) (node : Expr) : Except Failure Select :=
  return { rows.select with items := items (← rows.row.columns node) }

def wrap (rows : Rows) (node : Expr) : Build Rows := do
  let select ← rows.project node
  let label ← freshLabel
  return ⟨{ Select.ofTable (.subquery select label) with origin := some node },
    rows.row.readFrom label ""⟩

def wrapIf (condition : Bool) (rows : Rows) (node : Expr) : Build Rows :=
  if condition then rows.wrap node else return rows

def withLimit (rows : Rows) (limit : SqlExpr) : Rows :=
  { rows with select := { rows.select with limit := some limit } }

def withOffset (rows : Rows) (offset : SqlExpr) : Rows :=
  { rows with select := { rows.select with offset := some offset } }

def withOrigin (rows : Rows) (origin : Expr) : Rows :=
  { rows with select := { rows.select with origin := some origin } }

def selecting (rows : Rows) (e : SqlExpr) : Select :=
  { rows.select with items := [.expr e none] }

/-- Without paging the order of the rows has no effect on what they are. -/
def orderedOnlyIfPaged (rows : Rows) : Rows :=
  if rows.select.hasPaging then rows else { rows with select := { rows.select with orderBy := [] } }

def forAggregate (rows : Rows) (node : Expr) : Build Rows := do
  if rows.row.isGroup then unsupported node .aggregateGrouping
  let s := rows.select
  let rows ← rows.wrapIf (s.hasPaging || s.distinct || s.hasGroups) node
  return { rows with select := { rows.select with orderBy := [] } }

end Rows

/-- A terminal operator, before it is placed at the root of a query or inside a lambda. -/
inductive Terminal
  | single (select : Select) (row : Binding) (nullable unique : Bool)
  | exist (select : Select) (negated : Bool)
  | scalar (select : Select) (nullable : Bool)
  | isIn (value : SqlExpr) (select : Select)

/-- The value of an aggregate over elements of which `s` is taken. A sum of nothing is zero. -/
def aggregateOver (op : Operator) (s : Scalar) : Scalar :=
  match op with
  | .sum => ⟨.coalesce [.aggregateOf "SUM" [s.expr], .int 0], false⟩
  | .min => ⟨.aggregateOf "MIN" [s.expr], s.nullable⟩
  | .max => ⟨.aggregateOf "MAX" [s.expr], s.nullable⟩
  | _ => ⟨.aggregateOf "AVG" [s.expr], s.nullable⟩

end SequenceQuery
