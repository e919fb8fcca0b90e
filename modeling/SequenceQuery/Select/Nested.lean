import SequenceQuery.Select.Basic

namespace SequenceQuery

mutual

/-- Nested statements in visiting order, each followed by those nested in it. -/
def Select.nested : Select → List Select
  | ⟨_, items, source, joins, filter, groupBy, having, orderBy, limit, offset, _⟩ =>
    nestedOfSource source ++ nestedOfJoins joins ++ nestedOfOption filter ++ nestedOfItems items ++
      nestedOfList groupBy ++ nestedOfOption having ++ nestedOfKeys orderBy ++
      nestedOfOption limit ++ nestedOfOption offset

def Table.nested : Table → List Select
  | .table .. => []
  | .subquery query _ => query.nested

def nestedOfSource : Option Table → List Select
  | none => []
  | some table => table.nested

def nestedOfJoins : List Join → List Select
  | [] => []
  | ⟨_, table, condition⟩ :: rest =>
    table.nested ++ nestedOfOption condition ++ nestedOfJoins rest

def nestedOfItems : List SelectItem → List Select
  | [] => []
  | .wildcard :: rest => nestedOfItems rest
  | .expr e _ :: rest => e.nestedSelects ++ nestedOfItems rest

def nestedOfKeys : List SortKey → List Select
  | [] => []
  | ⟨e, _⟩ :: rest => e.nestedSelects ++ nestedOfKeys rest

def nestedOfOption : Option SqlExpr → List Select
  | none => []
  | some e => e.nestedSelects

def nestedOfList : List SqlExpr → List Select
  | [] => []
  | e :: rest => e.nestedSelects ++ nestedOfList rest

def nestedOfArms : List (SqlExpr × SqlExpr) → List Select
  | [] => []
  | (test, value) :: rest => test.nestedSelects ++ value.nestedSelects ++ nestedOfArms rest

def SqlExpr.nestedSelects : SqlExpr → List Select
  | .column .. | .literal _ | .param _ | .wildcard => []
  | .binary _ left right => left.nestedSelects ++ right.nestedSelects
  | .unary _ operand | .isNull operand _ | .nested operand => operand.nestedSelects
  | .function _ args | .aggregate _ args _ => nestedOfList args
  | .cases arms otherwise => nestedOfArms arms ++ nestedOfOption otherwise
  | .subquery query | .exist query _ => query :: query.nested
  | .isIn operand query _ => operand.nestedSelects ++ query :: query.nested

end

namespace Select

/-- The place of the statement's origin among the nodes of the query; one without a place comes
after all others. -/
def place (root : Expr) (s : Select) : Nat :=
  let nodes := root.nodes
  match s.origin with
  | none => nodes.length
  | some origin => (nodes.map Expr.id).idxOf origin.id

/-- The nested statements in the order of their origins in the query. -/
def nestedIn (root : Expr) (s : Select) : List Select :=
  s.nested.mergeSort fun a b => decide (a.place root ≤ b.place root)

def withNested (s : Select) (root : Expr) : List Select := s :: s.nestedIn root

end Select

end SequenceQuery
