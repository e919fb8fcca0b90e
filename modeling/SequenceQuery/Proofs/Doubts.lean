import SequenceQuery.Proofs.Derived
import SequenceQuery.Proofs.GroupedRows

namespace SequenceQuery

/-- What is known of a column that a statement reads. -/
structure ColumnFact where
  label : String
  name : String
  /-- It may be null although nothing says so. -/
  doubtful : Bool
  /-- It is never null. -/
  known : Bool
  /-- It holds truth values. -/
  truth : Bool

namespace SqlBinary

def tests : SqlBinary → Bool
  | .eq | .notEq | .lt | .ltEq | .gt | .gtEq | .and | .or | .like => true
  | _ => false

def isLogical : SqlBinary → Bool
  | .and | .or => true
  | _ => false

end SqlBinary

def Cell.isTruth : Cell → Bool
  | .null | .bool _ => true
  | _ => false

def Arguments.cell (arguments : Arguments) (source : Source) : Cell :=
  match arguments.resolve source with
  | .ok value => value.cell
  | .error _ => .null

section

variable (arguments : Arguments) (columns : List ColumnFact)

mutual

def SqlExpr.isTruth : SqlExpr → Bool
  | .column (some label) name =>
    columns.any fun c => c.label == label && c.name == name && c.truth
  | .literal value => value.cell.isTruth
  | .param source => (arguments.cell source).isTruth
  | .binary op _ _ => op.tests
  | .unary .not _ | .exist .. | .isIn .. | .isNull .. => true
  | .function name args => name == "COALESCE" && allTruth args
  | .cases arms otherwise =>
    armsTruth arms && match otherwise with
      | some e => e.isTruth
      | none => true
  | .nested inner => inner.isTruth
  | _ => false

def allTruth : List SqlExpr → Bool
  | [] => true
  | e :: rest => e.isTruth && allTruth rest

def armsTruth : List (SqlExpr × SqlExpr) → Bool
  | [] => true
  | (_, value) :: rest => value.isTruth && armsTruth rest

end

mutual

def SqlExpr.isKnown : SqlExpr → Bool
  | .column (some label) name =>
    columns.any fun c => c.label == label && c.name == name && c.known
  | .literal value => !value.isNull
  | .param source => !(arguments.cell source).isNull
  | .binary op left right => left.isKnown && right.isKnown &&
    (!op.isLogical || left.isTruth arguments columns && right.isTruth arguments columns)
  | .unary .not operand => operand.isKnown && operand.isTruth arguments columns
  | .unary .minus operand | .nested operand => operand.isKnown
  | .function name args => if name = "COALESCE" then anyKnown args else allKnown args
  | .cases arms otherwise =>
    armsKnown arms && match otherwise with
      | some e => e.isKnown
      | none => false
  | .aggregate name .. => name == "COUNT"
  | .exist .. | .isNull .. => true
  | _ => false

def anyKnown : List SqlExpr → Bool
  | [] => false
  | e :: rest => e.isKnown || anyKnown rest

def allKnown : List SqlExpr → Bool
  | [] => true
  | e :: rest => e.isKnown && allKnown rest

def armsKnown : List (SqlExpr × SqlExpr) → Bool
  | [] => true
  | (_, value) :: rest => value.isKnown && armsKnown rest

end

end

def SelectItem.isExtreme : SelectItem → Bool
  | .expr (.aggregate name _ _) _ => name != "COUNT"
  | _ => false

/-- A statement for one value that may return none, or null. -/
def Select.mayLackValue (s : Select) : Bool :=
  !s.hasGroups && (s.having.isSome || s.items.any SelectItem.isExtreme)

section

variable (arguments : Arguments) (columns : List ColumnFact)

mutual

/-- Whether a value may be null although no flag says so: it is read from a column for which that
holds, looks for a text that may be null, tests for a member, combines what are not truth values, or
is a statement that may lack its value. -/
def SqlExpr.doubts : SqlExpr → Bool
  | .column (some label) name =>
    columns.any fun c => c.label == label && c.name == name && c.doubtful
  | .binary op left right =>
    left.doubts || match op with
      | .and | .or =>
        right.doubts || !(left.isTruth arguments columns && right.isTruth arguments columns)
      | .like => !right.isKnown arguments columns
      | _ => right.doubts
  | .unary .not operand => operand.doubts || !operand.isTruth arguments columns
  | .unary .minus operand | .nested operand => operand.doubts
  | .function name args =>
    if name = "COALESCE" then args.isEmpty || !anyKnown arguments columns args && anyDoubts args
    else anyDoubts args
  | .aggregate name args _ => name != "COUNT" && anyDoubts args
  | .cases arms otherwise =>
    armsDoubt arms || match otherwise with
      | some e => e.doubts
      | none => true
  | .subquery query => query.mayLackValue
  | .isIn .. | .column none _ => true
  | .literal _ | .param _ | .exist .. | .isNull .. | .wildcard => false

def anyDoubts : List SqlExpr → Bool
  | [] => false
  | e :: rest => e.doubts || anyDoubts rest

def armsDoubt : List (SqlExpr × SqlExpr) → Bool
  | [] => false
  | (_, value) :: rest => value.doubts || armsDoubt rest

end

namespace SqlExpr

variable (e l r : SqlExpr) (args : List SqlExpr)

theorem doubts_binary {op : SqlBinary} (h : op ≠ .like) :
    (binary op l r).doubts arguments columns =
      (l.doubts arguments columns || r.doubts arguments columns ||
        (op.isLogical && !(l.isTruth arguments columns && r.isTruth arguments columns))) := by
  cases op with
  | like => exact absurd rfl h
  | and | or => exact (Bool.or_assoc _ _ _).symm
  | _ => exact (Bool.or_false _).symm

theorem doubts_like : (binary .like l r).doubts arguments columns =
    (l.doubts arguments columns || !r.isKnown arguments columns) := rfl

theorem doubts_not : (unary .not e).doubts arguments columns =
    (e.doubts arguments columns || !e.isTruth arguments columns) := rfl

theorem doubts_coalesce : (coalesce args).doubts arguments columns =
    (args.isEmpty || !anyKnown arguments columns args && anyDoubts arguments columns args) :=
  if_pos rfl

theorem doubts_function {name : String} (h : name ≠ "COALESCE") :
    (function name args).doubts arguments columns = anyDoubts arguments columns args :=
  if_neg h

theorem doubts_aggregateOf (name : String) : (aggregateOf name [e]).doubts arguments columns =
    (name != "COUNT" && (e.doubts arguments columns || false)) := rfl

theorem doubts_cases (test : SqlExpr) : (cases [(test, l)] (some r)).doubts arguments columns =
    (l.doubts arguments columns || false || r.doubts arguments columns) := rfl

end SqlExpr

theorem anyDoubts_eq_false {es : List SqlExpr} : anyDoubts arguments columns es = false ↔
    ∀ e ∈ es, e.doubts arguments columns = false := by
  induction es with
  | nil => exact iff_of_true rfl (List.forall_mem_nil _)
  | cons e es ih =>
    rw [List.forall_mem_cons, ← ih]
    exact Bool.or_eq_false_iff

def SelectItem.fact? (label : String) : SelectItem → Option ColumnFact
  | .wildcard => none
  | .expr e name => some ⟨label, columnName e name, e.doubts arguments columns,
      e.isKnown arguments columns, e.isTruth arguments columns⟩

end

def Catalog.facts (catalog : Catalog) (schema : Option String) (table label : String) :
    List ColumnFact :=
  (catalog.entities.filter fun entity => entity.schema = schema && entity.table = table).flatMap
    fun entity => entity.properties.map fun p =>
      ⟨label, p.column, false, !p.nullable, p.dataType = .bool⟩

/-- A row that a left join finds no partner for has null in all columns of the other table. -/
def JoinKind.facts (kind : JoinKind) (columns : List ColumnFact) : List ColumnFact :=
  match kind with
  | .inner => columns
  | .left => columns.map fun c => { c with known := false }

section

variable (catalog : Catalog) (arguments : Arguments)

mutual

def Select.columns : Select → List ColumnFact
  | ⟨_, _, source, joins, _, _, _, _, _, _, _⟩ => sourceColumns source ++ joinColumns joins

def sourceColumns : Option Table → List ColumnFact
  | none => []
  | some table => table.columns

def Table.columns : Table → List ColumnFact
  | .table schema name label => catalog.facts schema name label
  | .subquery query label => query.items.filterMap (SelectItem.fact? arguments query.columns label)

def joinColumns : List Join → List ColumnFact
  | [] => []
  | ⟨kind, table, _⟩ :: rest => kind.facts table.columns ++ joinColumns rest

end

end

section

variable {catalog : Catalog} {arguments : Arguments} (s : Select) (j : Join)

theorem joinColumns_append (joins more : List Join) :
    joinColumns catalog arguments (joins ++ more) =
      joinColumns catalog arguments joins ++ joinColumns catalog arguments more := by
  induction joins with
  | nil => rfl
  | cons j joins ih =>
    obtain ⟨_, table, _⟩ := j
    simp only [List.cons_append, joinColumns, ih, List.append_assoc]

theorem Select.columns_eq : s.columns catalog arguments =
    sourceColumns catalog arguments s.source ++ joinColumns catalog arguments s.joins := by
  cases s
  rfl

theorem Select.columns_joined :
    ({ s with joins := s.joins ++ [j] } : Select).columns catalog arguments =
      s.columns catalog arguments ++ j.kind.facts (j.table.columns catalog arguments) := by
  obtain ⟨_, table, _⟩ := j
  simp only [Select.columns_eq, joinColumns_append, joinColumns, List.append_nil, List.append_assoc]

theorem Table.label_of_columns {t : Table} {c : ColumnFact}
    (h : c ∈ t.columns catalog arguments) : c.label = t.label := by
  cases t with
  | table schema name label =>
    obtain ⟨_, -, hc⟩ := List.mem_flatMap.1 h
    obtain ⟨_, -, rfl⟩ := List.mem_map.1 hc
    rfl
  | subquery query label =>
    obtain ⟨item, -, hfact⟩ := List.mem_filterMap.1 h
    cases item with
    | wildcard => cases hfact
    | expr e name =>
      cases hfact
      rfl

end

/-- A database that makes null of nothing but null. -/
structure Engine.Strict (engine : Engine) : Prop where
  binary : ∀ op a b, a.isNull = false → b.isNull = false → (engine.binary op a b).isNull = false
  tests : ∀ op a b, op.tests = true → (engine.binary op a b).isTruth = true
  minus : ∀ a, a.isNull = false → (engine.minus a).isNull = false
  function : ∀ name args, (∀ a ∈ args, a.isNull = false) →
    (engine.function name args).isNull = false
  aggregate : ∀ name cells, cells ≠ [] → (∀ c ∈ cells, c.isNull = false) →
    (engine.aggregate name cells).isNull = false
  same : ∀ c, engine.same c c = true

/-- What tables hold is what the catalog says: something in each column that is not nullable, and
truth values in those of that type. -/
structure Database.Holds (db : Database) (catalog : Catalog) : Prop where
  present : ∀ entity ∈ catalog.entities, ∀ r ∈ db entity.schema entity.table,
    ∀ p ∈ entity.properties, p.nullable = false → (r.cell p.column).isNull = false
  truth : ∀ entity ∈ catalog.entities, ∀ r ∈ db entity.schema entity.table,
    ∀ p ∈ entity.properties, p.dataType = .bool → (r.cell p.column).isTruth = true

structure World where
  catalog : Catalog
  engine : Engine
  db : Database
  arguments : Arguments
  strict : engine.Strict
  holds : db.Holds catalog

variable {w : World}

namespace World

abbrev cell (w : World) (e : SqlExpr) (group : List Env) (env : Env) : Cell :=
  e.cell w.engine w.db w.arguments group env

abbrev records (w : World) (s : Select) (outer : Env) : List Record :=
  s.records w.engine w.db w.arguments outer

end World

theorem Value.isNull_cell (value : Value) : value.cell.isNull = value.isNull := by
  cases value <;> rfl

end SequenceQuery
