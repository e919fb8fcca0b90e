import SequenceQuery.Data.Cell
import SequenceQuery.Dialect.Basic
import Mathlib.Data.List.Sort

namespace SequenceQuery

abbrev Record := List (String × Cell)

/-- The records in scope under their labels, the innermost first. -/
abbrev Env := List (String × Record)

abbrev Database := Option String → String → List Record

/-- What a database computes from single values, apart from the truth values that follow from the
values of conditions. -/
structure Engine where
  binary : SqlBinary → Cell → Cell → Cell
  minus : Cell → Cell
  function : String → List Cell → Cell
  /-- Over the values that are not null. -/
  aggregate : String → List Cell → Cell
  /-- Whether DISTINCT and GROUP BY take two values for one. -/
  same : Cell → Cell → Bool
  notAfter : Cell → Cell → Bool

def Value.cell : Value → Cell
  | .null => .null
  | .bool b => .bool b
  | .int n => .int64 n
  | .float x => .float64 x
  | .text s => .text s

namespace Cell

/-- The truth value of a condition; none if it is unknown. -/
def truth : Cell → Option Bool
  | .bool b => some b
  | _ => none

def ofTruth : Option Bool → Cell
  | some b => .bool b
  | none => .null

def isTrue (c : Cell) : Bool := c.truth = some true

def both (a b : Cell) : Cell :=
  match a.truth, b.truth with
  | some false, _ | _, some false => .bool false
  | some true, some true => .bool true
  | _, _ => .null

def either (a b : Cell) : Cell :=
  match a.truth, b.truth with
  | some true, _ | _, some true => .bool true
  | some false, some false => .bool false
  | _, _ => .null

def opposite (a : Cell) : Cell := ofTruth (a.truth.map Bool.not)

/-- A number of rows; null stands for none given. -/
def count? : Cell → Option Nat
  | .int16 n => some n.toInt.toNat
  | .int32 n => some n.toInt.toNat
  | .int64 n => some n.toInt.toNat
  | _ => none

def ofCount (n : Nat) : Cell := .int64 (Int64.ofNat n)

def firstKnown : List Cell → Cell
  | [] => .null
  | c :: rest => if c.isNull then firstKnown rest else c

end Cell

/-- Each element unless an earlier one is kept that is the same. -/
def keepFirst {α : Type} (same : α → α → Bool) : List α → List α
  | [] => []
  | x :: rest => x :: (keepFirst same rest).filter fun y => !same x y

def page {α : Type} (limit : Option Nat) (offset : Nat) (rows : List α) : List α :=
  match limit with
  | some n => (rows.drop offset).take n
  | none => rows.drop offset

namespace Record

def cell (r : Record) (name : String) : Cell := (r.lookup name).getD .null

def cells (r : Record) : List Cell := r.map Prod.snd

end Record

namespace Env

def cell (env : Env) (label name : String) : Cell := ((env.lookup label).getD []).cell name

/-- A column that is read without a label belongs to the innermost record that has it. -/
def anyCell (env : Env) (name : String) : Cell :=
  (env.findSome? fun entry => entry.2.lookup name).getD .null

end Env

namespace Engine

variable (engine : Engine)

def sameCells (a b : List Cell) : Bool :=
  a.length == b.length && (a.zip b).all fun pair => engine.same pair.1 pair.2

def operate (op : SqlBinary) (a b : Cell) : Cell :=
  match op with
  | .and => a.both b
  | .or => a.either b
  | op => engine.binary op a b

def call (name : String) (args : List Cell) : Cell :=
  if name = "COALESCE" then .firstKnown args else engine.function name args

def aggregated (name : String) (distinct : Bool) (cells : List Cell) : Cell :=
  let known := cells.filter fun c => !c.isNull
  let known := if distinct then keepFirst engine.same known else known
  if name = "COUNT" then .ofCount known.length else engine.aggregate name known

/-- Whether a value is among others; unknown when only a comparison that is unknown could make it
one of them. -/
def among (c : Cell) (cells : List Cell) : Cell :=
  (cells.map (engine.binary .eq c)).foldr Cell.either (.bool false)

def groups (key : Env → List Cell) (rows : List Env) : List (List Env × Env) :=
  let same := fun a b => engine.sameCells (key a) (key b)
  (keepFirst same rows).map fun first => (rows.filter (same first), first)

def keysNotAfter : List (Cell × Bool) → List (Cell × Bool) → Bool
  | (a, ascending) :: keys, (b, _) :: keys' =>
    let (a, b) := if ascending then (a, b) else (b, a)
    engine.notAfter a b && (!engine.notAfter b a || keysNotAfter keys keys')
  | _, _ => true

end Engine

mutual

/-- Whether the expression aggregates the rows of the statement that it stands in. -/
def SqlExpr.hasAggregate : SqlExpr → Bool
  | .aggregate .. => true
  | .column .. | .literal _ | .param _ | .subquery _ | .exist .. | .wildcard => false
  | .binary _ left right => left.hasAggregate || right.hasAggregate
  | .unary _ e | .isNull e _ | .nested e | .isIn e _ _ => e.hasAggregate
  | .function _ args => anyAggregate args
  | .cases arms otherwise =>
    armsAggregate arms || (match otherwise with | some e => e.hasAggregate | none => false)

def anyAggregate : List SqlExpr → Bool
  | [] => false
  | e :: rest => e.hasAggregate || anyAggregate rest

def armsAggregate : List (SqlExpr × SqlExpr) → Bool
  | [] => false
  | (test, value) :: rest => test.hasAggregate || value.hasAggregate || armsAggregate rest

end

namespace SelectItem

def hasAggregate : SelectItem → Bool
  | .wildcard => false
  | .expr e _ => e.hasAggregate

def columnName (e : SqlExpr) (label : Option String) : String :=
  label.getD (match e with
    | .column _ name => name
    | _ => "?column?")

end SelectItem

section

variable (engine : Engine) (db : Database) (arguments : Arguments)

mutual

/-- The rows that a statement returns, in a scope when it is nested in another statement. -/
def Select.records (outer : Env) : Select → List Record
  | ⟨distinct, items, source, joins, filter, groupBy, having, orderBy, limit, offset, _⟩ =>
    let rows := (joinedRows outer joins (sourceRows outer source)).filter fun env =>
      conditionHolds filter [env] env
    let groups :=
      if !groupBy.isEmpty then engine.groups (fun env => listCells groupBy [env] env) rows
      else if items.any SelectItem.hasAggregate || having.isSome then
        [(rows, rows.headD outer)]
      else rows.map fun env => ([env], env)
    let selected := (groups.filter fun g => conditionHolds having g.1 g.2).map fun g =>
      (itemRecord (g.2.take (g.2.length - outer.length)) items g.1 g.2, sortKeys orderBy g.1 g.2)
    let selected :=
      if distinct then keepFirst (fun a b => engine.sameCells a.1.cells b.1.cells) selected
      else selected
    let sorted := selected.insertionSort fun a b => engine.keysNotAfter a.2 b.2
    page (optionCell limit [outer] outer).count? ((optionCell offset [outer] outer).count?.getD 0)
      (sorted.map Prod.fst)

/-- The rows of the table read from; a statement that reads none has one row. -/
def sourceRows (outer : Env) : Option Table → List Env
  | none => [outer]
  | some table => (table.records outer).map fun r => (table.label, r) :: outer

def Table.records (outer : Env) : Table → List Record
  | .table schema name _ => db schema name
  | .subquery query _ => query.records outer

/-- A row that a left join finds no partner for gets one without columns. -/
def joinedRows (outer : Env) : List Join → List Env → List Env
  | [], rows => rows
  | ⟨kind, table, condition⟩ :: rest, rows =>
    joinedRows outer rest <| rows.flatMap fun env =>
      let partners := ((table.records outer).map fun r => (table.label, r) :: env).filter fun env =>
        conditionHolds condition [env] env
      match kind with
      | .inner => partners
      | .left => if partners.isEmpty then [(table.label, []) :: env] else partners

def itemRecord (own : Env) : List SelectItem → List Env → Env → Record
  | [], _, _ => own.reverse.flatMap Prod.snd
  | [item], group, env => itemCells own item group env
  | item :: rest, group, env => itemCells own item group env ++ itemRecord own rest group env

def itemCells (own : Env) : SelectItem → List Env → Env → Record
  | .wildcard, _, _ => own.reverse.flatMap Prod.snd
  | .expr e label, group, env => [(SelectItem.columnName e label, e.cell group env)]

def sortKeys : List SortKey → List Env → Env → List (Cell × Bool)
  | [], _, _ => []
  | ⟨e, ascending⟩ :: rest, group, env => (e.cell group env, ascending) :: sortKeys rest group env

def conditionHolds : Option SqlExpr → List Env → Env → Bool
  | none, _, _ => true
  | some e, group, env => (e.cell group env).isTrue

def optionCell : Option SqlExpr → List Env → Env → Cell
  | none, _, _ => .null
  | some e, group, env => e.cell group env

def listCells : List SqlExpr → List Env → Env → List Cell
  | [], _, _ => []
  | e :: rest, group, env => e.cell group env :: listCells rest group env

def armsCell : List (SqlExpr × SqlExpr) → List Env → Env → Option Cell
  | [], _, _ => none
  | (test, value) :: rest, group, env =>
    if (test.cell group env).isTrue then some (value.cell group env) else armsCell rest group env

/-- The value of an expression in the last record of the scope, its aggregates over the rows of a
group. -/
def SqlExpr.cell : SqlExpr → List Env → Env → Cell
  | .column (some label) name, _, env => env.cell label name
  | .column none name, _, env => env.anyCell name
  | .literal value, _, _ => value.cell
  | .param source, _, _ =>
    match arguments.resolve source with
    | .ok value => value.cell
    | .error _ => .null
  | .binary op left right, group, env =>
    engine.operate op (left.cell group env) (right.cell group env)
  | .unary .not operand, group, env => (operand.cell group env).opposite
  | .unary .minus operand, group, env => engine.minus (operand.cell group env)
  | .function name args, group, env => engine.call name (listCells args group env)
  | .aggregate name args distinct, group, _ =>
    engine.aggregated name distinct (group.map fun env => (listCells args [env] env).headD .null)
  | .cases arms otherwise, group, env =>
    (armsCell arms group env).getD (optionCell otherwise group env)
  | .subquery query, _, env => ((query.records env).head?.bind fun r => r.cells.head?).getD .null
  | .exist query negated, _, env => .bool ((query.records env).isEmpty == negated)
  | .isIn operand query negated, group, env =>
    let found := engine.among (operand.cell group env)
      ((query.records env).map fun r => r.cells.headD .null)
    if negated then found.opposite else found
  | .isNull operand negated, group, env => .bool ((operand.cell group env).isNull != negated)
  /- The star stands for the row, which is not null. -/
  | .wildcard, _, _ => .bool true
  | .nested inner, group, env => inner.cell group env

end

end

end SequenceQuery
