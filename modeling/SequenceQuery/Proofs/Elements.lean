import SequenceQuery.Catalog
import SequenceQuery.Data.Failure
import SequenceQuery.Proofs.Evaluation

namespace SequenceQuery

inductive Composite (α : Type)
  | one (a : α)
  | parts (fields : List (String × Composite α))

namespace Composite

variable {α β : Type}

mutual

def leaves : Composite α → List α
  | .one a => [a]
  | .parts fields => leavesOfFields fields

def leavesOfFields : List (String × Composite α) → List α
  | [] => []
  | (_, c) :: rest => c.leaves ++ leavesOfFields rest

end

mutual

def map (f : α → β) : Composite α → Composite β
  | .one a => .one (f a)
  | .parts fields => .parts (mapFields f fields)

def mapFields (f : α → β) : List (String × Composite α) → List (String × Composite β)
  | [] => []
  | (name, c) :: rest => (name, c.map f) :: mapFields f rest

end

/-- The part of that name, by exact name or else up to letter case. -/
def part? (c : Composite α) (name : String) : Option (Composite α) :=
  match c with
  | .one _ => none
  | .parts fields => (Text.findNamed? Prod.fst name fields).map Prod.snd

end Composite

def Segment.rows {α : Type} (s : Segment) (xs : List α) : List α :=
  SequenceQuery.page (s.length.map UInt64.toNat) s.start.toNat xs

abbrev Element := Composite Cell

abbrev ElementType := Composite Unit

def Composite.cell : Element → Cell
  | .one c => c
  | .parts _ => .null

namespace Entity

def compose {α : Type} (e : Entity) (f : Property → α) : Composite α :=
  .parts (e.properties.map fun p => (p.name, .one (f p)))

def element (e : Entity) (r : Record) : Element := e.compose fun p => r.cell p.column

def type (e : Entity) : ElementType := e.compose fun _ => ()

end Entity

def Dialect.callee (d : Dialect) (name : String) : String :=
  (d.functionName (Text.lower name)).getD name

namespace Engine

variable (engine : Engine)

/-- Next to a null that is written out, null is a value that equals itself. -/
def compute (op : BinaryOp) (besideNull : Bool) (a b : Cell) : Cell :=
  match op with
  | .equal => if besideNull then .bool (a.isNull && b.isNull) else engine.binary .eq a b
  | .notEqual => if besideNull then .bool !(a.isNull && b.isNull) else engine.binary .notEq a b
  | .lessThan => engine.binary .lt a b
  | .lessThanOrEqual => engine.binary .ltEq a b
  | .greaterThan => engine.binary .gt a b
  | .greaterThanOrEqual => engine.binary .gtEq a b
  | .and => a.both b
  | .or => a.either b
  | .add => engine.binary .plus a b
  | .subtract => engine.binary .minus a b
  | .multiply => engine.binary .multiply a b
  | .divide => engine.binary .divide a b
  | .modulo => engine.binary .modulo a b
  | .coalesce => .firstKnown [a, b]

def pattern? (name : String) (needle : Cell) : Option Cell :=
  let any := Cell.text "%"
  match name with
  | "contains" => some (engine.binary .concat (engine.binary .concat any needle) any)
  | "starts_with" => some (engine.binary .concat needle any)
  | "ends_with" => some (engine.binary .concat any needle)
  | _ => none

def search? (name : String) : List Cell → Option Cell
  | [text, needle] => (engine.pattern? name needle).map (engine.binary .like text)
  | _ => none

def applied (callee : String → String) (name : String) (args : List Cell) : Cell :=
  (engine.search? (Text.lower name) args).getD (engine.call (callee name) args)

end Engine

namespace Expr

def isCall : Expr → Bool
  | .call .. => true
  | _ => false

def isReference : Expr → Bool
  | .param .. | .member .. => true
  | _ => false

def operatorFree (e : Expr) : Bool := e.nodes.all fun n => !n.isCall

mutual

/-- The parts that the values of an expression have, given those of its parameters and of what is one
value. -/
def partsIn {α : Type} (a : α) (scope : List (String × Composite α)) : Expr → Composite α
  | .param _ name => (scope.lookup name).getD (.one a)
  | .member _ target name => ((target.partsIn a scope).part? name).getD (.one a)
  | .object _ fields => .parts (fieldPartsIn a scope fields)
  | _ => .one a

def fieldPartsIn {α : Type} (a : α) (scope : List (String × Composite α)) :
    List (String × Expr) → List (String × Composite α)
  | [] => []
  | (name, e) :: rest => (name, e.partsIn a scope) :: fieldPartsIn a scope rest

end

def typeIn (types : List (String × ElementType)) (e : Expr) : ElementType := e.partsIn () types

section

variable (engine : Engine) (callee : String → String)

mutual

def element (scope : List (String × Element)) : Expr → Element
  | .param _ name => (scope.lookup name).getD (.one .null)
  | .member _ target name => ((target.element scope).part? name).getD (.one .null)
  | .const _ value => .one value.cell
  | .binary _ op left right =>
    .one (engine.compute op (left.isNull || right.isNull) (left.element scope).cell
      (right.element scope).cell)
  | .unary _ .not operand => .one (operand.element scope).cell.opposite
  | .unary _ .negate operand => .one (engine.minus (operand.element scope).cell)
  | .function _ name args => .one (engine.applied callee name (argumentCells scope args))
  | .object _ fields => .parts (fieldElements scope fields)
  | .conditional _ test ifTrue ifFalse =>
    .one (if (test.element scope).cell.isTrue then (ifTrue.element scope).cell
      else (ifFalse.element scope).cell)
  | .entity .. | .call .. | .lambda .. | .segment .. => .one .null

def argumentCells (scope : List (String × Element)) : List Expr → List Cell
  | [] => []
  | e :: rest => (e.element scope).cell :: argumentCells scope rest

def fieldElements (scope : List (String × Element)) :
    List (String × Expr) → List (String × Element)
  | [] => []
  | (name, e) :: rest => (name, e.element scope) :: fieldElements scope rest

end

/-- Whether an element satisfies a predicate; it does not when that is unknown. -/
def accepts (p : String) (body : Expr) (x : Element) : Bool :=
  (body.element engine callee [(p, x)]).cell.isTrue

variable (catalog : Catalog) (db : Database)

def elements : Expr → List Element
  | .entity _ name =>
    match catalog.entity? name with
    | some e => (db e.schema e.table).map e.element
    | none => []
  | .call _ .filter [source, .lambda _ [p] body] =>
    source.elements.filter (body.accepts engine callee p)
  | .call _ .project [source, .lambda _ [p] body] =>
    source.elements.map fun x => body.element engine callee [(p, x)]
  | .call _ .distinct [source] =>
    keepFirst (fun x y => engine.sameCells x.leaves y.leaves) source.elements
  | .call _ .skip [source, .const _ (.int n)] => source.elements.drop n.toInt.toNat
  | .call _ .take [source, .const _ (.int n)] => source.elements.take n.toInt.toNat
  | .call _ .segment [source, .segment _ s] => s.rows source.elements
  | _ => []

def endingElements : List Expr → List Element
  | [source] => source.elements engine callee catalog db
  | [source, .lambda _ [p] body] =>
    (source.elements engine callee catalog db).filter (body.accepts engine callee p)
  | _ => []

end

end Expr

/-- The pipelines over one entity, with what their elements are made of. -/
inductive Pipeline (catalog : Catalog) (entity : Entity) : Expr → ElementType → Prop
  | entity {id : NodeId} {name : String} (h : catalog.entity? name = some entity) :
    Pipeline catalog entity (.entity id name) entity.type
  | filter {id i : NodeId} {source body : Expr} {p : String} {t : ElementType}
    (h : Pipeline catalog entity source t) (hbody : body.operatorFree) :
    Pipeline catalog entity (.call id .filter [source, .lambda i [p] body]) t
  /-- What is selected has at least one column. -/
  | project {id i : NodeId} {source body : Expr} {p : String} {t : ElementType}
    (h : Pipeline catalog entity source t) (hbody : body.operatorFree)
    (hcolumns : (body.typeIn [(p, t)]).leaves ≠ []) :
    Pipeline catalog entity (.call id .project [source, .lambda i [p] body])
      (body.typeIn [(p, t)])
  | distinct {id : NodeId} {source : Expr} {t : ElementType}
    (h : Pipeline catalog entity source t) :
    Pipeline catalog entity (.call id .distinct [source]) t
  | skip {id i : NodeId} {source : Expr} {n : Int64} {t : ElementType}
    (h : Pipeline catalog entity source t) (hn : 0 ≤ n) :
    Pipeline catalog entity (.call id .skip [source, .const i (.int n)]) t
  | take {id i : NodeId} {source : Expr} {n : Int64} {t : ElementType}
    (h : Pipeline catalog entity source t) (hn : 0 ≤ n) :
    Pipeline catalog entity (.call id .take [source, .const i (.int n)]) t
  | segment {id i : NodeId} {source : Expr} {s : Segment} {t : ElementType}
    (h : Pipeline catalog entity source t) :
    Pipeline catalog entity (.call id .segment [source, .segment i s]) t

def Operator.isEnding : Operator → Bool
  | .count | .longCount | .first | .firstOrDefault | .single | .singleOrDefault => true
  | _ => false

inductive Query (catalog : Catalog) (entity : Entity) : Expr → Prop
  | sequence {e : Expr} {t : ElementType} (h : Pipeline catalog entity e t) :
    Query catalog entity e
  | ending {id : NodeId} {op : Operator} {source : Expr} {t : ElementType} (hop : op.isEnding)
    (h : Pipeline catalog entity source t) : Query catalog entity (.call id op [source])
  | endingWhere {id i : NodeId} {op : Operator} {source body : Expr} {p : String}
    {t : ElementType} (hop : op.isEnding) (h : Pipeline catalog entity source t)
    (hbody : body.operatorFree) :
    Query catalog entity (.call id op [source, .lambda i [p] body])

inductive Answer
  | rows (rows : List (List Cell))
  | row (cells : List Cell)
  | value (c : Cell)
  | nothing

def QueryResult.answer : QueryResult → Answer
  | .rows rs => .rows (rs.map Row.values)
  | .row r => .row r.values
  | .scalar c => .value c
  | .null => .nothing

def Operator.answer (op : Operator) (xs : List Element) : Except QueryError Answer :=
  match op, xs with
  | .count, _ | .longCount, _ => .ok (.value (.ofCount xs.length))
  | .first, [] | .single, [] => .error QueryError.noElements
  | .firstOrDefault, [] | .singleOrDefault, [] => .ok .nothing
  | .first, x :: _ | .firstOrDefault, x :: _ => .ok (.row x.leaves)
  | .single, [x] | .singleOrDefault, [x] => .ok (.row x.leaves)
  | .single, _ | .singleOrDefault, _ => .error QueryError.moreThanOneElement
  | _, _ => .ok (.rows (xs.map Composite.leaves))

def Expr.answer (engine : Engine) (callee : String → String) (catalog : Catalog) (db : Database)
    (e : Expr) : Except QueryError Answer :=
  match e with
  | .call _ op args =>
    op.answer (if op.isEnding then Expr.endingElements engine callee catalog db args
      else e.elements engine callee catalog db)
  | e => .ok (.rows ((e.elements engine callee catalog db).map Composite.leaves))

end SequenceQuery
