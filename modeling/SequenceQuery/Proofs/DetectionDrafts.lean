import SequenceQuery.Form.Basic
import SequenceQuery.Proofs.Composition
import SequenceQuery.Proofs.Detectors

namespace SequenceQuery

/-- Whether the paging steps below a paging marker are of its run. -/
def Operator.leadsRun : Operator → Bool
  | .segment => false
  | _ => true

/-- What a node means to those who only draw sketches of its statements. -/
structure Draft where
  node : Expr
  rows : (inRun : Bool) → List (String × Sketch) → RowsSketch
  value : List (String × Sketch) → Sketch
  apply : List (String × Sketch) → List Sketch → Sketch

namespace Draft

def missing : Draft :=
  ⟨.entity 0 "", fun _ _ => ⟨.value false false, false, false, false, false, false, false, false, false⟩,
    fun _ => .value false false, fun _ _ => .value false false⟩

def argument (args : List Draft) (i : Nat) : Draft := args[i]?.getD missing

section Sequences

variable (sought : Sought) (env : Surroundings) (node : Expr) (op : Operator) (args : List Draft)
  (scope : List (String × Sketch))

def restrict (rows : RowsSketch) (predicate : Draft) : RowsSketch :=
  let rows := rows.wrapIf (!rows.row.isGroup && (rows.hasPaging || rows.distinct || rows.groups))
  rows.adding (predicate.apply scope [rows.row]).found

def join : RowsSketch :=
  let outer := (argument args 0).rows false scope
  let outer := outer.wrapIf (outer.hasPaging || outer.distinct || outer.groups)
  let inner := (argument args 1).rows false scope
  let inner := inner.wrapIf !inner.isBareTable
  let keys := ((argument args 2).apply scope [outer.row]).leaves ++
    ((argument args 3).apply scope [inner.row]).leaves
  { outer.adding (inner.clauses || keys.any Prod.fst) with
    row := (argument args 4).apply scope [outer.row, inner.row] }

def order (restart : Bool) : RowsSketch :=
  let rows := (argument args 0).rows false scope
  let rows := rows.wrapIf (rows.hasPaging || rows.distinct)
  let keys := ((argument args 1).apply scope [rows.row]).leaves
  { rows with
    order := !restart && rows.order || keys.any Prod.fst
    ordered := !restart && rows.ordered || !keys.isEmpty }

def grouped (selector : Option Draft) (row : Sketch) : Sketch :=
  match selector with
  | some d => d.apply scope [row]
  | none => row

def group : RowsSketch :=
  let rows := (argument args 0).rows false scope
  let rows := rows.wrapIf (rows.hasPaging || rows.distinct || rows.groups)
  let key := (argument args 1).apply scope [rows.row]
  { rows with
    row := .group key (grouped scope args[2]? rows.row)
    clauses := rows.clauses || key.leaves.any Prod.fst
    groups := !key.leaves.isEmpty }

def operate : RowsSketch :=
  let rows := (argument args 0).rows false scope
  match op with
  | .filter => restrict scope rows (argument args 1)
  | .project =>
    let rows := rows.wrapIf rows.distinct
    { rows with row := (argument args 1).apply scope [rows.row] }
  | .orderBy | .orderByDescending => order args scope true
  | .thenBy | .thenByDescending => order args scope false
  | .skip => (rows.wrapIf rows.hasPaging).withOffset ((argument args 1).value scope).found
  | .take => (rows.wrapIf rows.limit).withLimit ((argument args 1).value scope).found
  | .segment => ((rows.wrapIf rows.hasPaging).withOffset false).withLimit false
  | .distinct => { rows.wrapIf rows.hasPaging with distinct := true }
  | .groupBy => group args scope
  | .join | .leftJoin => join args scope
  | _ => rows

def page (inRun : Bool) : RowsSketch :=
  let rows := (argument args 0).rows inRun scope
  ((rows.wrapIf rows.hasPaging).withLimit sought.segment).withOffset sought.segment

def sequence (inRun : Bool) : RowsSketch :=
  if inRun && node.isPagingStep then (argument args 0).rows true scope
  else if env.marker = some node.id then page sought args scope op.leadsRun
  else operate op args scope

def filtered : RowsSketch :=
  let rows := (argument args 0).rows false scope
  match args[1]? with
  | some predicate => restrict scope rows predicate
  | none => rows

def selected (selector : Option Draft) (row : Sketch) : Bool :=
  match selector with
  | some d => (d.apply scope [row]).found
  | none => row.found

/-- Whether something is found in the statement of a terminal operator. -/
def terminal : Bool :=
  match op with
  | .first | .firstOrDefault | .single | .singleOrDefault =>
    let rows := filtered args scope
    (rows.wrapIf rows.limit).projected
  | .count | .longCount => (filtered args scope).forAggregate.clauses
  | .any =>
    let rows := (filtered args scope).orderedOnlyIfPaged
    rows.clauses || rows.order
  | .all =>
    let rows := (restrict scope ((argument args 0).rows false scope)
      (argument args 1)).orderedOnlyIfPaged
    rows.clauses || rows.order
  | .contains =>
    let rows := ((argument args 0).rows false scope).orderedOnlyIfPaged
    ((argument args 1).value scope).found || rows.projected
  | .sum | .min | .max | .average =>
    let rows := ((argument args 0).rows false scope).forAggregate
    rows.clauses || selected scope args[1]? rows.row
  | _ => false

def groupElement? : Option Sketch :=
  match args with
  | [] => none
  | source :: _ =>
    if source.node.isReference then (source.value scope).element? else none

def ofGroup (rest : List Draft) (element : Sketch) : Bool :=
  match op with
  | .count | .longCount => rest[0]?.any fun predicate => (predicate.apply scope [element]).found
  | _ => selected scope rest[0]? element

def call : Sketch :=
  match groupElement? args scope with
  | some element => .value (ofGroup op scope (args.drop 1) element) false
  | none => .value (terminal op args scope) (sought.test && op.tests)

def nullOperand? (op : BinaryOp) (left right : Draft) : Option Draft :=
  match op with
  | .equal | .notEqual =>
    if right.node.isNull then some left else if left.node.isNull then some right else none
  | _ => none

def binary (op : BinaryOp) (left right : Draft) : Bool :=
  match nullOperand? op left right with
  | some operand => (operand.value scope).found
  | none => (left.value scope).found || (right.value scope).found

end Sequences

def ofEntity (env : Surroundings) (node : Expr) (name : String) : Draft :=
  { missing with
    node := node
    rows := fun _ _ => ⟨(env.catalog.entity? name).elim (.value false false) .ofEntity,
      false, false, false, false, false, false, false, true⟩ }

def ofCall (sought : Sought) (env : Surroundings) (node : Expr) (op : Operator) (args : List Draft) :
    Draft :=
  { missing with
    node := node
    rows := fun inRun scope => sequence sought env node op args scope inRun
    value := call sought op args }

def ofLambda (node : Expr) (params : List String) (body : Draft) : Draft :=
  { missing with
    node := node
    apply := fun scope elements => body.value ((params.zip elements).reverse ++ scope) }

def ofValue (node : Expr) (value : List (String × Sketch) → Sketch) : Draft :=
  { missing with node := node, value := value }

def ofScalar (node : Expr) (found : List (String × Sketch) → Bool) : Draft :=
  ofValue node fun scope => .value (found scope) false

def fields (scope : List (String × Sketch)) : List (String × Draft) → List (String × Sketch)
  | [] => []
  | (name, d) :: rest => (name, d.value scope) :: fields scope rest

end Draft

mutual

def Expr.draft (sought : Sought) (env : Surroundings) : Expr → Draft
  | e@(.entity _ name) => .ofEntity env e name
  | e@(.call _ op args) => .ofCall sought env e op (drafts sought env args)
  | e@(.lambda _ params body) => .ofLambda e params (body.draft sought env)
  | e@(.param _ name) => .ofValue e fun scope => (scope.lookup name).getD (.value false false)
  | e@(.member _ target name) =>
    let target := target.draft sought env
    .ofValue e fun scope => ((target.value scope).part? name).getD (.value false false)
  | e@(.const ..) | e@(.segment ..) => .ofScalar e fun _ => false
  | e@(.binary _ op left right) =>
    let left := left.draft sought env
    let right := right.draft sought env
    .ofScalar e fun scope => Draft.binary scope op left right
  | e@(.unary _ _ operand) =>
    let operand := operand.draft sought env
    .ofScalar e fun scope => (operand.value scope).found
  | e@(.function _ _ args) =>
    let args := drafts sought env args
    .ofScalar e fun scope => args.any fun d => (d.value scope).found
  | e@(.object _ fields) =>
    let fields := fieldDrafts sought env fields
    .ofValue e fun scope => .parts (Draft.fields scope fields)
  | e@(.conditional _ test ifTrue ifFalse) =>
    let test := test.draft sought env
    let ifTrue := ifTrue.draft sought env
    let ifFalse := ifFalse.draft sought env
    .ofScalar e fun scope => (test.value scope).found || (ifTrue.value scope).found ||
      (ifFalse.value scope).found

def drafts (sought : Sought) (env : Surroundings) : List Expr → List Draft
  | [] => []
  | e :: rest => e.draft sought env :: drafts sought env rest

def fieldDrafts (sought : Sought) (env : Surroundings) :
    List (String × Expr) → List (String × Draft)
  | [] => []
  | (name, e) :: rest => (name, e.draft sought env) :: fieldDrafts sought env rest

end

/-- Whether something is found in the statement of a query. -/
def Expr.finds (sought : Sought) (env : Surroundings) (e : Expr) : Bool :=
  match e with
  | .call _ op args =>
    if op.isTerminal then
      Draft.terminal op (drafts sought env args) [] ||
        (sought.test && op.tests && env.dialect.capabilities.existsProjection)
    else ((e.draft sought env).rows false []).projected
  | _ => ((e.draft sought env).rows false []).projected

end SequenceQuery
