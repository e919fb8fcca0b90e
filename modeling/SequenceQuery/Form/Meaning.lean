import SequenceQuery.Expr.Slots
import SequenceQuery.Expr.Paging
import SequenceQuery.Form.Rows

namespace SequenceQuery

structure Surroundings where
  catalog : Catalog
  dialect : Dialect
  slots : List (NodeId × Nat)
  /-- The outermost call of the paging marker. -/
  marker : Option NodeId

namespace Surroundings

def slot? (s : Surroundings) (id : NodeId) : Option Nat :=
  (s.slots.reverse.find? fun entry => entry.1 == id).map Prod.snd

def mustPage (s : Surroundings) (node : Expr) : Except Failure Unit :=
  if s.dialect.capabilities.paging then .ok ()
  else .error ⟨node, .lacking s.dialect.name "paging"⟩

end Surroundings

/-- Lambda parameters in scope, the innermost first. -/
abbrev Scope := List (String × Binding)

structure Meaning where
  node : Expr
  /-- As a sequence; below a paging marker the steps of its run are passed over. -/
  asSequence : (inRun : Bool) → Scope → Build Rows
  asBinding : Scope → Build Binding
  /-- As a lambda applied to elements. -/
  apply : Scope → List Binding → Build Binding

namespace Meaning

def asScalar (m : Meaning) (scope : Scope) : Build Scalar := do
  (← m.asBinding scope).asScalar m.node

def applyScalar (m : Meaning) (scope : Scope) (element : Binding) : Build Scalar := do
  let b ← m.apply scope [element]
  b.asScalar (match m.node with | .lambda _ _ body => body | node => node)

def scalars (scope : Scope) : List Meaning → Build (List Scalar)
  | [] => return []
  | m :: rest => do
    let s ← m.asScalar scope
    return s :: (← scalars scope rest)

def bindFields (scope : Scope) : List (String × Meaning) → Build (List (String × Binding))
  | [] => return []
  | (name, m) :: rest => do
    let b ← m.asBinding scope
    return (name, b) :: (← bindFields scope rest)

end Meaning

def argument (node : Expr) (args : List Meaning) (index : Nat) : Except Failure Meaning :=
  match args[index]? with
  | some m => .ok m
  | none => unsupported node (.missingArgument index)

theorem getElem?_of_argument {node : Expr} {args : List Meaning} {i : Nat} {m : Meaning}
    (h : argument node args i = .ok m) : args[i]? = some m := by
  rw [argument] at h
  cases hi : args[i]? with
  | none => rw [hi] at h; cases h
  | some found =>
    rw [hi] at h
    exact congrArg some (Except.ok.inj h)

theorem mem_of_argument {node : Expr} {args : List Meaning} {i : Nat} {m : Meaning}
    (h : argument node args i = .ok m) : m ∈ args :=
  List.mem_of_getElem? (getElem?_of_argument h)

def negateIf (negate : Bool) (e : SqlExpr) : SqlExpr := if negate then .not e else e

/-- Keeps the rows that satisfy a predicate, or with `negate` those that fail it. Groups are
restricted by HAVING. -/
def restrict (rows : Rows) (predicate : Meaning) (negate : Bool) (node : Expr) (scope : Scope) :
    Build Rows := do
  let s := rows.select
  if rows.row.isGroup then
    if s.hasPaging || s.distinct then unsupported node .filterPagedGrouping
    let p ← predicate.applyScalar scope rows.row
    return { rows with select := s.havingBy (negateIf negate p.expr) }
  else
    let rows ← rows.wrapIf (s.hasPaging || s.distinct || s.hasGroups) node
    let p ← predicate.applyScalar scope rows.row
    return { rows with select := rows.select.filterBy (negateIf negate p.expr) }

def matching : List Scalar → List Scalar → Option SqlExpr
  | l :: ls, r :: rs =>
    some <| (ls.zip rs).foldl
      (fun e (l, r) => .and e (.binary .eq l.expr r.expr)) (.binary .eq l.expr r.expr)
  | _, _ => none

def joinRows (kind : JoinKind) (node : Expr) (args : List Meaning) (scope : Scope) :
    Build Rows := do
  let outer ← (← argument node args 0).asSequence false scope
  let s := outer.select
  let outer ← outer.wrapIf (s.hasPaging || s.distinct || s.hasGroups) node
  let inner ← (← argument node args 1).asSequence false scope
  let inner ← inner.wrapIf (!inner.select.isBareTable) node
  match inner.select.source with
  | none => unsupported node .joinSource
  | some table =>
    let outerKey ← (← argument node args 2).apply scope [outer.row]
    let innerKey ← (← argument node args 3).apply scope [inner.row]
    let outerKeys ← outerKey.scalars node
    let innerKeys ← innerKey.scalars node
    if outerKeys.length != innerKeys.length || outerKeys.isEmpty then unsupported node .joinKeys
    let innerRow := match kind with
      | .inner => inner.row
      | .left => inner.row.asOptional
    let join : Join := ⟨kind, table, matching outerKeys innerKeys⟩
    let row ← (← argument node args 4).apply scope [outer.row, innerRow]
    return ⟨{ outer.select with joins := outer.select.joins ++ [join] }, row⟩

def JoinKind.innerRow (kind : JoinKind) (row : Binding) : Binding :=
  match kind with
  | .inner => row
  | .left => row.asOptional

theorem JoinKind.innerRow_eq (kind : JoinKind) (row : Binding) :
    kind.innerRow row = row ∨ kind.innerRow row = row.asOptional := by
  cases kind with
  | inner => exact .inl rfl
  | left => exact .inr rfl

def orderRows (restart ascending : Bool) (node : Expr) (args : List Meaning) (scope : Scope) :
    Build Rows := do
  let rows ← (← argument node args 0).asSequence false scope
  let rows ← rows.wrapIf (rows.select.hasPaging || rows.select.distinct) node
  let key ← (← argument node args 1).apply scope [rows.row]
  let keys := (← key.scalars node).map fun s => ⟨s.expr, ascending⟩
  let before := if restart then [] else rows.select.orderBy
  return { rows with select := { rows.select with orderBy := before ++ keys } }

/-- A call as a sequence, apart from the paging marker. -/
def callRows (env : Surroundings) (node : Expr) (op : Operator) (args : List Meaning)
    (scope : Scope) : Build Rows := do
  let source ← argument node args 0
  match op with
  | .filter =>
    let rows ← source.asSequence false scope
    restrict rows (← argument node args 1) false node scope
  | .project =>
    let rows ← source.asSequence false scope
    let rows ← rows.wrapIf rows.select.distinct node
    let row ← (← argument node args 1).apply scope [rows.row]
    return { rows with row := row }
  | .orderBy => orderRows true true node args scope
  | .orderByDescending => orderRows true false node args scope
  | .thenBy => orderRows false true node args scope
  | .thenByDescending => orderRows false false node args scope
  | .skip =>
    env.mustPage node
    let rows ← source.asSequence false scope
    let count ← (← argument node args 1).asScalar scope
    let rows ← rows.wrapIf rows.select.hasPaging node
    return rows.withOffset count.expr
  | .take =>
    env.mustPage node
    let rows ← source.asSequence false scope
    let count ← (← argument node args 1).asScalar scope
    let rows ← rows.wrapIf rows.select.limit.isSome node
    return rows.withLimit count.expr
  | .segment =>
    env.mustPage node
    let rows ← source.asSequence false scope
    let segment ← argument node args 1
    match env.slot? segment.node.id with
    | none => unsupported segment.node .segmentArgument
    | some slot =>
      let rows ← rows.wrapIf rows.select.hasPaging node
      return (rows.withOffset (.param (.slot slot))).withLimit (.param (.slot (slot + 1)))
  | .distinct =>
    let rows ← source.asSequence false scope
    let rows ← rows.wrapIf rows.select.hasPaging node
    if rows.row.isGroup then unsupported node .distinctGrouping
    return { rows with select := { rows.select with distinct := true } }
  | .groupBy =>
    let rows ← source.asSequence false scope
    let s := rows.select
    let rows ← rows.wrapIf (s.hasPaging || s.distinct || s.hasGroups) node
    let key ← (← argument node args 1).apply scope [rows.row]
    let element ← match args[2]? with
      | some selector => selector.apply scope [rows.row]
      | none => pure rows.row
    let keys ← key.scalars node
    return ⟨{ rows.select with groupBy := keys.map Scalar.expr }, .group key element⟩
  | .join => joinRows .inner node args scope
  | .leftJoin => joinRows .left node args scope
  | _ => throw ⟨node, .unsupportedOperator op⟩

/-- The paging marker: its segment is asked for when the command is run. -/
def markerRows (env : Surroundings) (node : Expr) (op : Operator) (args : List Meaning)
    (scope : Scope) : Build Rows := do
  env.mustPage node
  let inRun := match op with
    | .segment => false
    | _ => true
  let rows ← (← argument node args 0).asSequence inRun scope
  let rows ← rows.wrapIf rows.select.hasPaging node
  modify fun p => { p with segmentUsed := true }
  let paged := (rows.withLimit (.param .segmentLength)).withOffset (.param .segmentStart)
  return paged.withOrigin node

def sequenceOfCall (env : Surroundings) (node : Expr) (op : Operator) (args : List Meaning)
    (inRun : Bool) (scope : Scope) : Build Rows := do
  if inRun && node.isPagingStep then (← argument node args 0).asSequence true scope
  else if env.marker = some node.id then markerRows env node op args scope
  else return (← callRows env node op args scope).withOrigin node

def filtered (node : Expr) (source : Meaning) (predicate : Option Meaning) (scope : Scope) :
    Build Rows := do
  let rows ← source.asSequence false scope
  match predicate with
  | some p => restrict rows p false node scope
  | none => return rows

def selected (node : Expr) (selector : Option Meaning) (row : Binding) (scope : Scope) :
    Build Scalar :=
  match selector with
  | some m => m.applyScalar scope row
  | none => row.asScalar node

def singleRow (node : Expr) (args : List Meaning) (nullable unique : Bool) (scope : Scope) :
    Build Terminal := do
  let rows ← filtered node (← argument node args 0) args[1]? scope
  let rows ← rows.wrapIf rows.select.limit.isSome node
  let rows := rows.withLimit (.int (if unique then 2 else 1))
  return .single (← rows.project node) rows.row nullable unique

def terminal (node : Expr) (op : Operator) (args : List Meaning) (scope : Scope) :
    Build Terminal := do
  let source ← argument node args 0
  match op with
  | .first => singleRow node args false false scope
  | .firstOrDefault => singleRow node args true false scope
  | .single => singleRow node args false true scope
  | .singleOrDefault => singleRow node args true true scope
  | .count | .longCount =>
    let rows ← filtered node source args[1]? scope
    let rows ← rows.forAggregate node
    return .scalar (rows.selecting .countRows) false
  | .any =>
    let rows ← filtered node source args[1]? scope
    return .exist (rows.orderedOnlyIfPaged.selecting (.int 1)) false
  | .all =>
    let rows ← source.asSequence false scope
    let rows ← restrict rows (← argument node args 1) true node scope
    return .exist (rows.orderedOnlyIfPaged.selecting (.int 1)) true
  | .contains =>
    let rows ← source.asSequence false scope
    match rows.row with
    | .scalar element =>
      let value ← (← argument node args 1).asScalar scope
      return .isIn value.expr (rows.orderedOnlyIfPaged.selecting element.expr)
    | _ => unsupported node .containsElement
  | .sum | .min | .max | .average =>
    let rows ← source.asSequence false scope
    let rows ← rows.forAggregate node
    let value ← selected node args[1]? rows.row scope
    let result := aggregateOver op value
    return .scalar (rows.selecting result.expr) result.nullable
  | _ => throw ⟨node, .unsupportedOperator op⟩

/-- An aggregate over the elements of a group, when the source is one. -/
def aggregateOfGroup (node : Expr) (op : Operator) (args : List Meaning) (scope : Scope) :
    Build (Option Scalar) := do
  match args with
  | [] => return none
  | source :: rest =>
    match source.node with
    | .param .. | .member .. =>
      match ← source.asBinding scope with
      | .group _ element =>
        match op with
        | .count | .longCount =>
          match rest[0]? with
          | none => return some ⟨.countRows, false⟩
          | some predicate =>
            let p ← predicate.applyScalar scope element
            return some ⟨.aggregateOf "COUNT" [.cases [(p.expr, .int 1)] none], false⟩
        | .sum | .min | .max | .average =>
          return some (aggregateOver op (← selected node rest[0]? element scope))
        | _ => throw ⟨node, .unsupportedOperator op⟩
      | _ => return none
    | _ => return none

/-- An operator used as a value: an aggregate over a group, or a subquery. -/
def scalarOfCall (node : Expr) (op : Operator) (args : List Meaning) (scope : Scope) :
    Build Scalar := do
  match ← aggregateOfGroup node op args scope with
  | some s => return s
  | none =>
    if !op.isTerminal then unsupported node .sequenceAsValue
    match ← terminal node op args scope with
    | .single select (.scalar _) _ _ => return ⟨.subquery select, true⟩
    | .single .. => unsupported node .subqueryColumns
    | .exist select negated => return ⟨.exist select negated, false⟩
    | .scalar select nullable => return ⟨.subquery select, nullable⟩
    | .isIn value select => return ⟨.isIn value select false, false⟩

def sqlBinary? : BinaryOp → Option SqlBinary
  | .equal => some .eq
  | .notEqual => some .notEq
  | .lessThan => some .lt
  | .lessThanOrEqual => some .ltEq
  | .greaterThan => some .gt
  | .greaterThanOrEqual => some .gtEq
  | .and => some .and
  | .or => some .or
  | .add => some .plus
  | .subtract => some .minus
  | .multiply => some .multiply
  | .divide => some .divide
  | .modulo => some .modulo
  | .coalesce => none

/-- The operand of a comparison whose other side is a null literal, and whether it is negated. -/
def nullTest? (op : BinaryOp) (left right : Meaning) : Option (Meaning × Bool) :=
  let operand := if right.node.isNull then some left
    else if left.node.isNull then some right else none
  match op with
  | .equal => operand.map fun m => (m, false)
  | .notEqual => operand.map fun m => (m, true)
  | _ => none

def scalarOfBinary (op : BinaryOp) (left right : Meaning) (scope : Scope) : Build Scalar := do
  match nullTest? op left right with
  | some (operand, negated) => return ⟨.isNull (← operand.asScalar scope).expr negated, false⟩
  | none =>
    let l ← left.asScalar scope
    let r ← right.asScalar scope
    match sqlBinary? op with
    | some op => return ⟨.binary op l.expr r.expr, l.nullable || r.nullable⟩
    | none => return ⟨.coalesce [l.expr, r.expr], l.nullable && r.nullable⟩

def searchPattern? (name : String) (needle : SqlExpr) : Option SqlExpr :=
  let any : SqlExpr := .literal (.text "%")
  match name with
  | "contains" => some (.binary .concat (.binary .concat any needle) any)
  | "starts_with" => some (.binary .concat needle any)
  | "ends_with" => some (.binary .concat any needle)
  | _ => none

def isSearch (name : String) : Bool := (searchPattern? name .wildcard).isSome

def scalarOfFunction (env : Surroundings) (node : Expr) (name : String) (args : List Meaning)
    (scope : Scope) : Build Scalar := do
  let portable := Text.lower name
  if isSearch portable && args.length == 2 then
    let text ← (← argument node args 0).asScalar scope
    let needle ← (← argument node args 1).asScalar scope
    let pattern := (searchPattern? portable needle.expr).getD needle.expr
    return ⟨.binary .like text.expr pattern, text.nullable⟩
  else
    let scalars ← Meaning.scalars scope args
    let name ← match env.dialect.functionName portable with
      | some mapped => pure mapped
      | none =>
        if env.dialect.capabilities.passthroughFunctions then pure name
        else throw ⟨node, .unsupportedFunction name⟩
    return ⟨.function name (scalars.map Scalar.expr), scalars.any Scalar.nullable⟩

def lookUp (scope : Scope) (name : String) (node : Expr) : Except Failure Binding :=
  match scope.lookup name with
  | some b => .ok b
  | none => .error ⟨node, .unboundParameter name⟩

theorem lookUp_ok {scope : Scope} {name : String} {node : Expr} {b : Binding}
    (h : lookUp scope name node = .ok b) : scope.lookup name = some b := by
  rw [lookUp] at h
  cases hfound : scope.lookup name with
  | none => rw [hfound] at h; cases h
  | some found =>
    rw [hfound] at h
    exact congrArg some (Except.ok.inj h)

theorem mem_of_lookUp {scope : Scope} {name : String} {node : Expr} {b : Binding}
    (h : lookUp scope name node = .ok b) : (name, b) ∈ scope := by
  obtain ⟨before, after, rfl, -⟩ := List.lookup_eq_some_iff.1 (lookUp_ok h)
  exact List.mem_append_right _ List.mem_cons_self

namespace Meaning

def notALambda (node : Expr) : Scope → List Binding → Build Binding :=
  fun _ _ => unsupported node .notALambda

def notASequence (node : Expr) : Bool → Scope → Build Rows :=
  fun _ _ => unsupported node .notASequence

/-- A node that is neither a sequence nor a lambda. -/
def ofScalar (node : Expr) (scalar : Scope → Build Scalar) : Meaning where
  node := node
  asSequence := notASequence node
  asBinding scope := return .scalar (← scalar scope)
  apply := notALambda node

def ofBinding (node : Expr) (reason : Unsupported) (binding : Scope → Build Binding) :
    Meaning where
  node := node
  asSequence _ _ := unsupported node reason
  asBinding := binding
  apply := notALambda node

def ofEntity (env : Surroundings) (node : Expr) (name : String) : Meaning where
  node := node
  asSequence _ _ := do
    match env.catalog.entity? name with
    | none => throw ⟨node, .unknownEntity name⟩
    | some entity =>
      let label ← freshLabel
      let rows : Rows := ⟨.ofTable (.table entity.schema entity.table label),
        .record label entity "" false⟩
      return rows.withOrigin node
  asBinding _ := unsupported node .notAValue
  apply := notALambda node

def ofLambda (node : Expr) (params : List String) (body : Meaning) : Meaning where
  node := node
  asSequence := notASequence node
  asBinding _ := unsupported node .notAValue
  apply scope elements :=
    if params.length = elements.length then
      body.asBinding ((params.zip elements).reverse ++ scope)
    else unsupported node (.lambdaArity elements.length)

def ofCall (env : Surroundings) (node : Expr) (op : Operator) (args : List Meaning) : Meaning where
  node := node
  asSequence := sequenceOfCall env node op args
  asBinding scope := return .scalar (← scalarOfCall node op args scope)
  apply := notALambda node

/-- A null is written into the command; every other constant is bound by its slot. -/
def ofConstant (env : Surroundings) (node : Expr) (value : Value) : Meaning :=
  ofScalar node fun _ =>
    if value.isNull then return ⟨.literal .null, true⟩
    else match env.slot? node.id with
      | some slot => return ⟨.param (.slot slot), false⟩
      | none => unsupported node .foreignConstant

end Meaning

mutual

def Expr.meaning (env : Surroundings) : Expr → Meaning
  | e@(.entity _ name) => .ofEntity env e name
  | e@(.call _ op args) => .ofCall env e op (meanings env args)
  | e@(.lambda _ params body) => .ofLambda e params (body.meaning env)
  | e@(.param _ name) => .ofBinding e .memberAsSource fun scope => lookUp scope name e
  | e@(.member _ target name) =>
    let target := target.meaning env
    .ofBinding e .memberAsSource fun scope => do (← target.asBinding scope).member name e
  | e@(.const _ value) => .ofConstant env e value
  | e@(.segment ..) => .ofBinding e .notASequence fun _ => unsupported e .notAValue
  | e@(.binary _ op left right) =>
    .ofScalar e (scalarOfBinary op (left.meaning env) (right.meaning env))
  | e@(.unary _ op operand) =>
    let operand := operand.meaning env
    .ofScalar e fun scope => do
      let s ← operand.asScalar scope
      let op := match op with
        | .not => SqlUnary.not
        | .negate => .minus
      return ⟨.unary op s.expr, s.nullable⟩
  | e@(.function _ name args) => .ofScalar e (scalarOfFunction env e name (meanings env args))
  | e@(.object _ fields) =>
    let fields := fieldMeanings env fields
    .ofBinding e .notASequence fun scope => return .object (← Meaning.bindFields scope fields)
  | e@(.conditional _ test ifTrue ifFalse) =>
    let test := test.meaning env
    let ifTrue := ifTrue.meaning env
    let ifFalse := ifFalse.meaning env
    .ofScalar e fun scope => do
      let t ← test.asScalar scope
      let a ← ifTrue.asScalar scope
      let b ← ifFalse.asScalar scope
      return ⟨.cases [(t.expr, a.expr)] (some b.expr), a.nullable || b.nullable⟩

def meanings (env : Surroundings) : List Expr → List Meaning
  | [] => []
  | e :: rest => e.meaning env :: meanings env rest

def fieldMeanings (env : Surroundings) : List (String × Expr) → List (String × Meaning)
  | [] => []
  | (name, e) :: rest => (name, e.meaning env) :: fieldMeanings env rest

end

theorem meanings_eq_map (env : Surroundings) (es : List Expr) :
    meanings env es = es.map (Expr.meaning env) := by
  induction es with
  | nil => rfl
  | cons e es ih => rw [meanings, ih, List.map_cons]

theorem argument_meanings {env : Surroundings} {node : Expr} {m : Meaning} {es : List Expr}
    {k : Nat} (h : argument node (meanings env es) k = .ok m) :
    ∃ e, es[k]? = some e ∧ m = e.meaning env := by
  have hm := getElem?_of_argument h
  rw [meanings_eq_map, List.getElem?_map] at hm
  obtain ⟨e, he, rfl⟩ := Option.map_eq_some_iff.1 hm
  exact ⟨e, he, rfl⟩

end SequenceQuery
