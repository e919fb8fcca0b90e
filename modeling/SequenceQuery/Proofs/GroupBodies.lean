import SequenceQuery.Proofs.Outlines
import SequenceQuery.Proofs.Partitions
import SequenceQuery.Proofs.Simulation

namespace SequenceQuery

section Plain

variable {engine : Engine} {db : Database} {arguments : Arguments} (group group' : List Env)
  (row : Env)

mutual

/-- Without aggregates a value does not depend on the group. -/
theorem cell_of_plain : ∀ e : SqlExpr, e.hasAggregate = false →
    e.cell engine db arguments group row = e.cell engine db arguments group' row
  | .column (some _) _, _ | .column none _, _ | .literal _, _ | .param _, _ | .subquery _, _
  | .exist .., _ | .wildcard, _ => rfl
  | .aggregate .., h => nomatch h
  | .binary op left right, h => by
    obtain ⟨hleft, hright⟩ := Bool.or_eq_false_iff.1 h
    rw [SqlExpr.cell, SqlExpr.cell, cell_of_plain left hleft, cell_of_plain right hright]
  | .unary .not e, h => congrArg Cell.opposite (cell_of_plain e h)
  | .unary .minus e, h => congrArg engine.minus (cell_of_plain e h)
  | .isNull e negated, h => by rw [SqlExpr.cell, SqlExpr.cell, cell_of_plain e h]
  | .nested e, h => cell_of_plain e h
  | .isIn e query negated, h => by rw [SqlExpr.cell, SqlExpr.cell, cell_of_plain e h]
  | .function name args, h => congrArg (engine.call name) (listCells_of_plain args h)
  | .cases arms none, h => by
    rw [SqlExpr.cell, SqlExpr.cell, armsCell_of_plain arms (Bool.or_eq_false_iff.1 h).1]
    rfl
  | .cases arms (some e), h => by
    obtain ⟨harms, he⟩ := Bool.or_eq_false_iff.1 h
    rw [SqlExpr.cell, SqlExpr.cell, armsCell_of_plain arms harms]
    exact congrArg (Option.getD _) (cell_of_plain e he)

theorem listCells_of_plain : ∀ es : List SqlExpr, anyAggregate es = false →
    listCells engine db arguments es group row = listCells engine db arguments es group' row
  | [], _ => rfl
  | e :: es, h => by
    obtain ⟨he, hes⟩ := Bool.or_eq_false_iff.1 h
    rw [listCells, listCells, cell_of_plain e he, listCells_of_plain es hes]

theorem armsCell_of_plain : ∀ arms : List (SqlExpr × SqlExpr), armsAggregate arms = false →
    armsCell engine db arguments arms group row = armsCell engine db arguments arms group' row
  | [], _ => rfl
  | (test, value) :: arms, h => by
    obtain ⟨hfirst, harms⟩ := Bool.or_eq_false_iff.1 h
    obtain ⟨htest, hvalue⟩ := Bool.or_eq_false_iff.1 hfirst
    rw [armsCell, armsCell, cell_of_plain test htest, cell_of_plain value hvalue,
      armsCell_of_plain arms harms]

end

end Plain

namespace Binding

mutual

/-- The expressions that can be read from a binding, from a group those of its key. -/
def view : Binding → Composite SqlExpr
  | .record label entity columnPrefix _ =>
    entity.compose fun p => .columnOf label (columnPrefix ++ p.column)
  | .object fields => .parts (viewFields fields)
  | .scalar s => .one s.expr
  | .group key _ => .parts [("key", key.view)]

def viewFields : List (String × Binding) → List (String × Composite SqlExpr)
  | [] => []
  | (name, b) :: rest => (name, b.view) :: viewFields rest

end

mutual

def GroupsOf : Binding → Binding → Prop
  | .record .., _ | .scalar _, _ => True
  | .object fields, elements => FieldsGroupsOf fields elements
  | .group key element, elements => element = elements ∧ key.GroupsOf elements

def FieldsGroupsOf : List (String × Binding) → Binding → Prop
  | [], _ => True
  | (_, b) :: rest, elements => b.GroupsOf elements ∧ FieldsGroupsOf rest elements

end

mutual

theorem view_of_leaves? (elements : Binding) : ∀ (b : Binding) {path : String} {ls : List Leaf},
    b.leaves? path = some ls → b.GroupsOf elements ∧ b.view = b.composite
  | .record .., _, _, _ | .scalar _, _, _, _ => ⟨trivial, rfl⟩
  | .object fields, _, _, h => by
    obtain ⟨hgroups, hview⟩ := viewFields_of_leaves? elements fields h
    exact ⟨hgroups, congrArg Composite.parts hview⟩
  | .group .., _, _, h => nomatch h

theorem viewFields_of_leaves? (elements : Binding) : ∀ (fields : List (String × Binding))
    {path : String} {ls : List Leaf}, fieldLeaves? path fields = some ls →
      FieldsGroupsOf fields elements ∧ viewFields fields = fieldComposites fields
  | [], _, _, _ => ⟨trivial, rfl⟩
  | (name, b) :: rest, path, ls, h => by
    obtain ⟨first, hfirst, h⟩ := Option.bind_eq_some_iff.1 h
    obtain ⟨others, hothers, -⟩ := Option.bind_eq_some_iff.1 h
    obtain ⟨hgroups, hview⟩ := view_of_leaves? elements b hfirst
    obtain ⟨hrestGroups, hrestView⟩ := viewFields_of_leaves? elements rest hothers
    rw [viewFields, fieldComposites, hview, hrestView]
    exact ⟨⟨hgroups, hrestGroups⟩, rfl⟩

end

theorem view_of_isPlain (elements : Binding) {b : Binding} (h : b.isPlain) :
    b.GroupsOf elements ∧ b.view = b.composite := by
  obtain ⟨ls, hls⟩ := b.leaves?_of_isPlain "" h
  exact view_of_leaves? elements b hls

theorem viewFields_eq_map (fields : List (String × Binding)) :
    viewFields fields = fields.map fun field => (field.1, field.2.view) := by
  induction fields with
  | nil => rfl
  | cons field fields ih => rw [viewFields, ih, List.map_cons]

theorem groupsOf_of_mem {elements : Binding} {fields : List (String × Binding)}
    (h : FieldsGroupsOf fields elements) {field : String × Binding} (hmem : field ∈ fields) :
    field.2.GroupsOf elements := by
  induction fields with
  | nil => cases hmem
  | cons first fields ih =>
    cases hmem with
    | head => exact h.1
    | tail _ hmem => exact ih h.2 hmem

theorem member_groupsOf {elements b found : Binding} {name : String} {node : Expr}
    (hb : b.GroupsOf elements) (h : b.member name node = .ok found) : found.GroupsOf elements := by
  cases member_ok h with
  | column hp => exact trivial
  | field hf => exact groupsOf_of_mem hb (Text.findNamed?_mem hf)
  | key hname => exact hb.2

theorem part?_view {b found : Binding} {name : String} {node : Expr}
    (h : b.member name node = .ok found) : b.view.part? name = some found.view := by
  cases member_ok h with
  | column hp =>
    rw [view, Entity.part?_compose, hp]
    rfl
  | field hf =>
    have hkey : ∀ field : String × Binding, (field.1, field.2.view).1 = field.1 := fun _ => rfl
    rw [view, Composite.part?, viewFields_eq_map, findNamed?_map hkey, hf]
    rfl
  | key hname =>
    rw [view, Composite.part?, findNamed?_key hname]
    rfl

end Binding

/-- What bodies on groups are read with: the elements of the groups, and the aggregates over the
rows of a group with the row that stands for it. -/
structure GroupReading where
  engine : Engine
  db : Database
  arguments : Arguments
  env : Surroundings
  elements : Binding
  aggregate : List Env → Env → Operator → List Expr → Cell

def Binding.shape (b : Binding) : ElementType := b.view.map fun _ => ()

theorem Binding.readsParts_shape : ReadsParts () shape where
  scalar _ := rfl
  object fields := by
    rw [shape, view, Composite.map, viewFields_eq_map, Composite.mapFields_eq_map, List.map_map]
    rfl
  member {b found name node} h := by
    rw [shape, Composite.part?_map, part?_view h]
    rfl

namespace GroupReading

variable (c : GroupReading) (group : List Env) (row : Env)

def cell (e : SqlExpr) : Cell := e.cell c.engine c.db c.arguments group row

def element (b : Binding) : Element := b.view.map (c.cell group row)

def scopeElements (scope : Scope) : List (String × Element) :=
  scope.map fun entry => (entry.1, c.element group row entry.2)

def value (scope : Scope) (e : Expr) (group : List Env) (row : Env) : Element :=
  e.elementWith c.engine c.env.dialect.callee (c.aggregate group row)
    (c.scopeElements group row scope)

structure Stands (scope : Scope) (e : Expr) (b : Binding) : Prop where
  groups : b.GroupsOf c.elements
  element : ∀ group row, c.element group row b = c.value scope e group row

structure Computes (value : List Env → Env → Cell) (s : Scalar) : Prop where
  cell : ∀ group row, c.cell group row s.expr = value group row

def Means (scope : Scope) (e : Expr) (m : Meaning) : Prop :=
  ∀ u, Yields u (m.asBinding scope) (c.Stands scope e) u

/-- A node that may stand in a body. A call is read as the aggregate that it is, given its source
and what its other arguments are supplied with. -/
structure Reads (scope : Scope) (n : Expr) : Prop where
  supplied : c.env.Supplies c.arguments n
  call : ∀ id op args, n = .call id op args → ∃ source rest, args = source :: rest ∧
    ((∀ m ∈ Expr.nodesOfList rest, c.env.Supplies c.arguments m) →
      c.Means scope source (source.meaning c.env) → ∀ u, Yields u
        (scalarOfCall n op (meanings c.env args) scope)
        (c.Computes fun group row => c.aggregate group row op rest) u)

variable {c} {scope : Scope} {u : Prop} {e node : Expr} {id : NodeId}

theorem Stands.scalar {b : Binding} {s : Scalar} (h : c.Stands scope e b)
    (hs : b.asScalar node = .ok s) :
    c.Computes (fun group row => (c.value scope e group row).cell) s := by
  obtain rfl := Binding.asScalar_ok hs
  refine ⟨fun group row => ?_⟩
  rw [← h.element group row]
  rfl

theorem Means.asScalar {m : Meaning} (h : c.Means scope e m) : Yields u (m.asScalar scope)
    (c.Computes fun group row => (c.value scope e group row).cell) u := by
  rw [Meaning.asScalar]
  exact (h u).bind fun b hb => .lift fun s hs => hb.scalar hs

theorem ofScalar_stands {scalar : Scope → Build Scalar} {value : List Env → Env → Cell}
    (hvalue : ∀ group row, c.value scope e group row = .one (value group row))
    (h : Yields u (scalar scope) (c.Computes value) u) :
    Yields u ((Meaning.ofScalar node scalar).asBinding scope) (c.Stands scope e) u := by
  refine h.bind fun s hs => .pure ⟨trivial, fun group row => ?_⟩
  rw [hvalue group row, ← hs.cell group row]
  rfl

theorem param_stands (hscope : ∀ entry ∈ scope, entry.2.GroupsOf c.elements) (name : String) :
    Yields u (liftM (lookUp scope name (.param id name))) (c.Stands scope (.param id name)) u := by
  refine .lift fun b hb => ?_
  have hfound := lookUp_ok hb
  refine ⟨hscope _ (mem_of_lookUp hb), fun group row => ?_⟩
  rw [value, Expr.elementWith, scopeElements, lookup_map, hfound]
  rfl

theorem member_stands {target : Expr} {b found : Binding} {name : String}
    (hb : c.Stands scope target b) (h : b.member name node = .ok found) :
    c.Stands scope (.member id target name) found := by
  refine ⟨Binding.member_groupsOf hb.groups h, fun group row => ?_⟩
  have helement : (c.element group row b).part? name = some (c.element group row found) := by
    rw [element, Composite.part?_map, Binding.part?_view h]
    rfl
  have htarget : c.element group row b = target.elementWith .. := hb.element group row
  rw [value, Expr.elementWith, ← htarget, helement]
  rfl

theorem const_stands {value : Value} (h : c.env.Supplies c.arguments (.const id value)) :
    Yields u ((Meaning.ofConstant c.env (.const id value) value).asBinding scope)
      (c.Stands scope (.const id value)) u := by
  refine ofScalar_stands (fun _ _ => rfl) ?_
  cases hnull : value.isNull with
  | true =>
    cases value <;> cases hnull
    exact .pure ⟨fun _ _ => rfl⟩
  | false =>
    simp only [Bool.false_eq_true, if_false]
    cases hslot : c.env.slot? (Expr.const id value).id with
    | none => exact .unsupported _ _
    | some slot =>
      have hsupplied := h slot hslot 0 value rfl
      exact .pure ⟨fun _ row => @cellIn_slot c.engine c.db c.arguments _ _ hsupplied row⟩

theorem cell_of_isNull (h : e.isNull) (group : List Env) (row : Env) :
    (c.value scope e group row).cell = .null := by
  cases e with
  | const id value =>
    cases value <;> cases h
    rfl
  | _ => cases h

theorem binary_stands {left right : Meaning} {l r : Expr} (op : BinaryOp) (hl : left.node = l)
    (hr : right.node = r) (hleft : c.Means scope l left) (hright : c.Means scope r right) :
    Yields u (scalarOfBinary op left right scope)
      (c.Computes fun group row => c.engine.compute op (l.isNull || r.isNull)
        (c.value scope l group row).cell (c.value scope r group row).cell) u := by
  subst hl hr
  rw [scalarOfBinary]
  cases htest : nullTest? op left right with
  | some test =>
    obtain ⟨operand, negated⟩ := test
    have htested : ∀ s : Scalar, ∀ group row, c.cell group row (.isNull s.expr negated) =
        .bool ((c.cell group row s.expr).isNull != negated) := fun _ _ _ => rfl
    obtain ⟨rfl, ⟨hnull, rfl⟩ | ⟨hnull, rfl⟩⟩ := of_nullTest? htest
    · refine hleft.asScalar.bind fun s hs => .pure ⟨fun group row => ?_⟩
      rw [cell_of_isNull hnull, hnull, Bool.or_true, htested, hs.cell group row]
      cases negated <;> simp [Engine.compute, Cell.isNull]
    · refine hright.asScalar.bind fun s hs => .pure ⟨fun group row => ?_⟩
      rw [cell_of_isNull hnull, hnull, Bool.true_or, htested, hs.cell group row]
      cases negated <;> simp [Engine.compute, Cell.isNull]
  | none =>
    refine hleft.asScalar.bind fun s hs => hright.asScalar.bind fun s' hs' => ?_
    cases hop : sqlBinary? op with
    | some sqlOp =>
      refine .pure ⟨fun group row => ?_⟩
      rw [← hs.cell group row, ← hs'.cell group row, compute_of_nullTest? htest, hop]
      rfl
    | none =>
      refine .pure ⟨fun group row => ?_⟩
      rw [← hs.cell group row, ← hs'.cell group row, compute_of_nullTest? htest, hop]
      rfl

theorem scalars_stand {ms : List Meaning} {es : List Expr}
    (h : List.Forall₂ (c.Means scope) es ms) :
    Yields u (Meaning.scalars scope ms) (fun ss => ∀ group row,
      listCells c.engine c.db c.arguments (ss.map Scalar.expr) group row =
        Expr.argumentCellsWith c.engine c.env.dialect.callee (c.aggregate group row)
          (c.scopeElements group row scope) es) u := by
  induction h with
  | nil => exact .pure fun _ _ => rfl
  | cons hm _ ih =>
    refine hm.asScalar.bind fun s hs => ih.bind fun ss hss => .pure fun group row => ?_
    rw [List.map_cons, listCells, Expr.argumentCellsWith, hss group row]
    exact congrArg (· :: _) (hs.cell group row)

theorem function_stands {name : String} {es : List Expr} {args : List Meaning}
    (h : List.Forall₂ (c.Means scope) es args) :
    Yields u (scalarOfFunction c.env node name args scope) (c.Computes fun group row =>
      c.engine.applied c.env.dialect.callee name (Expr.argumentCellsWith c.engine
        c.env.dialect.callee (c.aggregate group row) (c.scopeElements group row scope) es)) u := by
  rw [scalarOfFunction]
  split
  case isTrue hsearch =>
    obtain ⟨hname, hlength⟩ := (Bool.and_eq_true _ _).mp hsearch
    obtain _ | ⟨htext, _ | ⟨hneedle, _ | ⟨_, _⟩⟩⟩ := h <;> simp at hlength
    refine .bindOk (htext.asScalar.bind fun s hs => ?_)
    refine .bindOk (hneedle.asScalar.bind fun s' hs' => ?_)
    obtain ⟨pattern, hpattern⟩ : ∃ pattern,
        searchPattern? (Text.lower name) s'.expr = some pattern :=
      Option.isSome_iff_exists.1 ((isSome_searchPattern? _ _).trans hname)
    rw [hpattern]
    refine .pure ⟨fun group row => ?_⟩
    have hmatched := pattern?_of_searchPattern? hpattern c.engine c.db c.arguments group row
    have hsought : s'.expr.cell c.engine c.db c.arguments group row = _ := hs'.cell group row
    have hread : c.cell group row s.expr = _ := hs.cell group row
    rw [hsought, value] at hmatched
    rw [value] at hread
    rw [Engine.applied, Expr.argumentCellsWith, Expr.argumentCellsWith, Expr.argumentCellsWith,
      Engine.search?, hmatched, ← hread]
    rfl
  case isFalse hsearch =>
    have hsearch? : ∀ group row, c.engine.search? (Text.lower name) (Expr.argumentCellsWith c.engine
        c.env.dialect.callee (c.aggregate group row) (c.scopeElements group row scope) es) =
          none := by
      intro group row
      obtain _ | ⟨_, _ | ⟨_, _ | ⟨_, _⟩⟩⟩ := h
      case cons.cons.nil =>
        have hname : isSearch (Text.lower name) = false := by simpa using hsearch
        simp only [Expr.argumentCellsWith, Engine.search?, pattern?_eq_none hname, Option.map_none]
      all_goals rfl
    refine (scalars_stand h).bind fun ss hss => ?_
    have hcall : ∀ called nullable, called = c.env.dialect.callee name → c.Computes
        (fun group row => c.engine.applied c.env.dialect.callee name (Expr.argumentCellsWith
          c.engine c.env.dialect.callee (c.aggregate group row)
          (c.scopeElements group row scope) es))
        ⟨.function called (ss.map Scalar.expr), nullable⟩ := by
      rintro called nullable rfl
      refine ⟨fun group row => ?_⟩
      rw [Engine.applied, hsearch? group row, ← hss group row]
      rfl
    cases hname : c.env.dialect.functionName (Text.lower name) with
    | some mapped => exact .pure (hcall mapped _ (by rw [Dialect.callee, hname]; rfl))
    | none =>
      simp only
      split
      · exact .pure (hcall name _ (by rw [Dialect.callee, hname]; rfl))
      · exact .thrown _

theorem conditional_stands {test ifTrue ifFalse : Meaning} {t a b : Expr}
    (ht : c.Means scope t test) (ha : c.Means scope a ifTrue) (hb : c.Means scope b ifFalse) :
    c.Means scope (.conditional id t a b) (.ofScalar node fun scope => do
      let t ← test.asScalar scope
      let a ← ifTrue.asScalar scope
      let b ← ifFalse.asScalar scope
      return ⟨.cases [(t.expr, a.expr)] (some b.expr), a.nullable || b.nullable⟩) := by
  refine fun u => ofScalar_stands (fun _ _ => rfl) ?_
  refine ht.asScalar.bind fun s hs => ha.asScalar.bind fun s' hs' =>
    hb.asScalar.bind fun s'' hs'' => .pure ⟨fun group row => ?_⟩
  show (if (c.cell group row s.expr).isTrue then some (c.cell group row s'.expr) else none).getD
    (c.cell group row s''.expr) = if (c.value scope t group row).cell.isTrue
      then (c.value scope a group row).cell else (c.value scope b group row).cell
  rw [hs.cell group row, hs'.cell group row, hs''.cell group row]
  split <;> rfl

structure FieldsStand (c : GroupReading) (scope : Scope) (fields : List (String × Expr))
    (bs : List (String × Binding)) : Prop where
  groups : Binding.FieldsGroupsOf bs c.elements
  elements : ∀ group row, Composite.mapFields (c.cell group row) (Binding.viewFields bs) =
    Expr.fieldElementsWith c.engine c.env.dialect.callee (c.aggregate group row)
      (c.scopeElements group row scope) fields

theorem FieldsStand.cons {name : String} {b : Binding} {fields : List (String × Expr)}
    {bs : List (String × Binding)} (hb : c.Stands scope e b) (h : FieldsStand c scope fields bs) :
    FieldsStand c scope ((name, e) :: fields) ((name, b) :: bs) := by
  refine ⟨⟨hb.groups, h.groups⟩, fun group row => ?_⟩
  have helement : c.element group row b = e.elementWith .. := hb.element group row
  rw [Binding.viewFields, Composite.mapFields, h.elements, Expr.fieldElementsWith, ← helement]
  rfl

mutual

theorem meaning_stands (hscope : ∀ entry ∈ scope, entry.2.GroupsOf c.elements) : ∀ e : Expr,
    (∀ n ∈ e.nodes, c.Reads scope n) → c.Means scope e (e.meaning c.env)
  | .entity .., _ | .lambda .., _ | .segment .., _ => fun _ => .unsupported _ _
  | .call i op args, h => fun u => by
    obtain ⟨source, rest, rfl, hcall⟩ := (h _ List.mem_cons_self).call i op args rfl
    have hsource := meaning_stands hscope source fun n hn =>
      h n (List.mem_cons_of_mem _ (List.mem_append_left _ hn))
    have hrest : ∀ n ∈ Expr.nodesOfList rest, c.env.Supplies c.arguments n := fun n hn =>
      (h n (List.mem_cons_of_mem _ (List.mem_append_right _ hn))).supplied
    exact @ofScalar_stands c scope u (.call i op (source :: rest)) (.call i op (source :: rest))
      _ _ (fun _ _ => rfl) (hcall hrest hsource u)
  | .param id name, _ => fun _ => param_stands hscope name
  | .const .., h => fun _ => const_stands (h _ List.mem_cons_self).supplied
  | .member _ target _, h => fun u => by
    have htarget := meaning_stands hscope target (List.forall_mem_cons.1 h).2
    exact (htarget u).bind fun b hb => .lift fun found hfound => member_stands hb hfound
  | .binary _ op left right, h => fun u => by
    obtain ⟨hleft, hright⟩ := List.forall_mem_append.1 (List.forall_mem_cons.1 h).2
    exact ofScalar_stands (fun _ _ => rfl) (binary_stands op (node_meaning c.env left)
      (node_meaning c.env right) (meaning_stands hscope left hleft)
      (meaning_stands hscope right hright))
  | .unary _ .not operand, h => fun u => by
    have hoperand := meaning_stands hscope operand (List.forall_mem_cons.1 h).2
    exact ofScalar_stands (fun _ _ => rfl) (hoperand.asScalar.bind fun s hs =>
      .pure ⟨fun group row => congrArg Cell.opposite (hs.cell group row)⟩)
  | .unary _ .negate operand, h => fun u => by
    have hoperand := meaning_stands hscope operand (List.forall_mem_cons.1 h).2
    exact ofScalar_stands (fun _ _ => rfl) (hoperand.asScalar.bind fun s hs =>
      .pure ⟨fun group row => congrArg c.engine.minus (hs.cell group row)⟩)
  | .function _ name args, h => fun u => by
    have hargs := meanings_stand hscope args (List.forall_mem_cons.1 h).2
    exact ofScalar_stands (fun _ _ => rfl) (function_stands hargs)
  | .object _ fields, h => fun u => by
    have hfields := fieldMeanings_stand hscope fields (List.forall_mem_cons.1 h).2 u
    refine hfields.bind fun bs hbs => .pure ⟨hbs.groups, fun group row => ?_⟩
    exact congrArg Composite.parts (hbs.elements group row)
  | .conditional _ test ifTrue ifFalse, h => by
    obtain ⟨htest, hrest⟩ := List.forall_mem_append.1 (List.forall_mem_cons.1 h).2
    obtain ⟨htrue, hfalse⟩ := List.forall_mem_append.1 hrest
    exact conditional_stands (meaning_stands hscope test htest)
      (meaning_stands hscope ifTrue htrue) (meaning_stands hscope ifFalse hfalse)

theorem meanings_stand (hscope : ∀ entry ∈ scope, entry.2.GroupsOf c.elements) :
    ∀ es : List Expr, (∀ n ∈ Expr.nodesOfList es, c.Reads scope n) →
      List.Forall₂ (c.Means scope) es (meanings c.env es)
  | [], _ => .nil
  | e :: rest, h => by
    obtain ⟨he, hrest⟩ := List.forall_mem_append.1 h
    exact .cons (meaning_stands hscope e he) (meanings_stand hscope rest hrest)

theorem fieldMeanings_stand (hscope : ∀ entry ∈ scope, entry.2.GroupsOf c.elements) :
    ∀ fields : List (String × Expr), (∀ n ∈ Expr.nodesOfFields fields, c.Reads scope n) →
      ∀ u, Yields u (Meaning.bindFields scope (fieldMeanings c.env fields))
        (FieldsStand c scope fields) u
  | [], _ => fun _ => .pure ⟨trivial, fun _ _ => rfl⟩
  | (_, e) :: rest, h => by
    obtain ⟨he, hrest⟩ := List.forall_mem_append.1 h
    intro u
    exact (meaning_stands hscope e he u).bind fun b hb =>
      (fieldMeanings_stand hscope rest hrest u).bind fun bs hbs => .pure (hbs.cons hb)

end

end GroupReading

end SequenceQuery
