import SequenceQuery.Dialect.Postgres
import SequenceQuery.Form.Rows

namespace SequenceQuery

mutual

/-- The statement without the origins of its parts. -/
def Select.bare : Select → Select
  | ⟨distinct, items, source, joins, filter, groupBy, having, orderBy, limit, offset, _⟩ =>
    ⟨distinct, bareItems items, bareSource source, bareJoins joins, bareOption filter,
      bareList groupBy, bareOption having, bareKeys orderBy, bareOption limit, bareOption offset,
      none⟩

def bareItems : List SelectItem → List SelectItem
  | [] => []
  | .wildcard :: rest => .wildcard :: bareItems rest
  | .expr e label :: rest => .expr e.bare label :: bareItems rest

def Table.bare : Table → Table
  | .table schema name label => .table schema name label
  | .subquery query label => .subquery query.bare label

def bareSource : Option Table → Option Table
  | none => none
  | some table => some table.bare

def bareJoins : List Join → List Join
  | [] => []
  | ⟨kind, table, condition⟩ :: rest => ⟨kind, table.bare, bareOption condition⟩ :: bareJoins rest

def bareKeys : List SortKey → List SortKey
  | [] => []
  | ⟨e, ascending⟩ :: rest => ⟨e.bare, ascending⟩ :: bareKeys rest

def bareOption : Option SqlExpr → Option SqlExpr
  | none => none
  | some e => some e.bare

def bareList : List SqlExpr → List SqlExpr
  | [] => []
  | e :: rest => e.bare :: bareList rest

def bareArms : List (SqlExpr × SqlExpr) → List (SqlExpr × SqlExpr)
  | [] => []
  | (test, value) :: rest => (test.bare, value.bare) :: bareArms rest

def SqlExpr.bare : SqlExpr → SqlExpr
  | .column table name => .column table name
  | .literal value => .literal value
  | .param source => .param source
  | .binary op left right => .binary op left.bare right.bare
  | .unary op operand => .unary op operand.bare
  | .function name args => .function name (bareList args)
  | .aggregate name args distinct => .aggregate name (bareList args) distinct
  | .cases arms otherwise => .cases (bareArms arms) (bareOption otherwise)
  | .subquery query => .subquery query.bare
  | .exist query negated => .exist query.bare negated
  | .isIn operand query negated => .isIn operand.bare query.bare negated
  | .isNull operand negated => .isNull operand.bare negated
  | .wildcard => .wildcard
  | .nested inner => .nested inner.bare

end

theorem bareOption_eq_map (e : Option SqlExpr) : bareOption e = e.map SqlExpr.bare := by
  cases e <;> rfl

theorem bareSource_eq_map (t : Option Table) : bareSource t = t.map Table.bare := by
  cases t <;> rfl

theorem bareList_eq_map (es : List SqlExpr) : bareList es = es.map SqlExpr.bare := by
  induction es with
  | nil => rfl
  | cons e es ih => rw [bareList, ih, List.map_cons]

namespace SqlExpr

@[simp] theorem bindsLooser_bare (e : SqlExpr) (parent : SqlBinary) (right : Bool) :
    e.bare.bindsLooser parent right = e.bindsLooser parent right := by
  cases e with
  | unary op => cases op <;> rfl
  | _ => rfl

@[simp] theorem isBinary_bare (e : SqlExpr) : e.bare.isBinary = e.isBinary := by
  cases e <;> rfl

end SqlExpr

mutual

/-- The tokens of a statement do not depend on where it comes from. -/
theorem Select.tokens_bare : ∀ s : Select, s.bare.tokens = s.tokens
  | ⟨_, items, source, joins, filter, groupBy, having, orderBy, limit, offset, _⟩ => by
    simp only [Select.bare, Select.tokens, itemTokens_bare items, sourceTokens_bare source,
      joinTokens_bare joins, optionTokens_bare filter, listTokens_bare groupBy,
      optionTokens_bare having, keyTokens_bare orderBy, optionTokens_bare limit,
      optionTokens_bare offset, isEmpty_bareItems items]

theorem isEmpty_bareItems : ∀ items : List SelectItem, (bareItems items).isEmpty = items.isEmpty
  | [] => rfl
  | .wildcard :: _ => rfl
  | .expr .. :: _ => rfl

theorem itemTokens_bare : ∀ items : List SelectItem, itemTokens (bareItems items) = itemTokens items
  | [] => rfl
  | .wildcard :: rest => by simp only [bareItems, itemTokens, itemTokens_bare rest]
  | .expr e none :: rest => by
    simp only [bareItems, itemTokens, itemTokens_bare rest, e.tokens_bare]
  | .expr e (some _) :: rest => by
    simp only [bareItems, itemTokens, itemTokens_bare rest, e.tokens_bare]

theorem Table.tokens_bare : ∀ t : Table, t.bare.tokens = t.tokens
  | .table .. => rfl
  | .subquery query _ => by simp only [Table.bare, Table.tokens, query.tokens_bare]

theorem sourceTokens_bare : ∀ t : Option Table, sourceTokens (bareSource t) = sourceTokens t
  | none => rfl
  | some t => by simp only [bareSource, sourceTokens, t.tokens_bare]

theorem joinTokens_bare : ∀ joins : List Join, joinTokens (bareJoins joins) = joinTokens joins
  | [] => rfl
  | ⟨_, table, condition⟩ :: rest => by
    simp only [bareJoins, joinTokens, table.tokens_bare, optionTokens_bare condition,
      joinTokens_bare rest]

theorem keyTokens_bare : ∀ keys : List SortKey, keyTokens (bareKeys keys) = keyTokens keys
  | [] => rfl
  | ⟨e, _⟩ :: rest => by simp only [bareKeys, keyTokens, e.tokens_bare, keyTokens_bare rest]

theorem optionTokens_bare : ∀ e : Option SqlExpr, optionTokens (bareOption e) = optionTokens e
  | none => rfl
  | some e => by simp only [bareOption, optionTokens, e.tokens_bare]

theorem listTokens_bare : ∀ es : List SqlExpr, listTokens (bareList es) = listTokens es
  | [] => rfl
  | e :: rest => by simp only [bareList, listTokens, e.tokens_bare, listTokens_bare rest]

theorem armTokens_bare : ∀ arms : List (SqlExpr × SqlExpr),
    armTokens (bareArms arms) = armTokens arms
  | [] => rfl
  | (test, value) :: rest => by
    simp only [bareArms, armTokens, test.tokens_bare, value.tokens_bare, armTokens_bare rest]

theorem SqlExpr.tokens_bare : ∀ e : SqlExpr, e.bare.tokens = e.tokens
  | .column .. | .literal _ | .param _ | .wildcard => rfl
  | .binary _ left right => by
    simp only [SqlExpr.bare, SqlExpr.tokens, SqlExpr.bindsLooser_bare, left.tokens_bare,
      right.tokens_bare]
  | .unary .not operand | .unary .minus operand | .isNull operand _ => by
    simp only [SqlExpr.bare, SqlExpr.tokens, SqlExpr.isBinary_bare, operand.tokens_bare]
  | .function _ args | .aggregate _ args _ => by
    simp only [SqlExpr.bare, SqlExpr.tokens, listTokens_bare args]
  | .cases arms otherwise => by
    simp only [SqlExpr.bare, SqlExpr.tokens, armTokens_bare arms, optionTokens_bare otherwise]
  | .subquery query | .exist query _ => by
    simp only [SqlExpr.bare, SqlExpr.tokens, query.tokens_bare]
  | .isIn operand query _ => by
    simp only [SqlExpr.bare, SqlExpr.tokens, operand.tokens_bare, query.tokens_bare]
  | .nested inner => by simp only [SqlExpr.bare, SqlExpr.tokens, inner.tokens_bare]

end

theorem Postgres.render_bare (options : RenderOptions) (arguments : Arguments) (s : Select) :
    render options arguments s.bare = render options arguments s := by
  simp only [render, s.tokens_bare]

namespace Select

theorem bare_eq (s : Select) : s.bare =
    ⟨s.distinct, bareItems s.items, s.source.map Table.bare, bareJoins s.joins,
      s.filter.map SqlExpr.bare, s.groupBy.map SqlExpr.bare, s.having.map SqlExpr.bare,
      bareKeys s.orderBy, s.limit.map SqlExpr.bare, s.offset.map SqlExpr.bare, none⟩ := by
  cases s
  simp only [bare, bareSource_eq_map, bareOption_eq_map, bareList_eq_map]

theorem isEmpty_bareJoins (joins : List Join) : (bareJoins joins).isEmpty = joins.isEmpty := by
  rcases joins with _ | ⟨⟨_, _, _⟩, _⟩ <;> rfl

theorem isEmpty_bareKeys (keys : List SortKey) : (bareKeys keys).isEmpty = keys.isEmpty := by
  rcases keys with _ | ⟨⟨_, _⟩, _⟩ <;> rfl

@[simp] theorem hasPaging_bare (s : Select) : s.bare.hasPaging = s.hasPaging := by
  simp [bare_eq, hasPaging]

@[simp] theorem hasGroups_bare (s : Select) : s.bare.hasGroups = s.hasGroups := by
  simp [bare_eq, hasGroups]

@[simp] theorem isBareTable_bare (s : Select) : s.bare.isBareTable = s.isBareTable := by
  obtain ⟨_, _, source, _, _, _, _, _, _, _, _⟩ := s
  rcases source with _ | _ | _ <;>
    simp [bare_eq, isBareTable, hasGroups, hasPaging, isEmpty_bareJoins, isEmpty_bareKeys,
      Table.bare]

end Select

def Scalar.bare (s : Scalar) : Scalar := ⟨s.expr.bare, s.nullable⟩

def Leaf.bare (l : Leaf) : Leaf := ⟨l.name, l.scalar.bare⟩

namespace Binding

mutual

def bare : Binding → Binding
  | .record label entity columnPrefix optional => .record label entity columnPrefix optional
  | .object fields => .object (bareFields fields)
  | .scalar s => .scalar s.bare
  | .group key element => .group key.bare element.bare

def bareFields : List (String × Binding) → List (String × Binding)
  | [] => []
  | (name, b) :: rest => (name, b.bare) :: bareFields rest

end

theorem bareFields_eq_map (fields : List (String × Binding)) :
    bareFields fields = fields.map fun f => (f.1, f.2.bare) := by
  induction fields with
  | nil => rfl
  | cons f fields ih => rw [bareFields, ih, List.map_cons]

@[simp] theorem isGroup_bare (b : Binding) : b.bare.isGroup = b.isGroup := by
  cases b <;> rfl

mutual

theorem asOptional_bare : ∀ b : Binding, b.asOptional.bare = b.bare.asOptional
  | .record .. | .scalar _ | .group .. => rfl
  | .object fields => by simp only [asOptional, bare, fieldsAsOptional_bare fields]

theorem fieldsAsOptional_bare : ∀ fields : List (String × Binding),
    bareFields (fieldsAsOptional fields) = fieldsAsOptional (bareFields fields)
  | [] => rfl
  | (_, b) :: rest => by
    simp only [fieldsAsOptional, bareFields, b.asOptional_bare, fieldsAsOptional_bare rest]

end

@[simp] theorem leafName_bare (path : String) (e : SqlExpr) :
    leafName path e.bare = leafName path e := by
  cases e <;> rfl

mutual

theorem leaves?_bare : ∀ (b : Binding) (path : String),
    b.bare.leaves? path = (b.leaves? path).map (List.map Leaf.bare)
  | .scalar s, path => by simp [bare, leaves?, Scalar.bare, Leaf.bare]
  | .record .., path => by
    simp [bare, leaves?, Leaf.bare, Scalar.bare, SqlExpr.bare, SqlExpr.columnOf]
  | .object fields, path => by simp only [bare, leaves?, fieldLeaves?_bare fields path]
  | .group .., path => rfl

theorem fieldLeaves?_bare : ∀ (fields : List (String × Binding)) (path : String),
    fieldLeaves? path (bareFields fields) = (fieldLeaves? path fields).map (List.map Leaf.bare)
  | [], path => rfl
  | (name, b) :: rest, path => by
    simp only [bareFields, fieldLeaves?, b.leaves?_bare, fieldLeaves?_bare rest path]
    cases b.leaves? (subpath path name) <;> cases fieldLeaves? path rest <;> simp

end

mutual

theorem readFrom_bare (label : String) : ∀ (b : Binding) (path : String),
    (b.readFrom label path).bare = b.bare.readFrom label path
  | .scalar s, path => by simp [bare, readFrom, Scalar.bare, SqlExpr.bare, SqlExpr.columnOf]
  | .record .., path | .group .., path => rfl
  | .object fields, path => by simp only [bare, readFrom, readFieldsFrom_bare label fields path]

theorem readFieldsFrom_bare (label : String) : ∀ (fields : List (String × Binding)) (path : String),
    bareFields (readFieldsFrom label path fields) = readFieldsFrom label path (bareFields fields)
  | [], path => rfl
  | (name, b) :: rest, path => by
    simp only [bareFields, readFieldsFrom, b.readFrom_bare label, readFieldsFrom_bare label rest]

end

end Binding

namespace Rows

def bare (rows : Rows) : Rows := ⟨rows.select.bare, rows.row.bare⟩

end Rows

namespace Terminal

def bare : Terminal → Terminal
  | .single select row nullable unique => .single select.bare row.bare nullable unique
  | .exist select negated => .exist select.bare negated
  | .scalar select nullable => .scalar select.bare nullable
  | .isIn value select => .isIn value.bare select.bare

end Terminal

end SequenceQuery
