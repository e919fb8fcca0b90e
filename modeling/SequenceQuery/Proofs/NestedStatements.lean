import SequenceQuery.Proofs.RowConstruction
import SequenceQuery.Select.Nested
import Mathlib.Algebra.Order.Group.Multiset
import Mathlib.Data.Multiset.Fintype
import Mathlib.Tactic.Abel

namespace SequenceQuery

section Closed

def Closed (queries : List Select) : Prop := ∀ q ∈ queries, q.nested ⊆ queries

variable {as bs : List Select}

theorem closed_nil : Closed [] := nofun

theorem Closed.append (ha : Closed as) (hb : Closed bs) : Closed (as ++ bs) := by
  intro q hq
  rcases List.mem_append.1 hq with hq | hq
  · exact List.subset_append_of_subset_left _ (ha q hq)
  · exact List.subset_append_of_subset_right _ (hb q hq)

theorem Closed.cons {q : Select} (h : Closed q.nested) : Closed (q :: q.nested) :=
  List.forall_mem_cons.2 ⟨List.subset_cons_self _ _, fun p hp =>
    List.subset_cons_of_subset _ (h p hp)⟩

mutual

theorem Select.closed_nested : ∀ s : Select, Closed s.nested
  | ⟨_, items, source, joins, filter, groupBy, having, orderBy, limit, offset, _⟩ =>
    ((((((((closed_nestedOfSource source).append (closed_nestedOfJoins joins)).append
      (closed_nestedOfOption filter)).append (closed_nestedOfItems items)).append
      (closed_nestedOfList groupBy)).append (closed_nestedOfOption having)).append
      (closed_nestedOfKeys orderBy)).append (closed_nestedOfOption limit)).append
      (closed_nestedOfOption offset)

theorem Table.closed_nested : ∀ t : Table, Closed t.nested
  | .table .. => closed_nil
  | .subquery query _ => query.closed_nested

theorem closed_nestedOfSource : ∀ t : Option Table, Closed (nestedOfSource t)
  | none => closed_nil
  | some t => t.closed_nested

theorem closed_nestedOfJoins : ∀ joins : List Join, Closed (nestedOfJoins joins)
  | [] => closed_nil
  | ⟨_, table, condition⟩ :: rest =>
    (table.closed_nested.append (closed_nestedOfOption condition)).append (closed_nestedOfJoins rest)

theorem closed_nestedOfItems : ∀ items : List SelectItem, Closed (nestedOfItems items)
  | [] => closed_nil
  | .wildcard :: rest => closed_nestedOfItems rest
  | .expr e _ :: rest => e.closed_nestedSelects.append (closed_nestedOfItems rest)

theorem closed_nestedOfKeys : ∀ keys : List SortKey, Closed (nestedOfKeys keys)
  | [] => closed_nil
  | ⟨e, _⟩ :: rest => e.closed_nestedSelects.append (closed_nestedOfKeys rest)

theorem closed_nestedOfOption : ∀ e : Option SqlExpr, Closed (nestedOfOption e)
  | none => closed_nil
  | some e => e.closed_nestedSelects

theorem closed_nestedOfList : ∀ es : List SqlExpr, Closed (nestedOfList es)
  | [] => closed_nil
  | e :: rest => e.closed_nestedSelects.append (closed_nestedOfList rest)

theorem closed_nestedOfArms : ∀ arms : List (SqlExpr × SqlExpr), Closed (nestedOfArms arms)
  | [] => closed_nil
  | (test, value) :: rest =>
    (test.closed_nestedSelects.append value.closed_nestedSelects).append (closed_nestedOfArms rest)

theorem SqlExpr.closed_nestedSelects : ∀ e : SqlExpr, Closed e.nestedSelects
  | .column .. | .literal _ | .param _ | .wildcard => closed_nil
  | .binary _ left right => left.closed_nestedSelects.append right.closed_nestedSelects
  | .unary _ operand | .isNull operand _ | .nested operand => operand.closed_nestedSelects
  | .function _ args | .aggregate _ args _ => closed_nestedOfList args
  | .cases arms otherwise => (closed_nestedOfArms arms).append (closed_nestedOfOption otherwise)
  | .subquery query | .exist query _ => query.closed_nested.cons
  | .isIn operand query _ => operand.closed_nestedSelects.append query.closed_nested.cons

end

end Closed

section Lists

theorem nestedOfList_append (as bs : List SqlExpr) :
    nestedOfList (as ++ bs) = nestedOfList as ++ nestedOfList bs := by
  induction as with
  | nil => rfl
  | cons e as ih => rw [List.cons_append, nestedOfList, nestedOfList, ih, List.append_assoc]

theorem nestedOfOption_eq : ∀ e : Option SqlExpr, nestedOfOption e = nestedOfList e.toList
  | none => rfl
  | some _ => (List.append_nil _).symm

theorem nestedOfKeys_eq : ∀ keys : List SortKey,
    nestedOfKeys keys = nestedOfList (keys.map SortKey.expr)
  | [] => rfl
  | ⟨e, _⟩ :: rest => congrArg (e.nestedSelects ++ ·) (nestedOfKeys_eq rest)

theorem nestedOfItems_eq : ∀ items : List SelectItem,
    nestedOfItems items = nestedOfList (items.filterMap SelectItem.expr?)
  | [] => rfl
  | .wildcard :: rest => nestedOfItems_eq rest
  | .expr e _ :: rest => congrArg (e.nestedSelects ++ ·) (nestedOfItems_eq rest)

theorem nestedOfArms_eq : ∀ arms : List (SqlExpr × SqlExpr),
    nestedOfArms arms = nestedOfList (arms.flatMap fun arm => [arm.1, arm.2])
  | [] => rfl
  | (test, value) :: rest => by
    rw [nestedOfArms, nestedOfArms_eq rest, List.append_assoc]
    rfl

end Lists

def SqlExpr.contents (e : SqlExpr) : Multiset Select := e.nestedSelects

def contentsOf (es : List SqlExpr) : Multiset Select := nestedOfList es

@[simp] theorem contentsOf_nil : contentsOf [] = 0 := rfl

@[simp] theorem contentsOf_cons (e : SqlExpr) (es : List SqlExpr) :
    contentsOf (e :: es) = e.contents + contentsOf es := rfl

theorem contentsOf_append (as bs : List SqlExpr) :
    contentsOf (as ++ bs) = contentsOf as + contentsOf bs :=
  congrArg _ (nestedOfList_append as bs)

theorem contentsOf_eq_zero {es : List SqlExpr} (h : ∀ e ∈ es, e.contents = 0) :
    contentsOf es = 0 := by
  induction es with
  | nil => rfl
  | cons e es ih =>
    obtain ⟨he, hes⟩ := List.forall_mem_cons.1 h
    rw [contentsOf_cons, he, ih hes, add_zero]

theorem contents_conjoin (condition : Option SqlExpr) (e : SqlExpr) :
    (SqlExpr.conjoin condition e).contents = contentsOf condition.toList + e.contents := by
  cases condition with
  | none => exact (zero_add _).symm
  | some first =>
    rw [Option.toList_some, contentsOf_cons, contentsOf_nil, add_zero]
    rfl

namespace Binding

mutual

def contents : Binding → Multiset Select
  | .record .. => 0
  | .object fields => fieldContents fields
  | .scalar s => s.expr.contents
  | .group key element => key.contents + element.contents

def fieldContents : List (String × Binding) → Multiset Select
  | [] => 0
  | (_, b) :: rest => b.contents + fieldContents rest

end

mutual

def groups : Binding → Multiset Select
  | .record .. | .scalar _ => 0
  | .object fields => fieldGroups fields
  | .group key element => key.contents + element.contents

def fieldGroups : List (String × Binding) → Multiset Select
  | [] => 0
  | (_, b) :: rest => b.groups + fieldGroups rest

end

variable {b : Binding}

mutual

theorem groups_le : ∀ b : Binding, b.groups ≤ b.contents
  | .record .. | .scalar _ => Multiset.zero_le _
  | .object fields => fieldGroups_le fields
  | .group .. => le_rfl

theorem fieldGroups_le : ∀ fields : List (String × Binding), fieldGroups fields ≤ fieldContents fields
  | [] => le_rfl
  | (_, b) :: rest => add_le_add b.groups_le (fieldGroups_le rest)

end

theorem groups_eq_zero (h : b.contents = 0) : b.groups = 0 :=
  Multiset.le_zero.1 (h ▸ b.groups_le)

theorem groups_of_mem {fields : List (String × Binding)} {f : String × Binding}
    (h : f ∈ fields) : f.2.groups ≤ fieldGroups fields := by
  induction fields with
  | nil => cases h
  | cons first rest ih =>
    rcases List.mem_cons.1 h with rfl | h
    · exact Multiset.le_add_right _ _
    · exact (ih h).trans (Multiset.le_add_left _ _)

theorem contents_of_mem {fields : List (String × Binding)} {f : String × Binding}
    (h : f ∈ fields) : f.2.contents ≤ fieldContents fields := by
  induction fields with
  | nil => cases h
  | cons first rest ih =>
    rcases List.mem_cons.1 h with rfl | h
    · exact Multiset.le_add_right _ _
    · exact (ih h).trans (Multiset.le_add_left _ _)

theorem contents_member {found : Binding} {name : String} {node : Expr}
    (h : b.member name node = .ok found) : found.contents ≤ b.contents ∧ found.groups ≤ b.groups := by
  cases member_ok h with
  | column _ => exact ⟨le_rfl, le_rfl⟩
  | field hf =>
    exact ⟨contents_of_mem (Text.findNamed?_mem hf), groups_of_mem (Text.findNamed?_mem hf)⟩
  | @key _ element _ =>
    have hkey : found.contents ≤ found.contents + element.contents := Multiset.le_add_right _ _
    exact ⟨hkey, found.groups_le.trans hkey⟩

theorem contents_asScalar {s : Scalar} {node : Expr} (h : b.asScalar node = .ok s) :
    s.expr.contents = b.contents := by
  rw [asScalar_ok h]
  rfl

mutual

theorem contents_asOptional : ∀ b : Binding, b.asOptional.contents = b.contents
  | .record .. | .scalar _ | .group .. => rfl
  | .object fields => contents_fieldsAsOptional fields

theorem contents_fieldsAsOptional : ∀ fields : List (String × Binding),
    fieldContents (fieldsAsOptional fields) = fieldContents fields
  | [] => rfl
  | (_, b) :: rest =>
    congrArg₂ (· + ·) (contents_asOptional b) (contents_fieldsAsOptional rest)

end

mutual

/-- The leaves of a binding are all the values that it gives. -/
theorem contents_leaves? : ∀ {b : Binding} {path : String} {ls : List Leaf},
    b.leaves? path = some ls → contentsOf (ls.map (·.scalar.expr)) = b.contents
  | .scalar _, _, _, h => by
    cases h
    rw [List.map_singleton, contentsOf_cons]
    exact add_zero _
  | .record _ entity _ _, _, _, h => by
    cases h
    refine contentsOf_eq_zero ?_
    rw [List.map_map]
    exact List.forall_mem_map.2 fun _ _ => rfl
  | .object _, _, _, h => contents_fieldLeaves? h
  | .group .., _, _, h => nomatch h

theorem contents_fieldLeaves? : ∀ {fields : List (String × Binding)} {path : String}
    {ls : List Leaf}, fieldLeaves? path fields = some ls →
      contentsOf (ls.map (·.scalar.expr)) = fieldContents fields
  | [], _, _, h => by
    cases h
    rfl
  | (_, b) :: rest, path, ls, h => by
    obtain ⟨first, hfirst, h⟩ := Option.bind_eq_some_iff.1 h
    obtain ⟨others, hothers, h⟩ := Option.bind_eq_some_iff.1 h
    rw [← Option.some.inj h, List.map_append, contentsOf_append, contents_leaves? hfirst,
      contents_fieldLeaves? hothers]
    rfl

end

mutual

theorem contents_readFrom {label : String} : ∀ {b : Binding} {path : String} {ls : List Leaf},
    b.leaves? path = some ls → (b.readFrom label path).contents = 0
  | .scalar _, _, _, _ | .record .., _, _, _ => rfl
  | .object _, _, _, h => contents_readFieldsFrom h
  | .group .., _, _, h => nomatch h

theorem contents_readFieldsFrom {label : String} : ∀ {fields : List (String × Binding)}
    {path : String} {ls : List Leaf}, fieldLeaves? path fields = some ls →
      fieldContents (readFieldsFrom label path fields) = 0
  | [], _, _, _ => rfl
  | (_, b) :: rest, path, ls, h => by
    obtain ⟨first, hfirst, h⟩ := Option.bind_eq_some_iff.1 h
    obtain ⟨others, hothers, -⟩ := Option.bind_eq_some_iff.1 h
    rw [readFieldsFrom, fieldContents, contents_readFrom hfirst, contents_readFieldsFrom hothers,
      add_zero]

end

theorem contents_scalars {ss : List Scalar} {node : Expr} (h : b.scalars node = .ok ss) :
    contentsOf (ss.map Scalar.expr) = b.contents := by
  obtain ⟨ls, hls, rfl⟩ := scalars_ok h
  rw [List.map_map]
  exact contents_leaves? hls

end Binding

namespace Select

def contents (s : Select) : Multiset Select := s.nested

theorem contents_eq (s : Select) : s.contents =
    (nestedOfSource s.source : Multiset Select) + (nestedOfJoins s.joins : Multiset Select) +
      contentsOf s.filter.toList + contentsOf s.selected + contentsOf s.groupBy +
      contentsOf s.having.toList + contentsOf (s.orderBy.map SortKey.expr) + contentsOf s.limit.toList +
      contentsOf s.offset.toList := by
  obtain ⟨_, items, source, joins, filter, groupBy, having, orderBy, limit, offset, _⟩ := s
  simp only [contents, nested, ← Multiset.coe_add, contentsOf, nestedOfOption_eq, nestedOfKeys_eq,
    nestedOfItems_eq, selected]

theorem contents_ofTable (table : Table) :
    (Select.ofTable table).contents = (table.nested : Multiset Select) := by
  rw [contents_eq]
  simp only [ofTable, empty, nestedOfSource, nestedOfJoins, selected, Option.toList_none,
    List.filterMap_nil, List.map_nil, contentsOf_nil, Multiset.coe_nil, add_zero]

variable {s : Select}

theorem contents_withItems (h : s.items = []) (items : List SelectItem) :
    ({ s with items := items } : Select).contents =
      s.contents + contentsOf (items.filterMap SelectItem.expr?) := by
  have hnone : contentsOf s.selected = 0 := by
    rw [selected, h]
    rfl
  rw [contents_eq, contents_eq s, hnone]
  simp only [selected]
  abel

theorem contents_filterBy (s : Select) (e : SqlExpr) :
    (s.filterBy e).contents = s.contents + e.contents := by
  rw [contents_eq, contents_eq s]
  simp only [filterBy, Option.toList_some, contentsOf_cons, contentsOf_nil, contents_conjoin,
    selected]
  abel

theorem contents_havingBy (s : Select) (e : SqlExpr) :
    (s.havingBy e).contents = s.contents + e.contents := by
  rw [contents_eq, contents_eq s]
  simp only [havingBy, Option.toList_some, contentsOf_cons, contentsOf_nil, contents_conjoin,
    selected]
  abel

theorem contents_joined (s : Select) (kind : JoinKind) (table : Table) (condition : Option SqlExpr) :
    ({ s with joins := s.joins ++ [⟨kind, table, condition⟩] } : Select).contents =
      s.contents + table.nested + contentsOf condition.toList := by
  have hjoins : (nestedOfJoins (s.joins ++ [⟨kind, table, condition⟩]) : Multiset Select) =
      nestedOfJoins s.joins + (table.nested + contentsOf condition.toList) := by
    induction s.joins with
    | nil => cases condition <;> simp [nestedOfJoins, nestedOfOption, contentsOf, nestedOfList]
    | cons j joins ih =>
      obtain ⟨_, joined, test⟩ := j
      simp only [List.cons_append, nestedOfJoins, ← Multiset.coe_add, ih, add_assoc]
  rw [contents_eq, contents_eq s]
  simp only [hjoins, selected]
  abel

theorem contents_withLimit (s : Select) (e : SqlExpr) :
    ({ s with limit := some e } : Select).contents ≤ s.contents + e.contents := by
  refine Multiset.le_iff_exists_add.2 ⟨contentsOf s.limit.toList, ?_⟩
  rw [contents_eq, contents_eq { s with limit := some e }]
  simp only [Option.toList_some, contentsOf_cons, contentsOf_nil, selected]
  abel

theorem contents_withOffset (s : Select) (e : SqlExpr) :
    ({ s with offset := some e } : Select).contents ≤ s.contents + e.contents := by
  refine Multiset.le_iff_exists_add.2 ⟨contentsOf s.offset.toList, ?_⟩
  rw [contents_eq, contents_eq { s with offset := some e }]
  simp only [Option.toList_some, contentsOf_cons, contentsOf_nil, selected]
  abel

theorem contents_restarted (s : Select) (keys : List SortKey) :
    ({ s with orderBy := keys } : Select).contents ≤
      s.contents + contentsOf (keys.map SortKey.expr) := by
  refine Multiset.le_iff_exists_add.2 ⟨contentsOf (s.orderBy.map SortKey.expr), ?_⟩
  rw [contents_eq, contents_eq { s with orderBy := keys }]
  simp only [selected]
  abel

theorem contents_orderedBy (s : Select) (keys : List SortKey) :
    ({ s with orderBy := s.orderBy ++ keys } : Select).contents =
      s.contents + contentsOf (keys.map SortKey.expr) := by
  rw [contents_eq, contents_eq s]
  simp only [List.map_append, contentsOf_append, selected]
  abel

theorem contents_groupedBy (s : Select) (keys : List SqlExpr) :
    ({ s with groupBy := keys } : Select).contents ≤ s.contents + contentsOf keys := by
  refine Multiset.le_iff_exists_add.2 ⟨contentsOf s.groupBy, ?_⟩
  rw [contents_eq, contents_eq { s with groupBy := keys }]
  simp only [selected]
  abel

end Select

namespace Rows

/-- The statements nested in rows being built and in what they will select. What is known of groups
is not selected. -/
def contents (rows : Rows) : Multiset Select :=
  rows.select.contents + if rows.row.isGroup then 0 else rows.row.contents

variable {rows : Rows} {node : Expr} {s : Select}

theorem contents_project (h : rows.project node = .ok s) (hitems : rows.select.items = []) :
    s.contents = rows.contents := by
  obtain ⟨ls, hls, rfl⟩ := project_ok.1 h
  have hleaves := (Binding.leaves_of_columns hls).1
  have hgroup : rows.row.isGroup = false := by
    cases hrow : rows.row with
    | group =>
      rw [hrow] at hleaves
      cases hleaves
    | _ => rfl
  rw [Select.contents_withItems hitems, Rows.exprs_items, Binding.contents_leaves? hleaves, contents,
    hgroup, if_neg Bool.false_ne_true]

/-- What is read from a derived table is columns; the values are computed in the table. -/
theorem contents_derived (h : rows.project node = .ok s) (hitems : rows.select.items = [])
    (label : String) (origin : Option Expr) :
    contents ⟨{ Select.ofTable (.subquery s label) with origin := origin },
        rows.row.readFrom label ""⟩ = rows.contents ∧
      (rows.row.readFrom label "").contents = 0 := by
  obtain ⟨ls, hls, -⟩ := project_ok.1 h
  have hrow : (rows.row.readFrom label "").contents = 0 :=
    Binding.contents_readFrom (Binding.leaves_of_columns hls).1
  refine ⟨?_, hrow⟩
  rw [← contents_project h hitems, contents, hrow, ite_self, add_zero]
  exact Select.contents_ofTable (.subquery s _)

theorem contents_withOrigin (rows : Rows) (origin : Expr) :
    (rows.withOrigin origin).contents = rows.contents := by
  obtain ⟨⟨_, _, _, _, _, _, _, _, _, _, _⟩, _⟩ := rows
  rfl

theorem contents_asDistinct (rows : Rows) :
    contents { rows with select := { rows.select with distinct := true } } = rows.contents := by
  obtain ⟨⟨_, _, _, _, _, _, _, _, _, _, _⟩, _⟩ := rows
  rfl

theorem contents_ofGroups (s : Select) (key element : Binding) :
    contents ⟨s, .group key element⟩ = s.contents :=
  add_zero _

theorem contents_le (rows : Rows) : rows.contents ≤ rows.select.contents + rows.row.contents := by
  rw [contents]
  split
  · exact add_le_add_right (Multiset.zero_le _) _
  · exact le_rfl

end Rows

end SequenceQuery
