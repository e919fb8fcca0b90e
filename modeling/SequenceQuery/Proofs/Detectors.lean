import SequenceQuery.Proofs.Discipline
import SequenceQuery.Proofs.Restrictions

namespace SequenceQuery

theorem any_or {α : Type} (p q : α → Bool) (xs : List α) :
    xs.any (fun x => p x || q x) = (xs.any p || xs.any q) := by
  induction xs with
  | nil => rfl
  | cons x xs ih => simp [ih, Bool.or_assoc, Bool.or_left_comm]

theorem any_toList {α : Type} (p : α → Bool) (x : Option α) : x.toList.any p = x.any p := by
  cases x <;> simp

theorem any_filterMap {α β : Type} (f : α → Option β) (p : β → Bool) (xs : List α) :
    (xs.filterMap f).any p = xs.any fun x => (f x).any p := by
  rw [List.any_filterMap]
  refine congrArg xs.any (funext fun x => ?_)
  cases f x <;> rfl

/-- Whether something is found in a clause that operators only ever add to. -/
def Select.anyClause (table : Table → Bool) (expr : SqlExpr → Bool) (s : Select) : Bool :=
  s.source.any table || s.joins.any (fun j => table j.table || j.condition.any expr) ||
    s.filter.any expr || s.groupBy.any expr || s.having.any expr || s.limit.any expr ||
    s.offset.any expr

/-- What can be looked for in a statement, at any depth: the parameters of the segment, or a test that
is selected as it is. -/
structure Sought where
  segment : Bool
  test : Bool

/-- Where it is found: in what has a part that it is found in, and wherever it stands itself. -/
structure Detector (sought : Sought) where
  expr : SqlExpr → Bool
  table : Table → Bool
  select : Select → Bool
  column : ∀ label name, expr (.columnOf label name) = false
  wildcard : expr .wildcard = false
  literal : ∀ value, expr (.literal value) = false
  slot : ∀ k, expr (.param (.slot k)) = false
  segmentStart : expr (.param .segmentStart) = sought.segment
  segmentLength : expr (.param .segmentLength) = sought.segment
  binary : ∀ op l r, expr (.binary op l r) = (expr l || expr r)
  unary : ∀ op e, expr (.unary op e) = expr e
  isNull : ∀ e negated, expr (.isNull e negated) = expr e
  function : ∀ name es, expr (.function name es) = es.any expr
  aggregateOf : ∀ name e, expr (.aggregateOf name [e]) = expr e
  cases : ∀ test value otherwise, expr (.cases [(test, value)] otherwise) =
    (expr test || expr value || otherwise.any expr)
  subquery : ∀ s, expr (.subquery s) = select s
  exist : ∀ s negated, expr (.exist s negated) = select s
  isIn : ∀ e s negated, expr (.isIn e s negated) = (expr e || select s)
  named : ∀ schema name label, table (.table schema name label) = false
  derived : ∀ s label, table (.subquery s label) = select s
  statement : ∀ s, select s = (s.selected.any (fun e => expr e || sought.test && e.isTest) ||
    s.orderBy.any (fun k => expr k.expr) || s.anyClause table expr)

/-- What is left of a binding without its expressions: whether something is found in each value, and
whether it is a test. -/
inductive Sketch
  | value (found test : Bool)
  | parts (fields : List (String × Sketch))
  | group (key element : Sketch)

namespace Sketch

def found : Sketch → Bool
  | .value found _ => found
  | _ => false

def isGroup : Sketch → Bool
  | .group .. => true
  | _ => false

def element? : Sketch → Option Sketch
  | .group _ element => some element
  | _ => none

def ofEntity (entity : Entity) : Sketch :=
  .parts (entity.properties.map fun p => (p.name, .value false false))

def part? (s : Sketch) (name : String) : Option Sketch :=
  match s with
  | .value .. => none
  | .parts fields => (Text.findNamed? Prod.fst name fields).map Prod.snd
  | .group key _ => if Text.sameFold name "key" then some key else none

mutual

def leaves : Sketch → List (Bool × Bool)
  | .value found test => [(found, test)]
  | .parts fields => fieldLeaves fields
  | .group .. => []

def fieldLeaves : List (String × Sketch) → List (Bool × Bool)
  | [] => []
  | (_, s) :: rest => s.leaves ++ fieldLeaves rest

end

mutual

/-- The columns that are read of a derived table. -/
def readBack : Sketch → Sketch
  | .value .. => .value false false
  | .parts fields => .parts (readFieldsBack fields)
  | .group key element => .group key element

def readFieldsBack : List (String × Sketch) → List (String × Sketch)
  | [] => []
  | (name, s) :: rest => (name, s.readBack) :: readFieldsBack rest

end

end Sketch

structure RowsSketch where
  row : Sketch
  clauses : Bool
  order : Bool
  limit : Bool
  offset : Bool
  distinct : Bool
  groups : Bool
  ordered : Bool
  /-- Whether a single table is named and nothing is asked of its rows. -/
  plain : Bool

namespace RowsSketch

def hasPaging (s : RowsSketch) : Bool := s.limit || s.offset

def isBareTable (s : RowsSketch) : Bool :=
  s.plain && !s.distinct && !s.groups && !s.ordered && !s.hasPaging

/-- Whether something is found once the row has been selected. -/
def projected (s : RowsSketch) : Bool :=
  s.clauses || s.order || s.row.leaves.any fun l => l.1 || l.2

def wrap (s : RowsSketch) : RowsSketch :=
  ⟨s.row.readBack, s.projected, false, false, false, false, false, false, false⟩

def wrapIf (condition : Bool) (s : RowsSketch) : RowsSketch := if condition then s.wrap else s

def adding (s : RowsSketch) (found : Bool) : RowsSketch :=
  { s with clauses := s.clauses || found, plain := false }

def withLimit (s : RowsSketch) (found : Bool) : RowsSketch :=
  { s with clauses := s.clauses || found, limit := true }

def withOffset (s : RowsSketch) (found : Bool) : RowsSketch :=
  { s with clauses := s.clauses || found, offset := true }

def unordered (s : RowsSketch) : RowsSketch := { s with order := false, ordered := false }

def orderedOnlyIfPaged (s : RowsSketch) : RowsSketch := if s.hasPaging then s else s.unordered

def forAggregate (s : RowsSketch) : RowsSketch :=
  (s.wrapIf (s.hasPaging || s.distinct || s.groups)).unordered

theorem unpaged_wrapIf (s : RowsSketch) :
    (s.wrapIf s.hasPaging).limit = false ∧ (s.wrapIf s.hasPaging).offset = false := by
  cases h : s.hasPaging with
  | true => exact ⟨rfl, rfl⟩
  | false => exact Bool.or_eq_false_iff.1 h

theorem limit_wrapIf (s : RowsSketch) : (s.wrapIf s.limit).limit = false := by
  cases h : s.limit with
  | true => rfl
  | false => exact h

theorem groups_wrapIf (s : RowsSketch) :
    (s.wrapIf (s.hasPaging || s.distinct || s.groups)).groups = false := by
  cases h : s.hasPaging || s.distinct || s.groups with
  | true => rfl
  | false => exact (Bool.or_eq_false_iff.1 h).2

end RowsSketch

section

variable {sought : Sought} (δ : Detector sought)

namespace Binding

mutual

def sketch : Binding → Sketch
  | .record _ entity _ _ => .ofEntity entity
  | .object fields => .parts (fieldSketches fields)
  | .scalar s => .value (δ.expr s.expr) (sought.test && s.expr.isTest)
  | .group key element => .group key.sketch element.sketch

def fieldSketches : List (String × Binding) → List (String × Sketch)
  | [] => []
  | (name, b) :: rest => (name, b.sketch) :: fieldSketches rest

end

end Binding

def Scope.sketch (scope : Scope) : List (String × Sketch) :=
  scope.map fun entry => (entry.1, entry.2.sketch δ)

def Rows.sketch (rows : Rows) : RowsSketch where
  row := rows.row.sketch δ
  clauses := rows.select.anyClause δ.table δ.expr
  order := rows.select.orderBy.any fun k => δ.expr k.expr
  limit := rows.select.limit.isSome
  offset := rows.select.offset.isSome
  distinct := rows.select.distinct
  groups := rows.select.hasGroups
  ordered := !rows.select.orderBy.isEmpty
  plain := rows.select.source.any (fun t => t.query?.isNone) && rows.select.joins.isEmpty &&
    rows.select.filter.isNone && rows.select.having.isNone

end

section Bindings

variable {sought : Sought} {δ : Detector sought} {b found : Binding} {s : Scalar} {node : Expr}
  {name : String}

namespace Binding

theorem fieldSketches_eq_map (fields : List (String × Binding)) :
    fieldSketches δ fields = fields.map fun f => (f.1, f.2.sketch δ) := by
  induction fields with
  | nil => rfl
  | cons f fields ih => rw [fieldSketches, ih, List.map_cons]

theorem sketch_column (label name : String) (nullable : Bool) :
    (scalar ⟨.columnOf label name, nullable⟩).sketch δ = .value false false := by
  rw [sketch, δ.column]
  exact congrArg (Sketch.value false) (Bool.and_false _)

theorem sketch_scalar {value : Bool} (h : δ.expr s.expr = value) (htest : s.expr.isTest = false) :
    (scalar s).sketch δ = .value value false := by
  rw [sketch, h, htest, Bool.and_false]

mutual

theorem sketch_readFrom (label path : String) : ∀ b : Binding,
    (b.readFrom label path).sketch δ = (b.sketch δ).readBack
  | .record _ entity _ _ => by
    have hcolumns : ∀ ps : List Property, Sketch.readFieldsBack
        (ps.map fun p => (p.name, .value false false)) = ps.map fun p => (p.name, .value false false) := by
      intro ps
      induction ps with
      | nil => rfl
      | cons p ps ih => rw [List.map_cons, Sketch.readFieldsBack, ih, Sketch.readBack]
    exact congrArg Sketch.parts (hcolumns entity.properties).symm
  | .object fields => congrArg Sketch.parts (fieldSketches_readFieldsFrom label path fields)
  | .scalar s => sketch_column ..
  | .group .. => rfl

theorem fieldSketches_readFieldsFrom (label path : String) : ∀ fields : List (String × Binding),
    fieldSketches δ (readFieldsFrom label path fields) =
      Sketch.readFieldsBack (fieldSketches δ fields)
  | [] => rfl
  | (name, b) :: rest => by
    rw [readFieldsFrom, fieldSketches, sketch_readFrom label _ b,
      fieldSketches_readFieldsFrom label path rest, fieldSketches, Sketch.readFieldsBack]

end

mutual

theorem sketch_asOptional : ∀ b : Binding, b.asOptional.sketch δ = b.sketch δ
  | .record .. | .scalar _ | .group .. => rfl
  | .object fields => congrArg Sketch.parts (fieldSketches_fieldsAsOptional fields)

theorem fieldSketches_fieldsAsOptional : ∀ fields : List (String × Binding),
    fieldSketches δ (fieldsAsOptional fields) = fieldSketches δ fields
  | [] => rfl
  | (name, b) :: rest => by
    rw [fieldsAsOptional, fieldSketches, sketch_asOptional b, fieldSketches_fieldsAsOptional rest,
      fieldSketches]

end

theorem sketch_member (h : b.member name node = .ok found) :
    (b.sketch δ).part? name = some (found.sketch δ) := by
  cases member_ok h with
  | column hp =>
    have hkey : ∀ p : Property, (p.name, Sketch.value false false).1 = p.name := fun _ => rfl
    rw [sketch_column, sketch, Sketch.ofEntity, Sketch.part?, findNamed?_map hkey]
    exact congrArg (fun p => Option.map Prod.snd (Option.map _ p)) hp
  | field hf =>
    have hkey : ∀ f : String × Binding, (f.1, f.2.sketch δ).1 = f.1 := fun _ => rfl
    rw [sketch, Sketch.part?, fieldSketches_eq_map, findNamed?_map hkey, hf]
    rfl
  | key hk => exact if_pos hk

theorem found_sketch (h : b.asScalar node = .ok s) : (b.sketch δ).found = δ.expr s.expr := by
  rw [asScalar_ok h]
  rfl

theorem isGroup_sketch (b : Binding) : (b.sketch δ).isGroup = b.isGroup := by
  cases b <;> rfl

mutual

theorem leaves_sketch : ∀ {b : Binding} {path : String} {ls : List Leaf}, b.leaves? path = some ls →
    (b.sketch δ).leaves =
      ls.map fun l => (δ.expr l.scalar.expr, sought.test && l.scalar.expr.isTest)
  | .record _ entity _ _, path, ls, h => by
    cases h
    have hcolumns : ∀ ps : List Property, Sketch.fieldLeaves
        (ps.map fun p => (p.name, .value false false)) = ps.map fun _ => (false, false) := by
      intro ps
      induction ps with
      | nil => rfl
      | cons p ps ih => rw [List.map_cons, Sketch.fieldLeaves, ih]; rfl
    rw [sketch, Sketch.ofEntity, Sketch.leaves, hcolumns, List.map_map]
    refine List.map_congr_left fun p _ => ?_
    show _ = (δ.expr _, _)
    rw [δ.column]
    exact congrArg (Prod.mk false) (Bool.and_false _).symm
  | .object fields, path, ls, h => fieldLeaves_sketch h
  | .scalar s, path, ls, h => by
    cases h
    rfl
  | .group .., _, _, h => nomatch h

theorem fieldLeaves_sketch : ∀ {fields : List (String × Binding)} {path : String} {ls : List Leaf},
    fieldLeaves? path fields = some ls → Sketch.fieldLeaves (fieldSketches δ fields) =
      ls.map fun l => (δ.expr l.scalar.expr, sought.test && l.scalar.expr.isTest)
  | [], _, _, h => by
    cases h
    rfl
  | (name, b) :: rest, path, ls, h => by
    obtain ⟨first, hfirst, h⟩ := Option.bind_eq_some_iff.1 h
    obtain ⟨others, hothers, h⟩ := Option.bind_eq_some_iff.1 h
    cases h
    rw [fieldSketches, Sketch.fieldLeaves, leaves_sketch hfirst, fieldLeaves_sketch hothers,
      List.map_append]

end

theorem scalars_sketch (δ : Detector sought) {ss : List Scalar} (h : b.scalars node = .ok ss) :
    (b.sketch δ).leaves.any Prod.fst = ss.any (fun s => δ.expr s.expr) ∧
      (b.sketch δ).leaves.isEmpty = ss.isEmpty := by
  obtain ⟨ls, hls, rfl⟩ := scalars_ok h
  rw [leaves_sketch hls, List.any_map, List.any_map, List.isEmpty_map, List.isEmpty_map]
  exact ⟨rfl, rfl⟩

end Binding

namespace Scope

theorem lookup_sketch {scope : Scope} (h : scope.lookup name = some b) :
    (scope.sketch δ).lookup name = some (b.sketch δ) := by
  induction scope with
  | nil => cases h
  | cons entry scope ih =>
    obtain ⟨bound, value⟩ := entry
    rw [List.lookup_cons] at h
    rw [sketch, List.map_cons, List.lookup_cons]
    dsimp only
    cases hname : name == bound with
    | true =>
      rw [hname] at h
      exact congrArg (fun b => some (b.sketch δ)) (Option.some.inj h)
    | false =>
      rw [hname] at h
      exact ih h

theorem sketch_zip (params : List String) (elements : List Binding) (scope : Scope) :
    sketch δ ((params.zip elements).reverse ++ scope) =
      (params.zip (elements.map (Binding.sketch δ))).reverse ++ scope.sketch δ := by
  rw [sketch, List.map_append, List.map_reverse, List.zip_map_right]
  rfl

end Scope

variable {rows : Rows} {e : SqlExpr} {select : Select}

namespace Rows

theorem select_project (h : rows.project node = .ok select) :
    δ.select select = (rows.sketch δ).projected := by
  obtain ⟨ls, hls, rfl⟩ := project_ok.1 h
  have hselected : ({ rows.select with items := items ls } : Select).selected =
      ls.map fun l => l.scalar.expr := exprs_items ls
  rw [δ.statement, hselected, RowsSketch.projected, sketch,
    Binding.leaves_sketch (Binding.leaves_of_columns hls).1, List.any_map, List.any_map]
  exact (Bool.or_comm _ _).trans (congrArg _ (Bool.or_comm _ _) |>.trans (Bool.or_assoc ..).symm)

theorem select_selecting (e : SqlExpr) : δ.select (rows.selecting e) =
    ((rows.sketch δ).clauses || (rows.sketch δ).order || (δ.expr e || sought.test && e.isTest)) := by
  rw [δ.statement]
  simp only [selecting, Select.selected, List.filterMap_cons, SelectItem.expr?, List.filterMap_nil,
    List.any_cons, List.any_nil, Bool.or_false]
  exact (Bool.or_comm _ _).trans (congrArg _ (Bool.or_comm _ _) |>.trans (Bool.or_assoc ..).symm)

theorem sketch_wrap (label : String) (h : rows.project node = .ok select) (origin : Expr) :
    sketch δ ⟨{ Select.ofTable (.subquery select label) with origin := some origin },
      rows.row.readFrom label ""⟩ = (rows.sketch δ).wrap := by
  have hselect : δ.table (.subquery select label) = (rows.sketch δ).projected :=
    (δ.derived _ _).trans (select_project h)
  rw [sketch, RowsSketch.wrap, ← hselect, Binding.sketch_readFrom]
  simp [Select.ofTable, Select.empty, Select.anyClause, Select.hasGroups, sketch, Table.query?]

theorem sketch_wrapIf (δ : Detector sought) (rows : Rows) (condition : Bool) (node : Expr) :
    Yields False (rows.wrapIf condition node)
      (fun rows' => rows'.sketch δ = (rows.sketch δ).wrapIf condition) False := by
  cases condition with
  | false => exact .pure rfl
  | true =>
    exact .bind (.lift fun _ => id) fun s hs => .bind (.any _) fun label _ =>
      .pure (sketch_wrap label hs node)

theorem sketch_withLimit (h : (rows.sketch δ).limit = false) (e : SqlExpr) :
    (rows.withLimit e).sketch δ = (rows.sketch δ).withLimit (δ.expr e) := by
  have hnone : rows.select.limit = none := Option.not_isSome_iff_eq_none.1 (by simpa [sketch] using h)
  simp [sketch, withLimit, RowsSketch.withLimit, Select.anyClause, Select.hasGroups, hnone,
    Bool.or_comm, Bool.or_left_comm]

theorem sketch_withOffset (h : (rows.sketch δ).offset = false) (e : SqlExpr) :
    (rows.withOffset e).sketch δ = (rows.sketch δ).withOffset (δ.expr e) := by
  have hnone : rows.select.offset = none := Option.not_isSome_iff_eq_none.1 (by simpa [sketch] using h)
  simp [sketch, withOffset, RowsSketch.withOffset, Select.anyClause, Select.hasGroups, hnone]

theorem sketch_withOrigin (origin : Expr) : (rows.withOrigin origin).sketch δ = rows.sketch δ := rfl

theorem any_conjoin (existing : Option SqlExpr) (e : SqlExpr) :
    (some (SqlExpr.conjoin existing e)).any δ.expr = (existing.any δ.expr || δ.expr e) := by
  cases existing with
  | none => rfl
  | some first => exact δ.binary _ _ _

theorem sketch_filterBy (e : SqlExpr) : sketch δ { rows with select := rows.select.filterBy e } =
    (rows.sketch δ).adding (δ.expr e) := by
  rw [sketch, RowsSketch.adding]
  simp only [Select.filterBy, Select.anyClause, any_conjoin]
  simp [sketch, Select.anyClause, Select.hasGroups, Bool.or_assoc, Bool.or_comm, Bool.or_left_comm]

theorem sketch_havingBy (e : SqlExpr) : sketch δ { rows with select := rows.select.havingBy e } =
    (rows.sketch δ).adding (δ.expr e) := by
  rw [sketch, RowsSketch.adding]
  simp only [Select.havingBy, Select.anyClause, any_conjoin]
  simp [sketch, Select.anyClause, Select.hasGroups, Bool.or_assoc, Bool.or_comm, Bool.or_left_comm]

theorem sketch_joined (j : Join) (row : Binding) :
    sketch δ ⟨{ rows.select with joins := rows.select.joins ++ [j] }, row⟩ =
      { (rows.sketch δ).adding (δ.table j.table || j.condition.any δ.expr) with
        row := row.sketch δ } := by
  simp [sketch, RowsSketch.adding, Select.anyClause, Select.hasGroups, Bool.or_assoc, Bool.or_comm,
    Bool.or_left_comm]

theorem sketch_groupedBy {keys : List Scalar} (h : (rows.sketch δ).groups = false)
    (key element : Binding) :
    sketch δ ⟨{ rows.select with groupBy := keys.map Scalar.expr }, .group key element⟩ =
      { rows.sketch δ with
        row := .group (key.sketch δ) (element.sketch δ)
        clauses := (rows.sketch δ).clauses || keys.any fun s => δ.expr s.expr
        groups := !keys.isEmpty } := by
  have hnone : rows.select.groupBy = [] := by simpa [sketch, Select.hasGroups] using h
  simp [sketch, Binding.sketch, Select.anyClause, Select.hasGroups, hnone, List.any_map,
    Function.comp_def, Bool.or_assoc, Bool.or_comm, Bool.or_left_comm]

theorem sketch_orderedBy (restart ascending : Bool) (keys : List Scalar) :
    sketch δ { rows with select := { rows.select with
      orderBy := (if restart then [] else rows.select.orderBy) ++
        keys.map fun s => ⟨s.expr, ascending⟩ } } =
      { rows.sketch δ with
        order := !restart && (rows.sketch δ).order || keys.any fun s => δ.expr s.expr
        ordered := !restart && (rows.sketch δ).ordered || !keys.isEmpty } := by
  have hempty : ∀ before more : List SortKey,
      (before ++ more).isEmpty = (before.isEmpty && more.isEmpty) := by
    intro before more
    cases before <;> rfl
  cases restart <;>
    simp [sketch, Select.anyClause, Select.hasGroups, Function.comp_def, hempty]

theorem sketch_unordered :
    sketch δ { rows with select := { rows.select with orderBy := [] } } = (rows.sketch δ).unordered := by
  simp [sketch, RowsSketch.unordered, Select.anyClause, Select.hasGroups]

theorem sketch_orderedOnlyIfPaged :
    rows.orderedOnlyIfPaged.sketch δ = (rows.sketch δ).orderedOnlyIfPaged := by
  rw [orderedOnlyIfPaged, RowsSketch.orderedOnlyIfPaged]
  have hpaging : (rows.sketch δ).hasPaging = rows.select.hasPaging := rfl
  rw [hpaging]
  split
  · rfl
  · exact sketch_unordered

theorem sketch_forAggregate (δ : Detector sought) (rows : Rows) (node : Expr) :
    Yields False (rows.forAggregate node)
      (fun rows' => rows'.sketch δ = (rows.sketch δ).forAggregate) False := by
  rw [forAggregate]
  split
  · exact .refused _ _
  · refine (sketch_wrapIf δ rows _ node).bind fun rows' hwrapped => .pure ?_
    rw [sketch_unordered, hwrapped]
    rfl

theorem select_existing : δ.select (rows.orderedOnlyIfPaged.selecting (.int 1)) =
    ((rows.sketch δ).orderedOnlyIfPaged.clauses || (rows.sketch δ).orderedOnlyIfPaged.order) := by
  rw [select_selecting, sketch_orderedOnlyIfPaged, SqlExpr.int, δ.literal]
  exact (congrArg _ (Bool.and_false _)).trans (Bool.or_false _)

theorem isBareTable_sketch : (rows.sketch δ).isBareTable = rows.select.isBareTable := by
  simp only [RowsSketch.isBareTable, sketch, RowsSketch.hasPaging, Select.isBareTable,
    Select.hasPaging]
  cases rows.select.source with
  | none => simp
  | some t =>
    cases t <;> simp [Table.query?, Bool.and_assoc, Bool.and_comm, Bool.and_left_comm]

theorem clauses_ofTable (t : Table) (row : Binding) (origin : Expr) :
    (sketch δ ⟨{ Select.ofTable t with origin := some origin }, row⟩).clauses = δ.table t := by
  simp [sketch, Select.ofTable, Select.empty, Select.anyClause]

theorem clauses_of_isBareTable (h : rows.select.isBareTable = true) :
    (rows.sketch δ).clauses = rows.select.source.any δ.table := by
  simp only [Select.isBareTable, Select.hasGroups, Select.hasPaging, Bool.and_eq_true,
    Bool.not_eq_true', Bool.or_eq_false_iff] at h
  simp_all [sketch, Select.anyClause]

/-- What is joined is all that a statement has, or the statement as a derived table. -/
theorem sketch_wrapUnlessBare (δ : Detector sought) (rows : Rows) (node : Expr) :
    Yields False (rows.wrapIf (!rows.select.isBareTable) node)
      (fun rows' => rows'.sketch δ = (rows.sketch δ).wrapIf (!(rows.sketch δ).isBareTable) ∧
        (rows'.sketch δ).clauses = rows'.select.source.any δ.table) False := by
  rw [isBareTable_sketch]
  refine (sketch_wrapIf δ rows _ node).both ?_
  cases hbare : rows.select.isBareTable with
  | true => exact .pure (clauses_of_isBareTable hbare)
  | false =>
    exact .bind (.any _) fun s _ => .bind (.any _) fun label _ => .pure (clauses_ofTable _ _ _)

end Rows

end Bindings

end SequenceQuery
