import SequenceQuery.Proofs.Building
import SequenceQuery.Proofs.DetectionDrafts
import SequenceQuery.Proofs.StatementPieces

namespace SequenceQuery

def Source.ofSegment : Source → Bool
  | .slot _ => false
  | .segmentStart | .segmentLength => true

def Piece.asks (piece : Piece) : Bool := piece.source?.any Source.ofSegment

def SqlExpr.asks (e : SqlExpr) : Bool := e.pieces.any Piece.asks

def Table.asks (t : Table) : Bool := t.pieces.any Piece.asks

def Join.asks (j : Join) : Bool := j.table.asks || j.condition.any SqlExpr.asks

def SelectItem.asks : SelectItem → Bool
  | .wildcard => false
  | .expr e _ => e.asks

namespace Select

def asks (s : Select) : Bool := s.pieces.any Piece.asks

/-- In a clause that operators only ever add to. -/
def clausesAsk (s : Select) : Bool :=
  s.source.any Table.asks || s.joins.any Join.asks || s.filter.any SqlExpr.asks ||
    s.groupBy.any SqlExpr.asks || s.having.any SqlExpr.asks || s.limit.any SqlExpr.asks ||
    s.offset.any SqlExpr.asks

def orderAsks (s : Select) : Bool := s.orderBy.any fun k => k.expr.asks

theorem clausesAsk_iff {s : Select} : s.clausesAsk = true ↔
    s.source.any Table.asks = true ∨ s.joins.any Join.asks = true ∨
      s.filter.any SqlExpr.asks = true ∨ s.groupBy.any SqlExpr.asks = true ∨
      s.having.any SqlExpr.asks = true ∨ s.limit.any SqlExpr.asks = true ∨
      s.offset.any SqlExpr.asks = true := by
  simp only [clausesAsk, Bool.or_eq_true, or_assoc]

end Select

section Pieces

theorem any_names (names : List String) : (names.map Piece.name).any Piece.asks = false := by
  simp [List.any_map, Function.comp_def, Piece.asks, Piece.source?]

theorem any_optionPieces (e : Option SqlExpr) :
    (optionPieces e).any Piece.asks = e.any SqlExpr.asks := by
  cases e <;> rfl

theorem any_listPieces (es : List SqlExpr) :
    (listPieces es).any Piece.asks = es.any SqlExpr.asks := by
  induction es with
  | nil => rfl
  | cons e es ih => rw [listPieces, List.any_append, ih, List.any_cons, SqlExpr.asks]

theorem any_keyPieces (keys : List SortKey) :
    (keyPieces keys).any Piece.asks = keys.any fun k => k.expr.asks := by
  induction keys with
  | nil => rfl
  | cons k keys ih =>
    obtain ⟨e, ascending⟩ := k
    rw [keyPieces, List.any_append, ih, List.any_cons, SqlExpr.asks]

theorem any_joinPieces (joins : List Join) :
    (joinPieces joins).any Piece.asks = joins.any Join.asks := by
  induction joins with
  | nil => rfl
  | cons j joins ih =>
    obtain ⟨kind, table, condition⟩ := j
    rw [joinPieces, List.any_append, List.any_append, any_optionPieces, ih, List.any_cons]
    rfl

theorem any_itemPieces (items : List SelectItem) :
    (itemPieces items).any Piece.asks = items.any SelectItem.asks := by
  induction items with
  | nil => rfl
  | cons item items ih =>
    cases item with
    | wildcard => exact ih
    | expr e label =>
      rw [itemPieces, List.any_append, List.any_append, any_names, ih, Bool.or_false]
      rfl

theorem any_items (s : Select) : s.items.any SelectItem.asks = s.selected.any SqlExpr.asks := by
  rw [Select.selected, any_filterMap]
  refine congrArg s.items.any (funext fun item => ?_)
  cases item <;> rfl

theorem any_sourcePieces (t : Option Table) :
    (sourcePieces t).any Piece.asks = t.any Table.asks := by
  cases t <;> rfl

/-- A statement asks for the segment in what it selects, in how it is sorted or elsewhere. -/
theorem Select.asks_iff (s : Select) : s.asks = true ↔
    s.items.any SelectItem.asks = true ∨ s.orderAsks = true ∨ s.clausesAsk = true := by
  obtain ⟨distinct, items, source, joins, filter, groupBy, having, orderBy, limit, offset, origin⟩ := s
  simp only [asks, pieces, List.any_append, any_itemPieces, any_sourcePieces, any_joinPieces,
    any_optionPieces, any_listPieces, any_keyPieces, orderAsks, clausesAsk, Bool.or_eq_true]
  tauto

theorem Select.asks_ofItem {e : SqlExpr} (h : e.asks = true) (origin : Expr) :
    (Select.ofItem e origin).asks = true :=
  (Select.asks_iff _).2 (.inl (by simpa [ofItem, SelectItem.asks] using h))

end Pieces

namespace SqlExpr

variable {l r : SqlExpr}

theorem asks_binary (op : SqlBinary) : (SqlExpr.binary op l r).asks = (l.asks || r.asks) := by
  simp [asks, pieces, Piece.asks, Piece.source?]

theorem asks_int (n : Int64) : (int n).asks = false := rfl

theorem asks_unary (op : SqlUnary) : (SqlExpr.unary op l).asks = l.asks := by
  simp [asks, pieces, Piece.asks, Piece.source?]

theorem asks_isNull (negated : Bool) : (SqlExpr.isNull l negated).asks = l.asks := by
  simp [asks, pieces, Piece.asks, Piece.source?]

theorem asks_function (name : String) (es : List SqlExpr) :
    (SqlExpr.function name es).asks = es.any asks := by
  rw [asks, pieces, List.any_cons, any_listPieces]
  rfl

theorem asks_coalesce (es : List SqlExpr) : (coalesce es).asks = es.any asks :=
  asks_function _ es

theorem asks_aggregateOf (name : String) (es : List SqlExpr) :
    (aggregateOf name es).asks = es.any asks := by
  rw [asks, aggregateOf, pieces, List.any_cons, any_listPieces]
  rfl

theorem asks_cases (test value : SqlExpr) (otherwise : Option SqlExpr) :
    (SqlExpr.cases [(test, value)] otherwise).asks =
      (test.asks || value.asks || otherwise.any asks) := by
  simp [asks, pieces, armPieces, Piece.asks, Piece.source?, any_optionPieces, Bool.or_assoc]

theorem asks_subquery (s : Select) : (SqlExpr.subquery s).asks = s.asks := by
  simp [asks, pieces, Piece.asks, Piece.source?, Select.asks]

theorem asks_exist (s : Select) (negated : Bool) : (SqlExpr.exist s negated).asks = s.asks := by
  simp [asks, pieces, Piece.asks, Piece.source?, Select.asks]

theorem asks_isIn (s : Select) (negated : Bool) :
    (SqlExpr.isIn l s negated).asks = (l.asks || s.asks) := by
  simp [asks, pieces, Piece.asks, Piece.source?, Select.asks]

theorem any_conjoin (existing : Option SqlExpr) (e : SqlExpr) :
    (some (conjoin existing e)).any asks = true ↔ existing.any asks = true ∨ e.asks = true := by
  rw [Option.any_some, ← Bool.or_eq_true]
  cases existing with
  | none => rfl
  | some first => exact Bool.eq_iff_iff.1 (asks_binary _)

end SqlExpr

theorem asks_negateIf (negate : Bool) (e : SqlExpr) : (negateIf negate e).asks = e.asks := by
  cases negate with
  | false => rfl
  | true => exact SqlExpr.asks_unary _

namespace Binding

mutual

def asks : Binding → Bool
  | .record .. => false
  | .object fields => fieldsAsk fields
  | .scalar s => s.expr.asks
  | .group key element => key.asks || element.asks

def fieldsAsk : List (String × Binding) → Bool
  | [] => false
  | (_, b) :: rest => b.asks || fieldsAsk rest

end

theorem asks_columnOf (label name : String) : (SqlExpr.columnOf label name).asks = false := rfl

mutual

theorem asks_leaves? : ∀ {b : Binding} {path : String} {ls : List Leaf}, b.leaves? path = some ls →
    b.asks = ls.any fun l => l.scalar.expr.asks
  | .scalar s, path, ls, h => by
    cases h
    simp [asks]
  | .record label entity columnPrefix optional, path, ls, h => by
    cases h
    simp [asks, List.any_map, Function.comp_def, asks_columnOf]
  | .object fields, path, ls, h => asks_fieldLeaves? h
  | .group .., _, _, h => nomatch h

theorem asks_fieldLeaves? : ∀ {fields : List (String × Binding)} {path : String} {ls : List Leaf},
    fieldLeaves? path fields = some ls → fieldsAsk fields = ls.any fun l => l.scalar.expr.asks
  | [], path, ls, h => by
    cases h
    rfl
  | (name, b) :: rest, path, ls, h => by
    obtain ⟨first, hfirst, h⟩ := Option.bind_eq_some_iff.1 h
    obtain ⟨others, hothers, h⟩ := Option.bind_eq_some_iff.1 h
    cases h
    rw [fieldsAsk, asks_leaves? hfirst, asks_fieldLeaves? hothers, List.any_append]

end

theorem asks_asScalar {b : Binding} {s : Scalar} {node : Expr} (h : b.asScalar node = .ok s) :
    s.expr.asks = b.asks := by
  rw [asScalar_ok h]
  rfl

theorem asks_scalars {b : Binding} {ss : List Scalar} {node : Expr} (h : b.scalars node = .ok ss) :
    (ss.any fun s => s.expr.asks) = b.asks := by
  rw [scalars, leaves] at h
  cases hleaves : b.leaves? "" with
  | none =>
    rw [hleaves] at h
    cases h
  | some ls =>
    rw [hleaves] at h
    cases h
    rw [asks_leaves? hleaves, List.any_map]
    rfl

end Binding

namespace Rows

variable {rows base : Rows} {node : Expr} {s : Select} {row order : Prop}

/-- The segment is asked for, where `row` and `order` say whether it counts in what a row is and in
what the rows are sorted by. -/
def Shows (row order : Prop) (rows : Rows) : Prop :=
  rows.select.clausesAsk = true ∨ rows.row.asks = true ∧ row ∨ rows.select.orderAsks = true ∧ order

theorem Shows.imp {row' order' : Prop} (h : rows.Shows row order) (hrow : row → row')
    (horder : order → order') : rows.Shows row' order' :=
  Or.imp_right (Or.imp (And.imp_right hrow) (And.imp_right horder)) h

theorem asks_item (e : SqlExpr) (name : String) : (item e name).asks = e.asks := by
  cases e <;> rfl

theorem asks_project (h : rows.project node = .ok s) (hrows : rows.Shows row order) :
    s.asks = true := by
  obtain ⟨ls, hls, rfl⟩ := project_ok.1 h
  rw [Select.asks_iff]
  rcases hrows with h | ⟨h, -⟩ | ⟨h, -⟩
  · exact .inr (.inr h)
  · rw [Binding.asks_leaves? (Binding.leaves_of_columns hls).1] at h
    obtain ⟨l, hl, h⟩ := List.any_eq_true.1 h
    refine .inl (List.any_eq_true.2 ⟨item l.scalar.expr l.name, List.mem_map_of_mem hl, ?_⟩)
    rw [asks_item, h]
  · exact .inr (.inl h)

theorem Shows.withOrigin (h : rows.Shows row order) (origin : Expr) :
    (rows.withOrigin origin).Shows row order := h

theorem asks_selecting {e : SqlExpr} (h : e.asks = true) : (rows.selecting e).asks = true :=
  (Select.asks_iff _).2 (.inl (by simpa [selecting, SelectItem.asks] using h))

theorem Shows.asks_selecting (h : rows.Shows False order) (e : SqlExpr) :
    (rows.selecting e).asks = true := by
  rw [Select.asks_iff]
  rcases h with h | ⟨-, h⟩ | ⟨h, -⟩
  · exact .inr (.inr h)
  · exact h.elim
  · exact .inr (.inl h)

theorem Shows.orderedOnlyIfPaged (h : rows.Shows row False) :
    rows.orderedOnlyIfPaged.Shows row False := by
  rw [Rows.orderedOnlyIfPaged]
  split
  · exact h
  · exact Or.imp_right (Or.imp_right fun h => h.2.elim) h

theorem Shows.withLimit {e : SqlExpr}
    (h : e.asks = true ∨ rows.Shows row order ∧ rows.select.limit = none) :
    (rows.withLimit e).Shows row order := by
  rcases h with h | ⟨h | h, hlimit⟩
  · exact .inl (Select.clausesAsk_iff.2 (by simp [Rows.withLimit, h]))
  · rw [Select.clausesAsk_iff, hlimit] at h
    refine .inl (Select.clausesAsk_iff.2 ?_)
    simp only [Rows.withLimit]
    tauto
  · exact .inr h

theorem Shows.withOffset {e : SqlExpr}
    (h : e.asks = true ∨ rows.Shows row order ∧ rows.select.offset = none) :
    (rows.withOffset e).Shows row order := by
  rcases h with h | ⟨h | h, hoffset⟩
  · exact .inl (Select.clausesAsk_iff.2 (by simp [Rows.withOffset, h]))
  · rw [Select.clausesAsk_iff, hoffset] at h
    refine .inl (Select.clausesAsk_iff.2 ?_)
    simp only [Rows.withOffset]
    tauto
  · exact .inr h

theorem Shows.adding {e : SqlExpr} (h : e.asks = true ∨ rows.Shows row order)
    (hadded : e.asks = true ∨ rows.select.clausesAsk = true → s.clausesAsk = true)
    (horder : s.orderBy = rows.select.orderBy) : Shows row order { rows with select := s } := by
  rcases h with h | h | h
  · exact .inl (hadded (.inl h))
  · exact .inl (hadded (.inr h))
  · refine .inr (h.imp_right fun h => ?_)
    rwa [Select.orderAsks, horder]

theorem Shows.filterBy {e : SqlExpr} (h : e.asks = true ∨ rows.Shows row order) :
    Shows row order { rows with select := rows.select.filterBy e } := by
  refine Shows.adding h ?_ rfl
  simp only [Select.clausesAsk_iff, Select.filterBy, SqlExpr.any_conjoin]
  tauto

theorem Shows.havingBy {e : SqlExpr} (h : e.asks = true ∨ rows.Shows row order) :
    Shows row order { rows with select := rows.select.havingBy e } := by
  refine Shows.adding h ?_ rfl
  simp only [Select.clausesAsk_iff, Select.havingBy, SqlExpr.any_conjoin]
  tauto

end Rows

/-- The parameters of the segment, at any depth. -/
def Detector.segment : Detector ⟨true, false⟩ where
  expr := SqlExpr.asks
  table := Table.asks
  select := Select.asks
  column _ _ := rfl
  wildcard := rfl
  literal _ := rfl
  slot _ := rfl
  segmentStart := rfl
  segmentLength := rfl
  binary op _ _ := SqlExpr.asks_binary op
  unary op _ := SqlExpr.asks_unary op
  isNull _ := SqlExpr.asks_isNull
  function := SqlExpr.asks_function
  aggregateOf name e := (SqlExpr.asks_aggregateOf name [e]).trans (Bool.or_false _)
  cases := SqlExpr.asks_cases
  subquery := SqlExpr.asks_subquery
  exist := SqlExpr.asks_exist
  isIn _ := SqlExpr.asks_isIn
  named schema name label := by
    rw [Table.asks, Table.pieces, List.any_append, any_names]
    rfl
  derived s label := by
    rw [Table.asks, Table.pieces, List.any_append]
    exact Bool.or_false _
  statement s := by
    have hclauses : s.clausesAsk = s.anyClause Table.asks SqlExpr.asks := rfl
    rw [Bool.eq_iff_iff, Select.asks_iff, any_items, hclauses]
    simp [Select.orderAsks, or_assoc]

/-- Whether the segment is asked for in the statement of a query. -/
def Expr.asksSegment (catalog : Catalog) (dialect : Dialect) (e : Expr) : Bool :=
  e.finds ⟨true, false⟩ (.ofExpr catalog dialect e)

end SequenceQuery
