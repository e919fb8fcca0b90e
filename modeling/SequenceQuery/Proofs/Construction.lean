import SequenceQuery.Proofs.Clauses
import SequenceQuery.Proofs.Standards

namespace SequenceQuery

theorem Select.labels_joined (s : Select) (j : Join) :
    ({ s with joins := s.joins ++ [j] } : Select).labels = s.labels ++ [j.table.label] := by
  rw [labels, tables_joined, List.map_append]
  rfl

inductive Product
  | value (e : SqlExpr)
  | binding (b : Binding)
  | rows (rows : Rows)
  | statement (s : Select)

def Scope.In (scope : Scope) (ctx : List Binding) : Prop := ∀ entry ∈ scope, entry.2 ∈ ctx

section

variable (env : Surroundings) (ns : List Expr)

def CallMakes (op : Operator) (ctx : List Binding) (rows : Rows) : Prop :=
  ∃ i es scope p q, Expr.call i op es ∈ ns ∧ Scope.In scope ctx ∧
    (callRows env (.call i op es) op (meanings env es) scope).run p = .ok (rows, q)

/-- What is aggregated over a group is said of its elements alone, not of the bindings around. -/
def SelectorsClosed : Prop :=
  ∀ i op source selector rest, Expr.call i op (source :: selector :: rest) ∈ ns →
    source.isReference = true → ∀ scope elements,
      (selector.meaning env).apply scope elements = (selector.meaning env).apply [] elements

/-- A place in the form with the bindings that can be referred to there, and what is built there.
Statements get labels that are not seen around them. -/
inductive Made : Place → List Binding → Product → Prop
  -- values
  | compose {place ctx} {e : SqlExpr} (h : e.isComposed = true)
    (hparts : ∀ part ∈ e.parts, Made place ctx (.value part))
    (hqueries : ∀ q ∈ e.queries, Made place ctx (.statement q)) : Made place ctx (.value e)
  | leaf {place ctx} {b : Binding} {path : String} {ls : List Leaf} {l : Leaf}
    (h : Made place ctx (.binding b)) (hls : b.leaves? path = some ls) (hl : l ∈ ls) :
    Made place ctx (.value l.scalar.expr)
  | countRows {place ctx} {key element : Binding} (h : Made place ctx (.binding (.group key element))) :
    Made place ctx (.value .countRows)
  | aggregate {place ctx} {key element : Binding} {arg : SqlExpr}
    (h : Made place ctx (.binding (.group key element)))
    (harg : Made place (element :: ctx) (.value arg))
    (hclosed : SelectorsClosed env ns → Made place [element] (.value arg)) (name : String) :
    Made place ctx (.value (.aggregateOf name [arg]))
  -- bindings
  | bound {place ctx} {b : Binding} (h : b ∈ ctx) : Made place ctx (.binding b)
  | scalar {place ctx} {s : Scalar} (h : Made place ctx (.value s.expr)) :
    Made place ctx (.binding (.scalar s))
  | object {place ctx} {fields : List (String × Binding)}
    (h : ∀ f ∈ fields, Made place ctx (.binding f.2)) : Made place ctx (.binding (.object fields))
  | field {place ctx} {fields : List (String × Binding)} {f : String × Binding}
    (h : Made place ctx (.binding (.object fields))) (hf : f ∈ fields) :
    Made place ctx (.binding f.2)
  | key {place ctx} {key element : Binding} (h : Made place ctx (.binding (.group key element))) :
    Made place ctx (.binding key)
  -- rows
  | table {place ctx} {label : String} (hlabel : label ∉ place.tables) (entity : Entity) :
    Made place ctx (.rows ⟨.ofTable (.table entity.schema entity.table label),
      .record label entity "" false⟩)
  | wrap {place ctx} {rows : Rows} {ls : List Leaf} {label : String}
    (h : Made place ctx (.rows rows)) (hls : rows.row.leaves? "" = some ls)
    (hlabel : label ∉ place.tables) (origin : Option Expr) :
    Made place ctx (.rows ⟨{ Select.ofTable
      (.subquery { rows.select with items := Rows.items ls } label) with origin := origin },
      rows.row.readFrom label ""⟩)
  | withOrigin {place ctx} {rows : Rows} (h : Made place ctx (.rows rows)) (origin : Expr) :
    Made place ctx (.rows (rows.withOrigin origin))
  | withLimit {place ctx} {rows : Rows} {e : SqlExpr} (h : Made place ctx (.rows rows))
    (he : Made place ctx (.value e)) : Made place ctx (.rows (rows.withLimit e))
  | withOffset {place ctx} {rows : Rows} {e : SqlExpr} (h : Made place ctx (.rows rows))
    (he : Made place ctx (.value e)) : Made place ctx (.rows (rows.withOffset e))
  | unordered {place ctx} {rows : Rows} (h : Made place ctx (.rows rows)) :
    Made place ctx (.rows { rows with select := { rows.select with orderBy := [] } })
  | filterBy {place ctx} {rows : Rows} {e : SqlExpr} (h : Made place ctx (.rows rows))
    (hgroups : rows.select.hasGroups = false)
    (he : Made (place.inside rows.select) (rows.row :: ctx) (.value e)) :
    Made place ctx (.rows { rows with select := rows.select.filterBy e })
  | havingBy {place ctx} {rows : Rows} {e : SqlExpr} (h : Made place ctx (.rows rows))
    (hgroup : rows.row.isGroup = true)
    (he : Made (place.inside rows.select) (rows.row :: ctx) (.value e)) :
    Made place ctx (.rows { rows with select := rows.select.havingBy e })
  | withRow {place ctx} {rows : Rows} {row : Binding} (h : Made place ctx (.rows rows))
    (hdistinct : rows.select.distinct = false)
    (hrow : Made (place.inside rows.select) (rows.row :: ctx) (.binding row)) :
    Made place ctx (.rows { rows with row := row })
  | orderedBy {place ctx} {rows : Rows} {before keys : List SortKey}
    (h : Made place ctx (.rows rows)) (hdistinct : rows.select.distinct = false)
    (hbefore : before ⊆ rows.select.orderBy)
    (hkeys : ∀ k ∈ keys, Made (place.inside rows.select) (rows.row :: ctx) (.value k.expr)) :
    Made place ctx (.rows { rows with select := { rows.select with orderBy := before ++ keys } })
  | asDistinct {place ctx} {rows : Rows} (h : Made place ctx (.rows rows))
    (hcall : CallMakes env ns .distinct ctx
      { rows with select := { rows.select with distinct := true } }) :
    Made place ctx (.rows { rows with select := { rows.select with distinct := true } })
  | groupedBy {place ctx} {rows : Rows} {key element : Binding} {ls : List Leaf}
    (h : Made place ctx (.rows rows)) (hgroups : rows.select.hasGroups = false)
    (hkey : Made (place.inside rows.select) (rows.row :: ctx) (.binding key))
    (helement : Made (place.inside rows.select) (rows.row :: ctx) (.binding element))
    (hls : key.leaves? "" = some ls)
    (hcall : CallMakes env ns .groupBy ctx
      ⟨{ rows.select with groupBy := ls.map (·.scalar.expr) }, .group key element⟩) :
    Made place ctx (.rows
      ⟨{ rows.select with groupBy := ls.map (·.scalar.expr) }, .group key element⟩)
  | joined {place ctx} {outer inner : Rows} {j : Join} {innerRow row : Binding}
    (houter : Made place ctx (.rows outer)) (hopen : outer.select.distinct = false)
    (hungrouped : outer.select.hasGroups = false)
    (hinner : Made place ctx (.rows inner)) (htables : inner.select.tables = [j.table])
    (hinnerGroups : inner.select.hasGroups = false)
    (hinnerRow : innerRow = inner.row ∨ innerRow = inner.row.asOptional)
    (hcondition : ∀ e ∈ j.condition,
      Made (place.enter (outer.select.labels ++ [j.table.label]) false)
        (innerRow :: inner.row :: outer.row :: ctx) (.value e))
    (hrow : Made (place.enter (outer.select.labels ++ [j.table.label]) false)
      (innerRow :: inner.row :: outer.row :: ctx) (.binding row)) :
    Made place ctx (.rows ⟨{ outer.select with joins := outer.select.joins ++ [j] }, row⟩)
  -- statements
  | project {place ctx} {rows : Rows} {items : List SelectItem} (h : Made place ctx (.rows rows))
    (hitems : ∀ e ∈ items.filterMap SelectItem.expr?,
      Made (place.inside rows.select) (rows.row :: ctx) (.value e))
    (hdistinct : rows.select.distinct = true →
      ((∃ i es, Expr.call i .any es ∈ ns) ∧ items = [.expr (.int 1) none] ∧
        (rows.select.hasPaging = false → rows.select.orderBy = [])) ∨
      ∃ ls, rows.row.leaves? "" = some ls ∧
        ∀ l ∈ ls, l.scalar.expr ∈ items.filterMap SelectItem.expr?) :
    Made place ctx (.statement { rows.select with items := items })
  | count {place ctx} {rows : Rows} (h : Made place ctx (.rows rows))
    (hgroups : rows.select.hasGroups = false) (horder : rows.select.orderBy = []) :
    Made place ctx (.statement (rows.selecting .countRows))
  | total {place ctx} {rows : Rows} {s : Scalar} (h : Made place ctx (.rows rows))
    (hgroups : rows.select.hasGroups = false) (horder : rows.select.orderBy = [])
    (hvalue : Made (place.inside rows.select) (rows.row :: ctx) (.value s.expr)) (op : Operator) :
    Made place ctx (.statement (rows.selecting (aggregateOver op s).expr))
  | item {place ctx} {e : SqlExpr} (h : Made place ctx (.value e)) (origin : Expr) :
    Made place ctx (.statement (.ofItem e origin))

/-- The bindings at hand where a part of the query is read: those of the lambdas that it stands in,
each with the place where its body goes. -/
inductive Reached : Place → List Binding → Prop
  | outermost : Reached .outermost []
  | inside {place ctx} {rows : Rows} (h : Reached place ctx) (hrows : Made env ns place ctx (.rows rows)) :
    Reached (place.inside rows.select) (rows.row :: ctx)
  | joined {place ctx} {outer inner : Rows} {innerRow : Binding} {label : String}
    (h : Reached place ctx) (houter : Made env ns place ctx (.rows outer))
    (hungrouped : outer.select.hasGroups = false)
    (hinner : Made env ns place ctx (.rows inner)) (hlabels : inner.select.labels = [label])
    (hinnerGroups : inner.select.hasGroups = false)
    (hinnerRow : innerRow = inner.row ∨ innerRow = inner.row.asOptional) :
    Reached (place.enter (outer.select.labels ++ [label]) false)
      (innerRow :: inner.row :: outer.row :: ctx)
  | element {place ctx} {key element : Binding} (h : Reached place ctx)
    (hgroup : Made env ns place ctx (.binding (.group key element))) :
    Reached place (element :: ctx)
  | fewer {place ctx fewer} (h : Reached place ctx) (hfewer : fewer ⊆ ctx) : Reached place fewer

end

theorem Rows.exprs_items (ls : List Leaf) :
    (Rows.items ls).filterMap SelectItem.expr? = ls.map (·.scalar.expr) := by
  have hitem : ∀ l : Leaf, (Rows.item l.scalar.expr l.name).expr? = some l.scalar.expr := by
    intro l
    cases l.scalar.expr <;> rfl
  rw [Rows.items, List.filterMap_map, ← List.filterMap_eq_map]
  exact List.filterMap_congr fun l _ => hitem l

theorem Made.ofLeaves {env : Surroundings} {ns : List Expr} {place : Place} {ctx : List Binding}
    {rows : Rows} {ls : List Leaf} (h : Made env ns place ctx (.rows rows))
    (hls : rows.row.leaves? "" = some ls) :
    Made env ns place ctx (.statement { rows.select with items := Rows.items ls }) := by
  refine .project h ?_ fun _ => .inr ⟨ls, hls, ?_⟩ <;> rw [Rows.exprs_items]
  · exact List.forall_mem_map.2 fun l hl => .leaf (.bound List.mem_cons_self) hls hl
  · exact fun l hl => List.mem_map_of_mem hl

end SequenceQuery
