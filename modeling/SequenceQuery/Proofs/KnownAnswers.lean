import SequenceQuery.Proofs.GroupAnswers
import SequenceQuery.Proofs.KnownMeanings
import SequenceQuery.Proofs.LeftJoins
import SequenceQuery.Proofs.ResultOrder

namespace SequenceQuery

theorem aggregateOver_of_ne {op : Operator} (hop : op ≠ .sum) (s : Scalar) :
    ∃ name, aggregateOver op s = ⟨.aggregateOf name [s.expr], s.nullable⟩ := by
  cases op with
  | sum => exact absurd rfl hop
  | _ => exact ⟨_, rfl⟩

namespace Rows.Totals

variable {w : World} {known : Prop} {start p : Progress} {rows : Rows} {value : Scalar}

def total (w : World) (rows : Rows) (e : SqlExpr) : Cell :=
  w.cell e (rows.select.kept w.engine w.db w.arguments [])
    ((rows.select.kept w.engine w.db w.arguments []).headD [])

theorem records_selecting (h : rows.Totals w known [] start p value) (hknown : known) {e : SqlExpr}
    (he : e.hasAggregate = true) :
    w.records (rows.selecting e) [] = [[(SelectItem.columnName e none, total w rows e)]] :=
  Select.records_of_aggregate (s := rows.selecting e)
    ⟨h.isOpen.distinct, h.isOpen.limit, h.isOpen.offset⟩ h.ungrouped
    ((h.sound hknown).ungrouped h.ungrouped) rfl he

theorem nullable_of_isNull (h : rows.Totals w known [] start p value) (hknown : known)
    {name : String}
    (hdoubts : value.nullable = false → (SqlExpr.aggregateOf name [value.expr]).doubts w.arguments
      (rows.select.columns w.catalog w.arguments) = false)
    (hrows : rows.select.kept w.engine w.db w.arguments [] ≠ [])
    (hnull : (total w rows (.aggregateOf name [value.expr])).isNull = true) :
    value.nullable = true := by
  have hsound := h.sound hknown
  have hvalue := h.value _ hsound.upheld (List.forall_mem_singleton.2 hsound.row)
  have hreads : ∀ row ∈ rows.select.kept w.engine w.db w.arguments [], rows.select.Reads w row :=
    fun _ => Select.reads_of_kept hsound.nodup
  have hhead : (rows.select.kept w.engine w.db w.arguments []).headD [] ∈
      rows.select.kept w.engine w.db w.arguments [] := by
    cases hkept : rows.select.kept w.engine w.db w.arguments [] with
    | nil => exact absurd hkept hrows
    | cons row rest => exact List.mem_cons_self
  by_contra hne
  have hflag : value.nullable = false := Bool.eq_false_iff.2 hne
  have hsure := SqlExpr.sure_aggregateOf name (hvalue.sure hflag)
  have hpresent := hsure _ le_rfl hsound.upheld (hdoubts hflag) _ _ hrows hreads (hreads _ hhead)
  exact Bool.eq_false_iff.1 hpresent hnull

end Rows.Totals

theorem answer_scalar {engine : Engine} {db : Database} {arguments : Arguments} {s : Select}
    {name : String} {c : Cell} (h : s.records engine db arguments [] = [[(name, c)]])
    {nullable : Bool} (hnullable : c.isNull = true → nullable = true) :
    s.answer engine db arguments (.scalar nullable) =
      .ok (if c.isNull then .nothing else .value c) := by
  rw [Select.answer, h]
  cases hnull : c.isNull with
  | true =>
    rw [hnullable hnull]
    simp [ResultShape.resultOf, Row.ofRecord, Record.cells, hnull, Except.map, QueryResult.answer]
  | false =>
    simp [ResultShape.resultOf, Row.ofRecord, Record.cells, hnull, Except.map, QueryResult.answer]

section

variable {catalog : Catalog} {dialect : Dialect} {e : Expr} {f : Form}

/-- The values of a query are those that its form is run with. -/
theorem runs_ofExpr {engine : Engine} {db : Database} (hengine : engine.Strict)
    (hdb : db.Holds catalog) {arguments : Arguments}
    (harguments : arguments.constants = e.constants) (hid : e.Identified)
    (hkeys : KeysGroup (.ofExpr catalog dialect e) e.nodes) :
    World.Runs ⟨catalog, engine, db, arguments, hengine, hdb⟩ (.ofExpr catalog dialect e)
      e.nodes := by
  obtain ⟨constants, segment⟩ := arguments
  cases harguments
  exact ⟨rfl, supplies_of_identified catalog dialect hid segment, hkeys⟩

theorem atRoot_totals {w : World} {env : Surroundings} {i : NodeId} {op : Operator}
    {args : List Expr} (hruns : w.Runs env (Expr.call i op args).nodes)
    (hop : op ∈ [.min, .max, .average]) {start : Progress} :
    Builds start (atRoot env (.call i op args)) fun q found => ∃ (rows : Rows) (value : Scalar)
      (name : String), found = (rows.selecting (.aggregateOf name [value.expr]),
        .scalar value.nullable) ∧ rows.Totals w (([] : Scope) = []) [] start q value := by
  have hterminal : op.isTerminal = true := by
    fin_cases hop <;> rfl
  have hne : op ≠ .sum := by
    rintro rfl
    simp at hop
  have hargs := meanings_sound _ hruns args (List.subset_cons_self _ _)
  rw [atRoot, if_pos hterminal]
  refine (terminal_totals _ (List.mem_cons_of_mem _ hop) hargs).bind fun q t _ ht => ?_
  obtain ⟨rows, value, rfl, htotals⟩ := ht
  obtain ⟨name, haggregate⟩ := aggregateOver_of_ne hne value
  rw [haggregate]
  exact .pure ⟨rows, value, name, rfl, htotals⟩

end

namespace Form

variable {catalog : Catalog} {dialect : Dialect} {i : NodeId} {op : Operator} {args : List Expr}
  {f : Form}

/-- What a form selects may be null although nothing that it is computed of is marked as
nullable. -/
def doubted (catalog : Catalog) (f : Form) : Bool :=
  f.select.selected.any (SqlExpr.doubts f.arguments (f.select.columns catalog f.arguments))

/-- If the least, the greatest or the average of some rows is null, the form of the query says that
it may be, and null is the answer. The tables hold what the catalog says of them, the database makes
null of nothing but null, and what is selected is not doubted where the form does not say so. -/
theorem nullable_of_null (hop : op ∈ [.min, .max, .average])
    (h : ofExpr catalog dialect (.call i op args) = .ok f) (hid : (Expr.call i op args).Identified)
    (hkeys : KeysGroup (.ofExpr catalog dialect (.call i op args)) (Expr.call i op args).nodes)
    (hdoubts : f.shape = .scalar false → f.doubted catalog = false) {engine : Engine} (hengine : engine.Strict)
    {db : Database} (hdb : db.Holds catalog)
    (hrows : f.select.kept engine db f.arguments [] ≠ []) :
    ∃ c, f.select.records engine db f.arguments [] = [[("?column?", c)]] ∧
      (c.isNull = true → f.shape = .scalar true) ∧
      f.answer engine db = .ok (if c.isNull then .nothing else .value c) := by
  obtain ⟨progress, hrun, -, -, horigin⟩ := ofExpr_ok h
  have harguments : f.arguments.constants = f.origin.core.constants := rfl
  rw [horigin] at harguments
  have hruns := runs_ofExpr (e := .call i op args) hengine hdb harguments hid hkeys
  obtain ⟨-, rows, value, name, heq, htotals⟩ := atRoot_totals hruns hop _ _ hrun
  obtain ⟨hselect, hshape⟩ := Prod.mk.inj heq
  rw [hselect] at hrows
  have hrecords := htotals.records_selecting rfl (e := .aggregateOf name [value.expr]) rfl
  have hcolumns : f.select.columns catalog f.arguments =
      rows.select.columns catalog f.arguments := by
    rw [hselect, Select.columns_eq, Select.columns_eq]
    rfl
  rw [hshape, doubted, hcolumns, hselect] at hdoubts
  rw [← hselect] at hrecords
  have hnullable := htotals.nullable_of_isNull rfl (fun hflag => Bool.eq_false_iff.2
    (List.any_eq_false.1 (hdoubts (congrArg ResultShape.scalar hflag)) _ List.mem_cons_self)) hrows
  refine ⟨_, hrecords, fun hnull => ?_, ?_⟩
  · rw [hshape, hnullable hnull]
  · rw [answer, hshape]
    exact answer_scalar hrecords hnullable

/-- A database that tells integers apart and takes the extremes of some. Of anything else it makes
zero. -/
def arithmetic : Engine :=
  { tallies with
    binary op a b :=
      if a.isNull || b.isNull then .null
      else if op.tests then .bool (tallies.same a b)
      else .int64 0
    minus _ := .int64 0
    function _ _ := .int64 0 }

theorem strict_arithmetic : arithmetic.Strict where
  binary op a b ha hb := by
    simp only [arithmetic, ha, hb, Bool.or_false, Bool.false_eq_true, if_false]
    split <;> rfl
  tests op a b hop := by
    simp only [arithmetic, hop, if_true]
    split <;> rfl
  minus _ _ := rfl
  function _ _ _ := rfl
  aggregate name cells hne _ := by
    have hempty : cells.isEmpty = false := List.isEmpty_eq_false_iff.2 hne
    simp only [arithmetic, tallies, hempty, Bool.false_eq_true, if_false]
    split <;> rfl
  same _ := decide_eq_true rfl

def noOrders : Database := fun _ name => if name = "orders" then [] else [[("id", .int64 1)]]

theorem holds_noOrders : noOrders.Holds shop where
  present := by
    simp [shop, noOrders, Record.cell, Cell.isNull]
  truth := by
    simp [shop]

def lastOfJoined : Expr :=
  .call 0 .max
    [.call 1 .leftJoin
      [.entity 2 "Customer", .entity 3 "Order",
        .lambda 4 ["c"] (.member 5 (.param 6 "c") "Id"),
        .lambda 7 ["o"] (.member 8 (.param 9 "o") "CustomerId"),
        .lambda 10 ["c", "o"] (.member 11 (.param 12 "o") "CustomerId")],
      .lambda 13 ["x"] (.param 14 "x")]

def lastOfEach : Expr :=
  .call 0 .max
    [.entity 1 "Customer",
      .lambda 2 ["c"] (.call 3 .max
        [.call 4 .filter [.entity 5 "Order", .lambda 6 ["o"]
          (.binary 7 .equal (.member 8 (.param 9 "o") "CustomerId")
            (.member 10 (.param 11 "c") "Id"))],
          .lambda 12 ["o"] (.member 13 (.param 14 "o") "CustomerId")])]

theorem keysGroup_of_none {env : Surroundings} {e : Expr}
    (h : ∀ i es, Expr.call i .groupBy es ∉ e.nodes) : KeysGroup env e.nodes := by
  rintro place ctx rows - ⟨i, es, -, -, -, hcall, -⟩
  exact absurd hcall (h i es)

theorem nullable_of_null_lastOfJoined : ∃ f,
    ofExpr shop (Postgres.dialect false) lastOfJoined = .ok f ∧
      f.select.records arithmetic noOrders f.arguments [] = [[("?column?", .null)]] ∧
      f.shape = .scalar true ∧ f.answer arithmetic noOrders = .ok .nothing := by
  obtain ⟨f, hf, hdoubts, hrows, hrecords⟩ : ∃ f,
      ofExpr shop (Postgres.dialect false) lastOfJoined = .ok f ∧ f.doubted shop = false ∧
        f.select.kept arithmetic noOrders f.arguments [] ≠ [] ∧
        f.select.records arithmetic noOrders f.arguments [] = [[("?column?", .null)]] :=
    ⟨_, rfl, by decide +kernel, by decide +kernel, rfl⟩
  have hkeys : KeysGroup (.ofExpr shop (Postgres.dialect false) lastOfJoined)
      lastOfJoined.nodes := by
    refine keysGroup_of_none fun i es => ?_
    simp [lastOfJoined, Expr.nodes, Expr.nodesOfList]
  obtain ⟨c, hc, hshape, hanswer⟩ := nullable_of_null (by simp) hf
    (Expr.Unshared.identified (by decide)) hkeys (fun _ => hdoubts) strict_arithmetic
    holds_noOrders hrows
  rw [hrecords] at hc
  obtain rfl : Cell.null = c := by simpa using hc
  exact ⟨f, hf, hrecords, hshape rfl, hanswer⟩

theorem not_nullable_lastOfEach : arithmetic.Strict ∧ noOrders.Holds shop ∧ ∃ f,
    ofExpr shop (Postgres.dialect false) lastOfEach = .ok f ∧
      f.select.kept arithmetic noOrders f.arguments [] ≠ [] ∧
      f.select.records arithmetic noOrders f.arguments [] = [[("?column?", .null)]] ∧
      f.shape = .scalar false ∧ f.answer arithmetic noOrders = .error .noElements :=
  ⟨strict_arithmetic, holds_noOrders, _, rfl, by decide +kernel, rfl, rfl, rfl⟩

end Form

end SequenceQuery
