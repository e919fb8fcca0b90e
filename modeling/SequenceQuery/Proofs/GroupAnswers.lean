import SequenceQuery.Proofs.GroupedRows
import SequenceQuery.Proofs.Restrictions
import Mathlib

namespace SequenceQuery

section

variable (engine : Engine) (db : Database) (arguments : Arguments)

def Binding.elementOf (b : Binding) (group : Group Env) : Element :=
  b.view.map fun e => e.cell engine db arguments group.members group.first

structure Rows.Makes (xs : List Element) (rows : Rows) : Prop where
  isOpen : rows.select.IsOpen
  grouped : rows.select.hasGroups = true
  orderBy : rows.select.orderBy = []
  columns : rows.row.shape.leaves ≠ []
  found : ∃ gathered : List (Group Env),
    rows.select.candidates engine db arguments [] =
      gathered.map (fun group => (group.members, group.first)) ∧
    gathered.map (rows.row.elementOf engine db arguments) = xs

variable {engine db arguments} {env : Surroundings} {entity : Entity} {t : ElementType}
  {xs : List Element} {rows : Rows} {u v : Prop} {node source body e : Expr} {i : NodeId}
  {g : String}

theorem Rows.Makes.cells_project (h : rows.Makes engine db arguments xs) {s : Select}
    (hs : rows.project node = .ok s) :
    (s.records engine db arguments []).map Record.cells = xs.map Composite.leaves := by
  obtain ⟨gathered, hcandidates, hxs⟩ := h.found
  obtain ⟨ls, hls, rfl⟩ := project_ok.1 hs
  obtain ⟨hleaves, -⟩ := Binding.leaves_of_columns hls
  have hview := (Binding.view_of_leaves? rows.row rows.row hleaves).2
  have hexprs := rows.row.exprs_of_leaves? hleaves
  have hne : ls ≠ [] := by
    rintro rfl
    refine h.columns ?_
    rw [Binding.shape, Composite.leaves_map, hview, ← hexprs]
    rfl
  have hall : ({ rows.select with items := items ls } : Select).aggregatesAll = false := by
    show (!rows.select.hasGroups && _) = false
    rw [h.grouped]
    rfl
  have hopen : ({ rows.select with items := items ls } : Select).IsOpen :=
    ⟨h.isOpen.distinct, h.isOpen.limit, h.isOpen.offset⟩
  have hmade : ({ rows.select with items := items ls } : Select).candidates engine db arguments [] =
      gathered.map fun group => (group.members, group.first) := hcandidates
  rw [Select.records_of_isOpen hall hopen h.orderBy, hmade, ← hxs, List.map_map, List.map_map,
    List.map_map]
  refine List.map_congr_left fun group _ => ?_
  show (itemRecord engine db arguments _ (items ls) group.members group.first).cells = _
  rw [itemRecord_items hne, Record.cells, List.map_map, Function.comp_apply, Binding.elementOf,
    Composite.leaves_map, hview, ← hexprs, List.map_map]
  rfl

theorem Rows.Makes.withOrigin (h : rows.Makes engine db arguments xs) (origin : Expr) :
    (rows.withOrigin origin).Makes engine db arguments xs := by
  obtain ⟨⟨hdistinct, hlimit, hoffset⟩, hgrouped, horderBy, hcolumns, hfound⟩ := h
  exact ⟨⟨hdistinct, hlimit, hoffset⟩, hgrouped, horderBy, hcolumns, hfound⟩

theorem project_makes (hengine : engine.Groups) {grouping : Grouping}
    {groups : List (Group Element)}
    (hsource : Yields u ((source.meaning env).asSequence false [])
      (Rows.Gathers engine db arguments t grouping groups) v)
    (hbody : body.aggregatesOnly) (hsupplied : ∀ n ∈ body.nodes, env.Supplies arguments n)
    (hcolumns : (body.typeIn [(g, .parts [("key", t)])]).leaves ≠ []) :
    Yields u (callRows env node .project (meanings env [source, .lambda i [g] body]) [])
      (Rows.Makes engine db arguments
        (groups.map (grouping.value engine env.dialect.callee g body))) v := by
  refine .bindOk (hsource.bind fun rows hrows => ?_)
  obtain ⟨hopen, hgrouped, horderBy, read, key, elements, gathered, hrow, htype, hbound,
    hcandidates, hgroups⟩ := hrows
  obtain ⟨select, row⟩ := rows
  subst hrow
  have hdistinct : select.distinct = false := hopen.distinct
  simp only [hdistinct, Rows.wrapIf, Bool.false_eq_true, if_false, pure_bind]
  have hselector : Yields v (((Expr.lambda i [g] body).meaning env).apply [] [.group key elements])
      ((grouping.reading engine db arguments env read g elements).Stands
        [(g, .group key elements)] body) v := hbound.apply_stands hengine hbody hsupplied
  refine .bindOk ((hselector.both (apply_parts Binding.readsParts_shape _ _)).bind fun b hb => .pure ?_)
  obtain ⟨hb, hshape⟩ := hb
  refine ⟨hopen, hgrouped, horderBy, ?_, gathered, hcandidates, ?_⟩
  · have hgroup : (Binding.group key elements).shape = .parts [("key", t)] := by
      rw [← htype, Binding.type, ← (Binding.view_of_isPlain key hbound.plainKey).2]
      rfl
    rw [hshape, List.map_cons, List.map_nil, hgroup]
    exact hcolumns
  · rw [← hgroups, List.map_map]
    refine List.map_congr_left fun group _ => ?_
    rw [Function.comp_apply, ← hbound.value_eq body group]
    exact hb.element group.members group.first

theorem Expr.marker?_of_aggregatesOnly (h : body.aggregatesOnly) : body.marker? = none := by
  rw [marker?_eq_findSome?, List.findSome?_eq_none_iff]
  intro n hn
  have hnode := List.all_eq_true.1 h n hn
  cases n with
  | call id op args =>
    have haggregate : (Expr.call id op args).isAggregate := hnode
    cases args with
    | nil => cases haggregate
    | cons source rest =>
      simp only [isAggregate, Bool.and_eq_true] at haggregate
      have hop := haggregate.1.1
      cases op <;> first | rfl | cases hop
  | _ => rfl

theorem Expr.marker?_call_lambda {id : NodeId} {op : Operator} {params : List String}
    {rest : List Expr}
    (hself : (call id op (source :: .lambda i params body :: rest)).asMarker? = none)
    (hsource : source.marker? = none) (hbody : body.marker? = none)
    (hrest : firstMarker? rest = none) :
    (call id op (source :: .lambda i params body :: rest)).marker? = none := by
  rw [marker?, hself, firstMarker?, hsource, firstMarker?, marker?, hbody, hrest]
  rfl

theorem Selection.unmarked {catalog : Catalog} (h : Selection catalog entity e t) :
    e.marker? = none := by
  induction h with
  | entity => rfl
  | filter _ hbody ih | project _ hbody ih =>
    exact Expr.marker?_call_lambda rfl ih (Expr.marker?_of_operatorFree hbody) rfl

theorem Grouped.unmarked {catalog : Catalog} (h : Grouped catalog entity e t) :
    e.marker? = none := by
  induction h with
  | groupBy h hkey hselector =>
    refine Expr.marker?_call_lambda rfl h.unmarked (Expr.marker?_of_operatorFree hkey) ?_
    obtain rfl | ⟨i, p, body, rfl, hbody⟩ := Expr.areSelector_cases hselector
    · rfl
    · exact firstMarker?_lambda hbody i [p]
  | filter _ hbody ih =>
    exact Expr.marker?_call_lambda rfl ih (Expr.marker?_of_aggregatesOnly hbody) rfl

theorem GroupQuery.unmarked {catalog : Catalog} (h : GroupQuery catalog entity e) :
    e.marker? = none := by
  cases h with
  | project h hbody =>
    exact Expr.marker?_call_lambda rfl h.unmarked (Expr.marker?_of_aggregatesOnly hbody) rfl

variable (db) in
/-- The statement at the root returns what is selected of each group. -/
theorem GroupQuery.atRoot_answers (h : GroupQuery env.catalog entity e) (hengine : engine.Groups)
    (hsupplied : ∀ n ∈ e.nodes, env.Supplies arguments n) (hmarker : env.marker = none) :
    Yields False (atRoot env e) (fun a => a.1.answer engine db arguments a.2 = .ok (.rows
      ((e.groupElements engine env.dialect.callee env.catalog db).map Composite.leaves)))
      False := by
  cases h with
  | @project id i source body g t h hbody hcolumns =>
    obtain ⟨-, hsource, hbodySupplied⟩ := lambda_nodes hsupplied
    have hmade : Yields False (((Expr.call id .project [source, .lambda i [g] body]).meaning
        env).asSequence false []) (Rows.Makes engine db arguments
          ((Expr.call id .project [source, .lambda i [g] body]).groupElements engine
            env.dialect.callee env.catalog db)) False :=
      sequenceOfCall_yields (by simp [hmarker]) (project_makes hengine
        (h.gathers hengine hsource hmarker) hbody hbodySupplied hcolumns)
        fun _ hrows => hrows.withOrigin _
    refine hmade.bind fun rows hrows => .bind (.lift fun s hs => hs) fun s hs => .pure ?_
    exact answer_sequence (hrows.cells_project hs)

end

theorem Selection.expand_rowOutline {catalog : Catalog} {entity : Entity} {e : Expr}
    {t : ElementType} (h : Selection catalog entity e t) :
    (e.rowOutline catalog []).expand = t := by
  induction h with
  | entity h =>
    rw [Expr.rowOutline, h]
    rfl
  | filter _ _ ih => exact ih
  | project _ _ ih => rw [Expr.rowOutline, Expr.expand_resultIn, ih]

theorem Grouped.expand_rowOutline {catalog : Catalog} {entity : Entity} {e : Expr}
    {t : ElementType} (h : Grouped catalog entity e t) :
    (e.rowOutline catalog []).expand = .parts [("key", t)] := by
  induction h with
  | @groupBy _ i source key p _ _ h =>
    have hkey := Expr.expand_resultIn i p key (source.rowOutline catalog [])
    rw [h.expand_rowOutline] at hkey
    exact congrArg (fun o => Composite.parts [("key", o)]) hkey
  | filter _ _ ih => exact ih

theorem GroupQuery.columnNames_ne_nil {catalog : Catalog} {entity : Entity} {e : Expr}
    (h : GroupQuery catalog entity e) : e.columnNames catalog ≠ [] := by
  cases h with
  | @project _ i _ body g _ h _ hcolumns =>
    rw [← h.expand_rowOutline, ← Expr.expand_resultIn i] at hcolumns
    exact Composite.names_ne_nil hcolumns

namespace Form

variable (engine : Engine) (db : Database) {catalog : Catalog} {dialect : Dialect}
  {entity : Entity} {e : Expr} {form : Form}

/-- Running the statement of a query that groups the rows of a table gives a row for each group of
their elements that the conditions leave, with what is selected of its key and its aggregates, in
columns of the names that it is selected under. -/
theorem answer_groups (h : GroupQuery catalog entity e) (hengine : engine.Groups)
    (hunshared : e.Unshared) (hform : ofExpr catalog dialect e = .ok form) :
    form.answer engine db = .ok (.rows
        ((e.groupElements engine dialect.callee catalog db).map Composite.leaves)) ∧
      ∀ r ∈ form.select.records engine db form.arguments [],
        List.Forall₂ (IsNamed Prod.fst) (e.columnNames catalog) r := by
  refine ⟨?_, (names_ofExpr hunshared.identified hform).records h.columnNames_ne_nil⟩
  have hmarker : e.marker? = none := h.unmarked
  have hsegment : e.segment? = none := by rw [Expr.segment?, hmarker]; rfl
  have hcore : e.core = e := by cases h; rfl
  have hquery : GroupQuery (Surroundings.ofExpr catalog dialect e).catalog entity e := h
  have hunmarked : (Surroundings.ofExpr catalog dialect e).marker = none := by
    rw [Surroundings.ofExpr, hmarker]
    rfl
  have hanswers := hquery.atRoot_answers db hengine
    (supplies_ofExpr catalog dialect hunshared e.segment?) hunmarked
  obtain ⟨progress, hrun, hasked, -, rfl⟩ := ofExpr_ok hform
  have hformSegment : form.segment = form.origin.segment? := by
    rw [hasked, hsegment]
    split <;> rfl
  rw [answer, arguments_eq hcore hformSegment]
  exact (hanswers _ False.elim _ _ hrun).1

def integer? : Cell → Option Int64
  | .int64 n => some n
  | _ => none

/-- A database that compares and adds integers and tells nothing else apart. -/
def tallies : Engine where
  binary := integers.binary
  minus := integers.minus
  function := integers.function
  aggregate name cells :=
    match cells.filterMap integer?, name with
    | [], _ => if cells.isEmpty then .null else .int64 0
    | n :: ns, "MIN" => .int64 (ns.foldl (fun a b => if a < b then a else b) n)
    | n :: ns, "MAX" => .int64 (ns.foldl (fun a b => if a < b then b else a) n)
    | n :: ns, _ => .int64 (ns.foldl (· + ·) n)
  same a b := decide (integer? a = integer? b)
  notAfter := integers.notAfter

theorem groups_tallies : tallies.Groups where
  same := by
    refine ⟨fun a => decide_eq_true rfl, fun hab => ?_, fun hab hbc => ?_⟩
    · exact decide_eq_true (of_decide_eq_true hab).symm
    · exact decide_eq_true ((of_decide_eq_true hab).trans (of_decide_eq_true hbc))
  sum cells _ := by
    cases cells with
    | nil => exact ⟨fun _ => rfl, fun _ => rfl⟩
    | cons c cells =>
      refine ⟨fun hnull => ?_, fun hnil => by cases hnil⟩
      dsimp only [tallies] at hnull
      split at hnull <;> cases hnull

def orders : Catalog :=
  ⟨[⟨"Order", "orders", none, [⟨"Customer", "customer", .int, true, false⟩,
    ⟨"Total", "total", .int, true, false⟩]⟩]⟩

/-- Of orders of an unknown total or one above 6, what the customers with more than one have ordered
for, how many of them are above 10, and the least of them. -/
def customerTotals : Expr :=
  .call 0 .project
    [.call 1 .filter
      [.call 2 .groupBy
        [.call 3 .filter
          [.entity 4 "Order",
            .lambda 5 ["o"] (.binary 6 .or
              (.binary 7 .equal (.member 8 (.param 9 "o") "Total") (.const 10 .null))
              (.binary 11 .greaterThan (.member 12 (.param 13 "o") "Total") (.const 14 (.int 6))))],
          .lambda 15 ["o"] (.member 16 (.param 17 "o") "Customer")],
        .lambda 18 ["g"]
          (.binary 19 .greaterThan (.call 20 .count [.param 21 "g"]) (.const 22 (.int 1)))],
      .lambda 23 ["g"] (.object 24
        [("Customer", .member 25 (.param 26 "g") "key"),
          ("Total", .call 27 .sum [.param 28 "g",
            .lambda 29 ["o"] (.member 30 (.param 31 "o") "Total")]),
          ("Large", .call 32 .count [.param 33 "g", .lambda 34 ["o"]
            (.binary 35 .greaterThan (.member 36 (.param 37 "o") "Total") (.const 38 (.int 10)))]),
          ("Least", .call 39 .min [.param 40 "g",
            .lambda 41 ["o"] (.member 42 (.param 43 "o") "Total")])])]

def eightOrders : Database := fun _ _ =>
  [(Cell.int64 1, Cell.int64 20), (.int64 2, .null), (.null, .int64 8), (.int64 1, .int64 7),
    (.int64 2, .null), (.int64 3, .int64 9), (.null, .int64 30), (.int64 1, .int64 2)].map
      fun order => [("customer", order.1), ("total", order.2)]

/-- Orders without a customer are one group, and totals that are all unknown sum up to zero. -/
theorem answer_groups_customerTotals :
    ∃ form, ofExpr orders (Postgres.dialect false) customerTotals = .ok form ∧
      form.answer tallies eightOrders = .ok (.rows
        [[.int64 1, .int64 27, .int64 1, .int64 7], [.int64 2, .int64 0, .int64 0, .null],
          [.null, .int64 38, .int64 1, .int64 8]]) := by
  have h : GroupQuery orders ⟨"Order", "orders", none, [⟨"Customer", "customer", .int, true, false⟩,
      ⟨"Total", "total", .int, true, false⟩]⟩ customerTotals := by
    refine .project (.filter (.groupBy (.filter (.entity rfl) rfl) rfl rfl nofun) rfl) rfl ?_
    refine ne_of_eq_of_ne (b := [(), (), (), ()]) (by cbv) (List.cons_ne_nil _ _)
  have haccepted : (ofExpr orders (Postgres.dialect false) customerTotals).isOk = true := by cbv
  cases hform : ofExpr orders (Postgres.dialect false) customerTotals with
  | error e =>
    rw [hform] at haccepted
    cases haccepted
  | ok form =>
    have hanswer := answer_groups tallies eightOrders h groups_tallies (by decide) hform
    refine ⟨form, rfl, hanswer.1.trans (congrArg (fun rows => Except.ok (Answer.rows rows)) ?_)⟩
    cbv

example : customerTotals.columnNames orders =
    [some "Customer", some "Total", some "Large", some "Least"] := by cbv

end Form

end SequenceQuery
