import SequenceQuery.Proofs.Answers
import SequenceQuery.Proofs.GroupBodies

namespace SequenceQuery

section

variable (engine : Engine) (db : Database) (arguments : Arguments)

/-- Rows are read as elements, and a key and what stands for the elements in groups are bound to
what a grouping makes of them. -/
structure Grouping.Bound (grouping : Grouping) (read : Env → Element) (key elements : Binding) :
    Prop where
  plainKey : key.isPlain
  plainElements : elements.isPlain
  key : ∀ row, key.element engine db arguments row = grouping.key (read row)
  elements : ∀ row, elements.element engine db arguments row = grouping.element (read row)

def GroupReading.ofElements (env : Surroundings) (elements : Binding) : GroupReading :=
  ⟨engine, db, arguments, env, elements, fun _ _ _ _ => .null⟩

/-- The reading of bodies on groups whose rows are read as elements. -/
def Grouping.reading (grouping : Grouping) (env : Surroundings) (read : Env → Element) (g : String)
    (elements : Binding) : GroupReading where
  engine := engine
  db := db
  arguments := arguments
  env := env
  elements := elements
  aggregate group _ op selector :=
    grouping.aggregate engine env.dialect.callee g (group.map read) op selector

variable {engine db arguments} {env : Surroundings} {grouping : Grouping} {read : Env → Element}
  {key elements : Binding} {g : String} {u : Prop} {selector : List Expr} {node : Expr}

namespace GroupReading

variable {c : GroupReading} {group : List Env} {row : Env}

theorem element_of_isPlain (c : GroupReading) {b : Binding} (h : b.isPlain) (group : List Env)
    (row : Env) : c.element group row b = b.element c.engine c.db c.arguments row := by
  rw [element, (Binding.view_of_isPlain b h).2, Binding.element]
  exact b.composite.map_congr fun e he => cell_of_plain group [row] row e (b.plain_of_leaves h e he)

theorem reads_of_operatorFree {body : Expr} (hbody : body.operatorFree)
    (hsupplied : ∀ n ∈ body.nodes, c.env.Supplies c.arguments n) {scope : Scope} :
    ∀ n ∈ body.nodes, c.Reads scope n := by
  intro n hn
  refine ⟨hsupplied n hn, ?_⟩
  rintro id op args rfl
  cases List.all_eq_true.1 hbody _ hn

end GroupReading

namespace Grouping.Bound

variable (h : grouping.Bound engine db arguments read key elements)

include h

theorem scopeElements (c : GroupReading) (hengine : c.engine = engine) (hdb : c.db = db)
    (harguments : c.arguments = arguments) (group : List Env) (row : Env) :
    c.scopeElements group row [(g, .group key elements)] = grouping.scope g (read row) := by
  subst hengine hdb harguments
  rw [Grouping.scope, ← h.key row, ← c.element_of_isPlain h.plainKey group row]
  rfl

theorem groupsOf : ∀ entry ∈ [(g, Binding.group key elements)], entry.2.GroupsOf elements :=
  List.forall_mem_singleton.2 ⟨rfl, (Binding.view_of_isPlain elements h.plainKey).1⟩

/-- The selector of an aggregate, read in a row, is what it makes of the element. -/
theorem selected_computes (hselector : Expr.areSelector selector)
    (hsupplied : ∀ n ∈ Expr.nodesOfList selector, env.Supplies arguments n) :
    Yields u (SequenceQuery.selected node (meanings env selector)[0]? elements
        [(g, .group key elements)])
      (fun s => ∀ row, s.expr.cellIn engine db arguments row =
        grouping.selected engine env.dialect.callee g selector (read row)) u := by
  obtain rfl | ⟨i, p, body, rfl, hbody⟩ := Expr.areSelector_cases hselector
  · refine .lift fun s hs row => ?_
    cases elements with
    | scalar found =>
      cases hs
      exact congrArg Composite.cell (h.elements row)
    | record | object | group => cases hs
  · -- The group is in scope too, so this is a body on groups, read in one row at a time.
    let c := GroupReading.ofElements engine db arguments env elements
    let scope : Scope := [(p, elements), (g, .group key elements)]
    have hscope : ∀ entry ∈ scope, entry.2.GroupsOf c.elements :=
      List.forall_mem_cons.2 ⟨(Binding.view_of_isPlain elements h.plainElements).1, h.groupsOf⟩
    have hnodes : ∀ n ∈ body.nodes, env.Supplies arguments n := fun n hn =>
      hsupplied n (List.mem_append_left _ (List.mem_cons_of_mem _ hn))
    have hmeans : c.Means scope body (body.meaning env) :=
      c.meaning_stands hscope body (GroupReading.reads_of_operatorFree hbody hnodes)
    refine (hmeans u).bind fun b hb => .lift fun s hs row => ?_
    have hcell : s.expr.cellIn engine db arguments row = (c.value scope body [row] row).cell :=
      (hb.scalar hs).cell [row] row
    have hscopeElements : c.scopeElements [row] row scope =
        (p, grouping.element (read row)) :: grouping.scope g (read row) := by
      rw [← h.elements row, ← h.scopeElements c rfl rfl rfl [row] row]
      exact congrArg (fun x => (p, x) :: _) (c.element_of_isPlain h.plainElements [row] row)
    rw [hcell, GroupReading.value, hscopeElements, Grouping.selected, Expr.selected,
      Expr.element_eq_elementWith]
    rfl

end Grouping.Bound

theorem Operator.isTerminal_of_aggregates {op : Operator} (h : op.aggregates) : op.isTerminal := by
  cases op <;> first | rfl | cases h

theorem terminal_ofReference {op : Operator} {source : Expr} {scope : Scope} (hop : op.aggregates)
    (hsource : source.isReference) :
    Yields u (terminal node op (meanings env (source :: selector)) scope) (fun _ => False) u := by
  have hfails : Yields u ((source.meaning env).asSequence false scope) (fun _ => False) u := by
    cases source with
    | param | member => exact .unsupported _ _
    | _ => cases hsource
  cases op with
  | count | longCount =>
    have hfiltered : Yields u (filtered node (source.meaning env) (meanings env selector)[0]? scope)
      (fun _ => False) u := hfails.bind fun _ => False.elim
    exact .bindOk (hfiltered.bind fun _ => False.elim)
  | sum | min | max | average => exact .bindOk (hfails.bind fun _ => False.elim)
  | _ => cases hop

theorem aggregated_of_ne {name : String} (hname : name ≠ "COUNT") (cells : List Cell) :
    engine.aggregated name false cells =
      engine.aggregate name (cells.filter fun c => !c.isNull) := by
  simp only [Engine.aggregated, Bool.false_eq_true, if_false, if_neg hname]

/-- A CASE that has no value unless its test is true is counted where the test is true. -/
theorem cell_countWhere (test : SqlExpr) (group : List Env) (row : Env) :
    (SqlExpr.aggregateOf "COUNT" [.cases [(test, .int 1)] none]).cell engine db arguments group
        row =
      .ofCount (group.countP fun r => (test.cellIn engine db arguments r).isTrue) := by
  have hknown : ∀ r, (!(SqlExpr.cellIn engine db arguments r
      (.cases [(test, .int 1)] none)).isNull) = (test.cellIn engine db arguments r).isTrue := by
    intro r
    show (!((if (test.cellIn engine db arguments r).isTrue then some (Cell.int64 1)
      else none).getD .null).isNull) = _
    cases (test.cellIn engine db arguments r).isTrue <;> rfl
  show engine.aggregated "COUNT" false (group.map fun r => SqlExpr.cellIn engine db arguments r
    (.cases [(test, .int 1)] none)) = _
  simp only [Engine.aggregated, Bool.false_eq_true, if_false, if_true, List.filter_map,
    List.length_map, Function.comp_def, hknown, List.countP_eq_length_filter]

theorem cell_aggregateOver (hengine : engine.Groups) (op : Operator) (s : Scalar)
    (group : List Env) (row : Env) :
    (aggregateOver op s).expr.cell engine db arguments group row =
      engine.aggregateOver op (group.map (s.expr.cellIn engine db arguments ·)) := by
  have hcell : ∀ name, name ≠ "COUNT" →
      (SqlExpr.aggregateOf name [s.expr]).cell engine db arguments group row = engine.aggregate name
        ((group.map (s.expr.cellIn engine db arguments ·)).filter fun c => !c.isNull) :=
    fun name hname => aggregated_of_ne hname _
  cases op with
  | sum =>
    let known := (group.map (s.expr.cellIn engine db arguments ·)).filter fun c => !c.isNull
    have hsum : (engine.aggregate "SUM" known).isNull = true ↔ known = [] :=
      hengine.sum known fun c hc => by simpa using (List.mem_filter.1 hc).2
    show Cell.firstKnown [(SqlExpr.aggregateOf "SUM" [s.expr]).cell engine db arguments group row,
      .int64 0] = if known.isEmpty then .int64 0 else engine.aggregate "SUM" known
    rw [hcell "SUM" (by decide), Cell.firstKnown, Cell.firstKnown]
    simp only [List.isEmpty_iff, ← hsum]
    rfl
  | min => exact hcell "MIN" (by decide)
  | max => exact hcell "MAX" (by decide)
  | _ => exact hcell "AVG" (by decide)

namespace Grouping.Bound

variable (h : grouping.Bound engine db arguments read key elements)

include h

theorem aggregateIn_computes (hengine : engine.Groups) {op : Operator} (hop : op.aggregates)
    (hselector : Expr.areSelector selector)
    (hsupplied : ∀ n ∈ Expr.nodesOfList selector, env.Supplies arguments n) (k : Binding) :
    Yields u (aggregateIn node op (meanings env selector) [(g, .group key elements)]
        (.group k elements))
      (fun found => ∃ s, found = some s ∧ (grouping.reading engine db arguments env read g
        elements).Computes (fun group _ => grouping.aggregate engine env.dialect.callee g
          (group.map read) op selector) s) u := by
  have hselected : Yields u (SequenceQuery.selected node (meanings env selector)[0]? elements
      [(g, .group key elements)]) (fun s => ∀ row, s.expr.cellIn engine db arguments row =
        grouping.selected engine env.dialect.callee g selector (read row)) u :=
    h.selected_computes hselector hsupplied
  have hcounted : Yields u (aggregateIn node .count (meanings env selector)
      [(g, .group key elements)] (.group k elements))
      (fun found => ∃ s, found = some s ∧ (grouping.reading engine db arguments env read g
        elements).Computes (fun group _ => grouping.aggregate engine env.dialect.callee g
          (group.map read) .count selector) s) u := by
    obtain rfl | ⟨i, p, body, rfl, -⟩ := Expr.areSelector_cases hselector
    · refine .pure ⟨_, rfl, ⟨fun group row => ?_⟩⟩
      refine (aggregated_count engine group).trans ?_
      exact congrArg Cell.ofCount (List.length_map read).symm
    · refine hselected.bind fun s hs => .pure ⟨_, rfl, ⟨fun group row => ?_⟩⟩
      refine (cell_countWhere s.expr group row).trans ?_
      rw [Grouping.aggregate, Grouping.counted, List.countP_map]
      exact congrArg Cell.ofCount (List.countP_congr fun row _ =>
        Bool.eq_iff_iff.1 (congrArg Cell.isTrue (hs row)))
  cases op with
  | count | longCount => exact hcounted
  | sum | min | max | average =>
    refine hselected.bind fun s hs => .pure ⟨_, rfl, ⟨fun group row => ?_⟩⟩
    refine (cell_aggregateOver hengine _ s group row).trans (congrArg _ ?_)
    rw [List.map_map]
    exact List.map_congr_left fun row _ => hs row
  | _ => cases hop

/-- A call in a body on groups is read as the aggregate that it is. -/
theorem scalarOfCall_computes (hengine : engine.Groups) {op : Operator} {source : Expr}
    (hop : op.aggregates) (hsource : source.isReference)
    (hselector : Expr.areSelector selector)
    (hsupplied : ∀ n ∈ Expr.nodesOfList selector, env.Supplies arguments n)
    (hmeans : (grouping.reading engine db arguments env read g elements).Means
      [(g, .group key elements)] source (source.meaning env)) :
    Yields u (scalarOfCall node op (meanings env (source :: selector)) [(g, .group key elements)])
      ((grouping.reading engine db arguments env read g elements).Computes fun group _ =>
        grouping.aggregate engine env.dialect.callee g (group.map read) op selector) u := by
  have hpath : (source.skeletonIn []).isPath = true := by
    cases source <;> first | rfl | cases hsource
  have hasked : Yields u (aggregateOfGroup node op (meanings env (source :: selector))
      [(g, .group key elements)]) (fun found => ∀ s, found = some s →
        (grouping.reading engine db arguments env read g elements).Computes (fun group _ =>
          grouping.aggregate engine env.dialect.callee g (group.map read) op selector) s) u := by
    rw [meanings, aggregateOfGroup_cons node [], node_meaning, if_pos hpath]
    refine (hmeans u).bind fun b hb => ?_
    cases b with
    | group k element =>
      obtain ⟨rfl, -⟩ := hb.groups
      refine (h.aggregateIn_computes hengine hop hselector hsupplied k).imp ?_
      rintro _ ⟨s, rfl, hs⟩ _ hfound
      cases hfound
      exact hs
    | _ =>
      refine .pure fun s hs => ?_
      cases hs
  rw [scalarOfCall]
  refine hasked.bind fun found hfound => ?_
  cases found with
  | some s => exact .pure (hfound s rfl)
  | none =>
    rw [Operator.isTerminal_of_aggregates hop]
    exact (terminal_ofReference hop hsource).bind fun _ => False.elim

theorem reads_of_aggregatesOnly (hengine : engine.Groups) {body : Expr}
    (hbody : body.aggregatesOnly) (hsupplied : ∀ n ∈ body.nodes, env.Supplies arguments n) :
    ∀ n ∈ body.nodes, (grouping.reading engine db arguments env read g elements).Reads
      [(g, .group key elements)] n := by
  intro n hn
  refine ⟨hsupplied n hn, ?_⟩
  rintro id op args rfl
  have haggregate : (Expr.call id op args).isAggregate := List.all_eq_true.1 hbody _ hn
  cases args with
  | nil => cases haggregate
  | cons source selector =>
    simp only [Expr.isAggregate, Bool.and_eq_true] at haggregate
    obtain ⟨⟨hop, hsource⟩, hselector⟩ := haggregate
    exact ⟨source, selector, rfl, fun hrest hmeans _ =>
      h.scalarOfCall_computes hengine hop hsource hselector hrest hmeans⟩

theorem apply_stands (hengine : engine.Groups) {i : NodeId} {body : Expr}
    (hbody : body.aggregatesOnly) (hsupplied : ∀ n ∈ body.nodes, env.Supplies arguments n) :
    Yields u (((Expr.lambda i [g] body).meaning env).apply [] [.group key elements])
      ((grouping.reading engine db arguments env read g elements).Stands
        [(g, .group key elements)] body) u :=
  GroupReading.meaning_stands h.groupsOf body
    (h.reads_of_aggregatesOnly hengine hbody hsupplied) u

/-- For the rows of a group and the first of them, the value of a body is the one for the group of
what they are read as. -/
theorem value_eq (body : Expr) (group : Group Env) :
    (grouping.reading engine db arguments env read g elements).value [(g, .group key elements)]
        body group.members group.first =
      grouping.value engine env.dialect.callee g body (group.map read) := by
  rw [GroupReading.value, h.scopeElements _ rfl rfl rfl]
  rfl

end Grouping.Bound

end

end SequenceQuery
