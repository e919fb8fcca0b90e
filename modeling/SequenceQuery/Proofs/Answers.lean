import SequenceQuery.Proofs.Forms
import SequenceQuery.Proofs.Outlines
import SequenceQuery.Proofs.Pipelines

namespace SequenceQuery

def Row.ofRecord (r : Record) : Row :=
  ⟨r.map fun column => ⟨column.1, column.2.kind⟩, r.cells⟩

def Select.answer (engine : Engine) (db : Database) (arguments : Arguments) (s : Select)
    (shape : ResultShape) : Except QueryError Answer :=
  (shape.resultOf ((s.records engine db arguments []).map Row.ofRecord)).map QueryResult.answer

namespace Form

def arguments (f : Form) : Arguments :=
  (Provider.callOf (.ofTypes (CallForm.select false f.hasSegment).argumentKinds) f.origin
    .never).arguments

def answer (engine : Engine) (db : Database) (f : Form) : Except QueryError Answer :=
  f.select.answer engine db f.arguments f.shape

end Form

section

variable {engine : Engine} {db : Database} {arguments : Arguments} {env : Surroundings}
  {t : ElementType} {xs : List Element} {rows : Rows} {u v : Prop} {node source : Expr}
  {rest : List Expr}

theorem Rows.Reads.cells_project (h : rows.Reads engine db arguments t xs) {s : Select}
    (hs : rows.project node = .ok s) :
    (s.records engine db arguments []).map Record.cells = xs.map Composite.leaves := by
  obtain ⟨ls, hleaves, -, hrecords⟩ := h.plain.project engine db arguments hs
  rw [hrecords, ← h.elements, List.map_map, List.map_map]
  exact List.map_congr_left fun row _ => cells_leafRecord hleaves row

theorem values_ofRecord (rs : List Record) :
    (rs.map Row.ofRecord).map Row.values = rs.map Record.cells := by
  rw [List.map_map]
  rfl

theorem answer_sequence {s : Select}
    (h : (s.records engine db arguments []).map Record.cells = xs.map Composite.leaves) :
    s.answer engine db arguments .sequence = .ok (.rows (xs.map Composite.leaves)) := by
  rw [← h, ← values_ofRecord]
  rfl

def singleAnswer (nullable unique : Bool) (xs : List Element) : Except QueryError Answer :=
  match xs with
  | [] => if nullable then .ok .nothing else .error .noElements
  | [x] => .ok (.row x.leaves)
  | x :: _ :: _ => if unique then .error .moreThanOneElement else .ok (.row x.leaves)

/-- One row and, where it has to be the only one, a second are enough to tell what a query for one
row returns. -/
theorem answer_single {s : Select} {nullable unique : Bool}
    (h : (s.records engine db arguments []).map Record.cells =
      (xs.take (if unique then 2 else 1)).map Composite.leaves) :
    s.answer engine db arguments (.single nullable unique) = singleAnswer nullable unique xs := by
  rw [← values_ofRecord] at h
  rw [Select.answer]
  revert h
  generalize (s.records engine db arguments []).map Row.ofRecord = rs
  intro h
  rcases xs with _ | ⟨x, _ | ⟨y, xs⟩⟩
  · rw [List.take_nil, List.map_nil, List.map_eq_nil_iff] at h
    subst h
    cases nullable <;> rfl
  · obtain ⟨r, rs, rfl, hr, hrs⟩ : ∃ r rest, rs = r :: rest ∧ r.values = x.leaves ∧
        rest.map Row.values = [] := by
      cases unique <;> exact List.map_eq_cons_iff.1 h
    rw [List.map_eq_nil_iff.1 hrs]
    exact congrArg (fun cells => Except.ok (Answer.row cells)) hr
  · cases unique with
    | false =>
      obtain ⟨r, rs, rfl, hr, hrs⟩ := List.map_eq_cons_iff.1 h
      rw [List.map_eq_nil_iff.1 hrs]
      exact congrArg (fun cells => Except.ok (Answer.row cells)) hr
    | true =>
      obtain ⟨r, rs, rfl, -, hrs⟩ := List.map_eq_cons_iff.1 h
      obtain ⟨r', rs, rfl, -, -⟩ := List.map_eq_cons_iff.1 hrs
      rfl

theorem aggregated_count (engine : Engine) (group : List Env) :
    engine.aggregated "COUNT" false (group.map fun _ => .bool true) = .ofCount group.length := by
  have hknown : (group.map fun _ => Cell.bool true).filter (fun c => !c.isNull) =
      group.map fun _ => .bool true := by
    refine List.filter_eq_self.2 fun c hc => ?_
    obtain ⟨_, -, rfl⟩ := List.mem_map.1 hc
    rfl
  simp only [Engine.aggregated, hknown, Bool.false_eq_true, if_false, if_true, List.length_map]

theorem records_countRows (h : rows.IsPlain) (hopen : rows.select.IsOpen) :
    (rows.selecting .countRows).records engine db arguments [] =
      [[("?column?", .ofCount (rows.kept engine db arguments).length)]] := by
  rw [← aggregated_count engine]
  obtain ⟨⟨distinct, _, source, joins, filter, groupBy, having, orderBy, limit, offset, origin⟩,
    row⟩ := rows
  obtain ⟨rfl, rfl, rfl, rfl, -, -⟩ := h
  obtain ⟨rfl, rfl, rfl⟩ := hopen
  rfl

theorem answer_count (h : rows.Reads engine db arguments t xs) (hopen : rows.select.IsOpen) :
    (rows.selecting .countRows).answer engine db arguments (.scalar false) =
      .ok (.value (.ofCount xs.length)) := by
  rw [Select.answer, records_countRows h.plain hopen, ← h.elements,
    Rows.returned_of_isOpen hopen, List.length_map]
  rfl

theorem forAggregate_reads (h : rows.Reads engine db arguments t xs) :
    Yields u (rows.forAggregate node)
      (fun rows => rows.Reads engine db arguments t xs ∧ rows.select.IsOpen) u := by
  rw [Rows.forAggregate]
  simp only [Binding.isGroup_of_isPlain h.plain.row, Bool.false_eq_true, if_false]
  refine (h.wrapIf (fun _ h => h) Select.isOpen_of node).bind fun rows hrows => .pure ?_
  obtain ⟨⟨hplain, htype, helements⟩, hopen⟩ := hrows
  obtain ⟨hjoins, hgroupBy, hhaving, -, hrow, hcolumns⟩ := hplain
  exact ⟨⟨⟨hjoins, hgroupBy, hhaving, rfl, hrow, hcolumns⟩, htype, helements⟩,
    ⟨hopen.distinct, hopen.limit, hopen.offset⟩⟩

theorem singleRow_answers {nullable unique : Bool}
    (hfiltered : Yields u (filtered node (source.meaning env) (meanings env rest)[0]? [])
      (Rows.Reads engine db arguments t xs) v) :
    Yields u (singleRow node (meanings env (source :: rest)) nullable unique [])
      (fun terminal => ∃ s row, terminal = .single s row nullable unique ∧
        (s.records engine db arguments []).map Record.cells =
          (xs.take (if unique then 2 else 1)).map Composite.leaves) v := by
  refine .bindOk (hfiltered.bind fun rows hrows => ?_)
  refine (hrows.wrapIf (Q := fun s => s.limit = none) (fun _ h => h.limit) (by simp) node).bind
    fun rows hrows => ?_
  obtain ⟨hreads, hlimit⟩ := hrows
  have hlimited := hreads.withLimit hlimit (.int (if unique then 2 else 1))
  have htake : page ((SqlExpr.int (if unique then 2 else 1)).cellIn engine db arguments
      []).count? 0 xs = xs.take (if unique then 2 else 1) := by
    cases unique <;> rfl
  rw [htake] at hlimited
  refine .bind (.lift fun s hs => hs) fun s hs => .pure ⟨s, rows.row, rfl, ?_⟩
  exact hlimited.cells_project hs

theorem terminal_answers {op : Operator} (hop : op.isEnding)
    (hfiltered : Yields u (filtered node (source.meaning env) (meanings env rest)[0]? [])
      (Rows.Reads engine db arguments t xs) v) :
    Yields u (terminal node op (meanings env (source :: rest)) []) (fun terminal =>
      (terminal.atRoot env node).1.answer engine db arguments (terminal.atRoot env node).2 =
        op.answer xs) v := by
  have hcount : Yields u (terminal node .count (meanings env (source :: rest)) [])
      (fun terminal => (terminal.atRoot env node).1.answer engine db arguments
        (terminal.atRoot env node).2 = .ok (.value (.ofCount xs.length))) v := by
    refine .bindOk (hfiltered.bind fun rows hrows => ?_)
    exact (forAggregate_reads hrows).bind fun rows hrows => .pure (answer_count hrows.1 hrows.2)
  have hsingle : ∀ nullable unique, Yields u
      (singleRow node (meanings env (source :: rest)) nullable unique [])
      (fun terminal => (terminal.atRoot env node).1.answer engine db arguments
        (terminal.atRoot env node).2 = singleAnswer nullable unique xs) v := by
    intro nullable unique
    refine (singleRow_answers hfiltered).imp fun terminal hterminal => ?_
    obtain ⟨s, row, rfl, hs⟩ := hterminal
    exact answer_single hs
  cases op with
  | count | longCount => exact hcount
  | first =>
    refine .bindOk ((hsingle false false).imp fun terminal h => h.trans ?_)
    rcases xs with _ | ⟨x, _ | ⟨y, xs⟩⟩ <;> rfl
  | firstOrDefault =>
    refine .bindOk ((hsingle true false).imp fun terminal h => h.trans ?_)
    rcases xs with _ | ⟨x, _ | ⟨y, xs⟩⟩ <;> rfl
  | single =>
    refine .bindOk ((hsingle false true).imp fun terminal h => h.trans ?_)
    rcases xs with _ | ⟨x, _ | ⟨y, xs⟩⟩ <;> rfl
  | singleOrDefault =>
    refine .bindOk ((hsingle true true).imp fun terminal h => h.trans ?_)
    rcases xs with _ | ⟨x, _ | ⟨y, xs⟩⟩ <;> rfl
  | _ => cases hop

variable {entity : Entity} {e : Expr}

variable (engine db) in
theorem atRoot_of_pipeline (h : Pipeline env.catalog entity e t) :
    atRoot env e = sequenceAtRoot env e ∧ e.answer engine env.dialect.callee env.catalog db =
      .ok (.rows ((e.elements engine env.dialect.callee env.catalog db).map
        Composite.leaves)) := by
  cases h <;> exact ⟨rfl, rfl⟩

theorem Operator.isTerminal_of_isEnding {op : Operator} (h : op.isEnding) : op.isTerminal := by
  cases op <;> first | rfl | cases h

theorem asMarker?_of_isEnding {op : Operator} (h : op.isEnding) (id : NodeId) (args : List Expr) :
    (Expr.call id op args).asMarker? = none := by
  cases op <;> first | rfl | cases h

variable (engine db env) in
/-- The statement at the root of a query returns what the query asks for. -/
theorem atRoot_answers (h : Query env.catalog entity e) (hproperties : entity.properties ≠ [])
    (hshort : (db entity.schema entity.table).length < Segment.countBound)
    (hsupplied : ∀ n ∈ e.nodes, env.Supplies arguments n) (hunshared : e.Unshared)
    (hpaged : Paged env arguments e) :
    Yields False (atRoot env e) (fun a => a.1.answer engine db arguments a.2 =
      e.answer engine env.dialect.callee env.catalog db) (e.marker?.isSome = true) := by
  cases h with
  | sequence h =>
    obtain ⟨hroot, hanswer⟩ := atRoot_of_pipeline engine db h
    rw [hroot, hanswer]
    have hreads := h.reads engine db hproperties hshort hsupplied hunshared hpaged
    refine hreads.bind fun rows hrows => ?_
    refine .bind (.lift fun s hs => hs) fun s hs => .pure (answer_sequence ?_)
    exact hrows.cells_project hs
  | @ending id op source t hop h =>
    obtain ⟨hsource, hid⟩ := id_ne_of_unshared hunshared
    obtain ⟨-, hsupplied, -⟩ := call_nodes hsupplied
    obtain ⟨hmarker, hbelow, -⟩ := hpaged.below (asMarker?_of_isEnding hop ..) rfl hid
    rw [hmarker, atRoot, if_pos (Operator.isTerminal_of_isEnding hop), Expr.answer, if_pos hop]
    have hreads := h.reads engine db hproperties hshort hsupplied hsource hbelow
    refine .bind (terminal_answers (t := t) hop ?_) fun terminal hterminal => .pure hterminal
    exact hreads.bind fun rows hrows => .pure hrows
  | @endingWhere id i op source body p t hop h hbody =>
    obtain ⟨hsource, hid⟩ := id_ne_of_unshared hunshared
    obtain ⟨-, hsupplied, hbodySupplied⟩ := lambda_nodes hsupplied
    obtain ⟨hmarker, hbelow, -⟩ := hpaged.below (asMarker?_of_isEnding hop ..)
      (firstMarker?_lambda hbody ..) hid
    rw [hmarker, atRoot, if_pos (Operator.isTerminal_of_isEnding hop), Expr.answer, if_pos hop]
    have hreads := h.reads engine db hproperties hshort hsupplied hsource hbelow
    refine .bind (terminal_answers (t := t) hop ?_) fun terminal hterminal => .pure hterminal
    exact hreads.bind fun rows hrows =>
      restrict_reads hrows (readable_of_operatorFree hbody hbodySupplied)

end

theorem Query.core {catalog : Catalog} {entity : Entity} {e : Expr} (h : Query catalog entity e) :
    e.core = e := by
  cases h with
  | sequence h => cases h <;> rfl
  | _ => rfl

theorem Pipeline.expand_rowOutline {catalog : Catalog} {entity : Entity} {e : Expr}
    {t : ElementType} (h : Pipeline catalog entity e t) :
    (e.rowOutline catalog []).expand = t := by
  induction h with
  | entity h =>
    rw [Expr.rowOutline, h]
    rfl
  | project _ _ _ ih => rw [Expr.rowOutline, Expr.expand_resultIn, ih]
  | filter _ _ ih | distinct _ ih | skip _ _ ih | take _ _ ih | segment _ ih => exact ih

theorem Pipeline.columns {catalog : Catalog} {entity : Entity} {e : Expr} {t : ElementType}
    (h : Pipeline catalog entity e t) (hproperties : entity.properties ≠ []) : t.leaves ≠ [] := by
  induction h with
  | entity h =>
    rw [Entity.type, Entity.leaves_compose]
    simpa using hproperties
  | project _ _ hcolumns _ => exact hcolumns
  | filter _ _ ih | distinct _ ih | skip _ _ ih | take _ _ ih | segment _ ih => exact ih

theorem Query.columnNames_ne_nil {catalog : Catalog} {entity : Entity} {e : Expr}
    (h : Query catalog entity e) (hproperties : entity.properties ≠ []) :
    e.columnNames catalog ≠ [] := by
  have hpipeline : ∀ {e : Expr} {t : ElementType}, Pipeline catalog entity e t →
      (e.rowOutline catalog []).names "" ≠ [] := fun h =>
    Composite.names_ne_nil (h.expand_rowOutline ▸ h.columns hproperties)
  cases h with
  | sequence h => exact hpipeline h
  | @ending _ op _ _ hop h | @endingWhere _ _ op _ _ _ _ hop h _ =>
    have hsource := hpipeline h
    cases op with
    | count | longCount => exact List.cons_ne_nil _ _
    | first | firstOrDefault | single | singleOrDefault => exact hsource
    | _ => cases hop

namespace Form

theorem arguments_eq {f : Form} (hcore : f.origin.core = f.origin)
    (hsegment : f.segment = f.origin.segment?) :
    f.arguments = ⟨f.origin.constants, f.origin.segment?⟩ := by
  rw [arguments, Provider.callOf, PlanCall.arguments]
  simp only [hcore, hasSegment, hsegment]
  cases f.origin.segment? <;> rfl

/-- Running the statement of a query over one table and taking its rows as the form says gives what
the operators of the query make of the rows of the table, in columns of the names that the query
gives them. -/
theorem answer_eq (engine : Engine) (db : Database) {catalog : Catalog} {dialect : Dialect}
    {entity : Entity} {e : Expr} {form : Form} (h : Query catalog entity e)
    (hproperties : entity.properties ≠ []) (hunshared : e.Unshared)
    (hshort : (db entity.schema entity.table).length < Segment.countBound)
    (hform : ofExpr catalog dialect e = .ok form) :
    form.answer engine db = e.answer engine dialect.callee catalog db ∧
      ∀ r ∈ form.select.records engine db form.arguments [],
        List.Forall₂ (IsNamed Prod.fst) (e.columnNames catalog) r := by
  refine ⟨?_, (names_ofExpr hunshared.identified hform).records (h.columnNames_ne_nil hproperties)⟩
  have hpaged : Paged (.ofExpr catalog dialect e) ⟨e.constants, e.segment?⟩ e :=
    ⟨rfl, fun m hm => by rw [Expr.segment?, hm]; rfl⟩
  have hanswers := atRoot_answers engine db (.ofExpr catalog dialect e) h hproperties
    hshort (supplies_ofExpr catalog dialect hunshared e.segment?) hunshared hpaged
  obtain ⟨progress, hrun, hsegment, -, horigin⟩ := ofExpr_ok hform
  obtain ⟨hanswer, hused⟩ := hanswers _ False.elim _ _ hrun
  have hasked : (if progress.segmentUsed then e.segment? else none) = e.segment? := by
    split
    · rfl
    · rename_i hunused
      cases hmarker : e.marker? with
      | none => rw [Expr.segment?, hmarker]; rfl
      | some m => exact absurd (hused (by rw [hmarker]; rfl)) hunused
  subst horigin
  rw [answer, arguments_eq h.core (hsegment.trans hasked)]
  exact hanswer

def integers : Engine where
  binary op a b :=
    match op, a, b with
    | .gt, .int64 m, .int64 n => .bool (decide (n.toInt < m.toInt))
    | _, _, _ => .null
  minus _ := .null
  function _ _ := .null
  aggregate _ _ := .null
  same a b :=
    match a, b with
    | .int64 m, .int64 n => decide (m = n)
    | _, _ => false
  notAfter _ _ := true

/-- The ages above 18, each once, without the first of them. -/
def otherAges : Expr :=
  .call 0 .skip
    [.call 1 .distinct
      [.call 2 .project
        [.call 3 .filter
          [.entity 4 "Person",
            .lambda 5 ["p"]
              (.binary 6 .greaterThan (.member 7 (.param 8 "p") "Age") (.const 9 (.int 18)))],
          .lambda 10 ["q"] (.member 11 (.param 12 "q") "Age")]],
      .const 13 (.int 1)]

def fivePeople : Database := fun _ _ =>
  [30, 12, 41, 30, 25].map fun age => [("age", .int64 age)]

theorem answer_eq_otherAges :
    ∃ form, ofExpr people (Postgres.dialect false) otherAges = .ok form ∧
      form.answer integers fivePeople = .ok (.rows [[.int64 41], [.int64 25]]) := by
  have h : Query people ⟨"Person", "people", none, [⟨"Age", "age", .int, false, false⟩]⟩
      otherAges :=
    .sequence (.skip (.distinct (.project (.filter (.entity rfl) rfl) rfl nofun)) (by decide))
  obtain ⟨form, hform⟩ : ∃ form, ofExpr people (Postgres.dialect false) otherAges = .ok form :=
    ⟨_, rfl⟩
  have hanswer := answer_eq integers fivePeople h nofun (by decide) (by decide) hform
  exact ⟨form, hform, hanswer.1.trans rfl⟩

end Form

end SequenceQuery
