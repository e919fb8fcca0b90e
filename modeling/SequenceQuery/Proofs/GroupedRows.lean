import SequenceQuery.Proofs.Candidates
import SequenceQuery.Proofs.GroupAggregates

namespace SequenceQuery

section

variable (engine : Engine) (db : Database) (arguments : Arguments)

/-- Rows of one table of which nothing has been made but a selection, read as elements. -/
structure Rows.Sifts (t : ElementType) (xs : List Element) (rows : Rows) : Prop where
  isOpen : rows.select.IsOpen
  groupBy : rows.select.groupBy = []
  having : rows.select.having = none
  orderBy : rows.select.orderBy = []
  row : rows.row.isPlain
  type : rows.row.type = t
  elements : (rows.select.kept engine db arguments []).map
    (rows.row.element engine db arguments) = xs

/-- Groups of rows that are read as groups of elements. -/
structure Rows.Gathers (t : ElementType) (grouping : Grouping) (groups : List (Group Element))
    (rows : Rows) : Prop where
  isOpen : rows.select.IsOpen
  grouped : rows.select.hasGroups = true
  orderBy : rows.select.orderBy = []
  found : ∃ (read : Env → Element) (key elements : Binding) (gathered : List (Group Env)),
    rows.row = .group key elements ∧ key.type = t ∧
    grouping.Bound engine db arguments read key elements ∧
    rows.select.candidates engine db arguments [] =
      gathered.map (fun group => (group.members, group.first)) ∧
    gathered.map (Group.map read) = groups

variable {engine db arguments} {env : Surroundings} {entity : Entity} {t : ElementType}
  {xs : List Element} {rows : Rows} {u v : Prop} {node source body key : Expr} {i : NodeId}
  {p : String} {selector : List Expr}

namespace Rows.Sifts

theorem withOrigin (h : rows.Sifts engine db arguments t xs) (origin : Expr) :
    (rows.withOrigin origin).Sifts engine db arguments t xs := by
  obtain ⟨⟨hdistinct, hlimit, hoffset⟩, hgroupBy, hhaving, horderBy, hrow, htype, helements⟩ := h
  exact ⟨⟨hdistinct, hlimit, hoffset⟩, hgroupBy, hhaving, horderBy, hrow, htype, helements⟩

theorem isFree (h : rows.Sifts engine db arguments t xs) :
    (rows.select.hasPaging || rows.select.distinct || rows.select.hasGroups) = false := by
  rw [Select.hasPaging, h.isOpen.limit, h.isOpen.offset, h.isOpen.distinct, Select.hasGroups,
    h.groupBy]
  rfl

theorem filterBy (h : rows.Sifts engine db arguments t xs) {e : SqlExpr}
    {accepts : Element → Bool} (he : ∀ row, (e.cellIn engine db arguments row).isTrue =
      accepts (rows.row.element engine db arguments row)) :
    Rows.Sifts engine db arguments t (xs.filter accepts)
      { rows with select := rows.select.filterBy e } := by
  refine ⟨⟨h.isOpen.distinct, h.isOpen.limit, h.isOpen.offset⟩, h.groupBy, h.having, h.orderBy,
    h.row, h.type, ?_⟩
  rw [Select.kept_filterBy, ← h.elements, List.filter_map]
  exact congrArg _ (List.filter_congr fun row _ => he row)

theorem withRow (h : rows.Sifts engine db arguments t xs) {b : Binding} {t' : ElementType}
    {f : Element → Element} (hplain : b.isPlain) (htype : b.type = t')
    (hb : ∀ row, b.element engine db arguments row =
      f (rows.row.element engine db arguments row)) :
    Rows.Sifts engine db arguments t' (xs.map f) { rows with row := b } := by
  refine ⟨h.isOpen, h.groupBy, h.having, h.orderBy, hplain, htype, ?_⟩
  rw [← h.elements, List.map_map]
  exact List.map_congr_left fun row _ => hb row

end Rows.Sifts

theorem entity_sifts {name : String} {id : NodeId} (h : env.catalog.entity? name = some entity) :
    Yields u (((Expr.entity id name).meaning env).asSequence false [])
      (Rows.Sifts engine db arguments entity.type
        ((Expr.entity id name).elements engine env.dialect.callee env.catalog db)) u := by
  rw [Expr.elements, h]
  refine entity_yields h fun label => ?_
  refine ⟨⟨rfl, rfl, rfl⟩, rfl, rfl, rfl, rfl, entity.type_rows label, ?_⟩
  refine (congrArg (List.map _) (Select.kept_ofTable ..)).trans ?_
  rw [List.map_map]
  exact List.map_congr_left fun r _ => entity.element_rows label r

theorem filter_sifts
    (hsource : Yields u ((source.meaning env).asSequence false [])
      (Rows.Sifts engine db arguments t xs) v)
    (hbody : ∀ n ∈ body.nodes, Readable env arguments n) :
    Yields u (callRows env node .filter (meanings env [source, .lambda i [p] body]) [])
      (Rows.Sifts engine db arguments t (xs.filter (body.accepts engine env.dialect.callee p)))
      v := by
  refine .bindOk (hsource.bind fun rows hrows => .bindOk ?_)
  rw [restrict]
  simp only [Binding.isGroup_of_isPlain hrows.row, Bool.false_eq_true, if_false, hrows.isFree,
    Rows.wrapIf, pure_bind]
  have hpredicate : Yields v (((Expr.lambda i [p] body).meaning env).applyScalar [] rows.row)
      (Scalar.Stands engine db arguments env [(p, rows.row)] body) v :=
    applyScalar_stands hrows.row hbody
  refine hpredicate.bind fun s hs => .pure (hrows.filterBy fun row => ?_)
  exact congrArg Cell.isTrue (hs.cell row)

theorem project_sifts
    (hsource : Yields u ((source.meaning env).asSequence false [])
      (Rows.Sifts engine db arguments t xs) v)
    (hbody : ∀ n ∈ body.nodes, Readable env arguments n) :
    Yields u (callRows env node .project (meanings env [source, .lambda i [p] body]) [])
      (Rows.Sifts engine db arguments (body.typeIn [(p, t)])
        (xs.map fun x => body.element engine env.dialect.callee [(p, x)])) v := by
  refine .bindOk (hsource.bind fun rows hrows => ?_)
  simp only [hrows.isOpen.distinct, Rows.wrapIf, Bool.false_eq_true, if_false, pure_bind]
  refine .bindOk ?_
  have hselector : Yields v (((Expr.lambda i [p] body).meaning env).apply [] [rows.row])
      (Binding.Stands engine db arguments env [(p, rows.row)] body) v :=
    apply_stands hrows.row hbody
  refine hselector.bind fun b hb => .pure (hrows.withRow hb.plain ?_ hb.element)
  rw [hb.type, ← hrows.type]
  rfl

/-- A selection is read as its elements, in one statement on the table. -/
theorem Selection.sifts {e : Expr} (h : Selection env.catalog entity e t)
    (hsupplied : ∀ n ∈ e.nodes, env.Supplies arguments n) (hmarker : env.marker = none) :
    Yields u ((e.meaning env).asSequence false []) (Rows.Sifts engine db arguments t
      (e.elements engine env.dialect.callee env.catalog db)) u := by
  have hunmarked : ∀ n : Expr, env.marker ≠ some n.id := by simp [hmarker]
  induction h with
  | entity h => exact entity_sifts h
  | filter h hbody ih =>
    obtain ⟨-, hsource, hbodySupplied⟩ := lambda_nodes hsupplied
    exact sequenceOfCall_yields (hunmarked _)
      (filter_sifts (ih hsource) (readable_of_operatorFree hbody hbodySupplied))
      fun _ hrows => hrows.withOrigin _
  | project h hbody ih =>
    obtain ⟨-, hsource, hbodySupplied⟩ := lambda_nodes hsupplied
    exact sequenceOfCall_yields (hunmarked _)
      (project_sifts (ih hsource) (readable_of_operatorFree hbody hbodySupplied))
      fun _ hrows => hrows.withOrigin _

theorem listCells_eq_map (es : List SqlExpr) (row : Env) :
    listCells engine db arguments es [row] row =
      es.map (SqlExpr.cellIn engine db arguments row) := by
  induction es with
  | nil => rfl
  | cons e es ih =>
    rw [listCells, ih]
    rfl

theorem Grouping.Bound.keyCells {grouping : Grouping} {read : Env → Element} {elements : Binding}
    {key : Binding} (h : grouping.Bound engine db arguments read key elements) {ls : List Leaf}
    (hls : key.leaves? "" = some ls) (row : Env) :
    listCells engine db arguments (ls.map fun l => l.scalar.expr) [row] row =
      (grouping.key (read row)).leaves := by
  rw [listCells_eq_map, key.exprs_of_leaves? hls, ← h.key row, Binding.element,
    Composite.leaves_map]

/-- Grouping the rows of a selection by a key with columns groups what they are read as. -/
theorem Rows.Sifts.gathers (h : rows.Sifts engine db arguments t xs) (hengine : engine.Groups)
    {grouping : Grouping} {b elements : Binding} {t' : ElementType}
    (hbound : grouping.Bound engine db arguments (rows.row.element engine db arguments) b elements)
    (htype : b.type = t') (hcolumns : t'.leaves ≠ []) {ss : List Scalar}
    (hss : b.scalars node = .ok ss) :
    Rows.Gathers engine db arguments t' grouping
      (partition (fun x y => engine.sameCells (grouping.key x).leaves (grouping.key y).leaves) xs)
      ⟨{ rows.select with groupBy := ss.map Scalar.expr }, .group b elements⟩ := by
  obtain ⟨ls, hls, rfl⟩ := Binding.leaves_of_scalars hss
  let read := rows.row.element engine db arguments
  let same (a b : Env) := engine.sameCells (grouping.key (read a)).leaves
    (grouping.key (read b)).leaves
  have hequivalence : Equivalence fun a b => same a b = true :=
    ⟨fun a => hengine.sameCells.refl _, hengine.sameCells.symm, hengine.sameCells.trans⟩
  -- A key without columns would leave the statement ungrouped.
  have hgrouped : ((ls.map Leaf.scalar).map Scalar.expr).isEmpty = false := by
    rw [List.map_map, List.isEmpty_eq_false_iff]
    intro hnil
    refine hcolumns ?_
    rw [← htype, Binding.type, Composite.leaves_map, ← b.exprs_of_leaves? hls]
    exact congrArg _ hnil
  refine ⟨⟨h.isOpen.distinct, h.isOpen.limit, h.isOpen.offset⟩, ?_, h.orderBy, read, b, elements,
    partition same (rows.select.kept engine db arguments []), rfl, htype, hbound, ?_, ?_⟩
  · exact congrArg Bool.not hgrouped
  · have hsame : (fun a b : Env => engine.sameCells
        (listCells engine db arguments ((ls.map Leaf.scalar).map Scalar.expr) [a] a)
        (listCells engine db arguments ((ls.map Leaf.scalar).map Scalar.expr) [b] b)) = same := by
      funext a b
      rw [List.map_map]
      exact congrArg₂ engine.sameCells (hbound.keyCells hls a) (hbound.keyCells hls b)
    rw [partition_eq_keepFirst hequivalence, Select.candidates, Select.hasGroups, hgrouped,
      Bool.not_false, if_pos rfl, Engine.groups, hsame, h.having]
    exact List.filter_eq_self.2 fun _ _ => rfl
  · rw [← h.elements, partition_map]

theorem groupBy_gathers (hengine : engine.Groups)
    (hsource : Yields u ((source.meaning env).asSequence false [])
      (Rows.Sifts engine db arguments t xs) v)
    (hkey : ∀ n ∈ key.nodes, Readable env arguments n) (hselector : Expr.areSelector selector)
    (hsupplied : ∀ n ∈ Expr.nodesOfList selector, env.Supplies arguments n)
    (hcolumns : (key.typeIn [(p, t)]).leaves ≠ []) {grouping : Grouping}
    (hgrouping : grouping = ⟨fun x => key.element engine env.dialect.callee [(p, x)],
      fun x => Expr.selected engine env.dialect.callee [] x selector⟩) :
    Yields u
      (callRows env node .groupBy (meanings env (source :: .lambda i [p] key :: selector)) [])
      (Rows.Gathers engine db arguments (key.typeIn [(p, t)]) grouping (partition (fun x y =>
        engine.sameCells (grouping.key x).leaves (grouping.key y).leaves) xs)) v := by
  refine .bindOk (hsource.bind fun rows hrows => ?_)
  simp only [hrows.isFree, Rows.wrapIf, Bool.false_eq_true, if_false, pure_bind]
  have hkeyStands : Yields v (((Expr.lambda i [p] key).meaning env).apply [] [rows.row])
      (Binding.Stands engine db arguments env [(p, rows.row)] key) v :=
    apply_stands hrows.row hkey
  refine .bindOk (hkeyStands.bind fun b hb => ?_)
  have htype : b.type = key.typeIn [(p, t)] := by
    rw [hb.type, ← hrows.type]
    rfl
  -- What is left to do is the same with and without a selector of elements.
  have hgathers : ∀ elements : Binding, elements.isPlain → (∀ row, elements.element engine db
      arguments row = Expr.selected engine env.dialect.callee [] (rows.row.element engine db
        arguments row) selector) → Yields v (do
      let ss ← liftM (b.scalars node)
      return ⟨{ rows.select with groupBy := ss.map Scalar.expr }, .group b elements⟩)
      (Rows.Gathers engine db arguments (key.typeIn [(p, t)]) grouping (partition (fun x y =>
        engine.sameCells (grouping.key x).leaves (grouping.key y).leaves) xs)) v := by
    intro elements hplain helements
    refine .bind (.lift fun ss hss => hss) fun ss hss => .pure ?_
    subst hgrouping
    exact hrows.gathers hengine ⟨hb.plain, hplain, hb.element, helements⟩ htype hcolumns hss
  obtain rfl | ⟨j, q, body, rfl, hbody⟩ := Expr.areSelector_cases hselector
  · exact hgathers rows.row hrows.row fun _ => rfl
  · have hnodes : ∀ n ∈ body.nodes, env.Supplies arguments n := fun n hn =>
      hsupplied n (List.mem_append_left _ (List.mem_cons_of_mem _ hn))
    have hselected : Yields v (((Expr.lambda j [q] body).meaning env).apply [] [rows.row])
        (Binding.Stands engine db arguments env [(q, rows.row)] body) v :=
      apply_stands hrows.row (readable_of_operatorFree hbody hnodes)
    exact hselected.bind fun elements h => hgathers elements h.plain h.element

theorem Rows.Gathers.withOrigin {grouping : Grouping} {groups : List (Group Element)}
    (h : rows.Gathers engine db arguments t grouping groups) (origin : Expr) :
    (rows.withOrigin origin).Gathers engine db arguments t grouping groups := by
  obtain ⟨⟨hdistinct, hlimit, hoffset⟩, hgrouped, horderBy, hfound⟩ := h
  exact ⟨⟨hdistinct, hlimit, hoffset⟩, hgrouped, horderBy, hfound⟩

/-- A condition on groups keeps those that it is true of. -/
theorem filter_gathers (hengine : engine.Groups) {grouping : Grouping}
    {groups : List (Group Element)} {g : String}
    (hsource : Yields u ((source.meaning env).asSequence false [])
      (Rows.Gathers engine db arguments t grouping groups) v)
    (hbody : body.aggregatesOnly) (hsupplied : ∀ n ∈ body.nodes, env.Supplies arguments n) :
    Yields u (callRows env node .filter (meanings env [source, .lambda i [g] body]) [])
      (Rows.Gathers engine db arguments t grouping (groups.filter fun group =>
        (grouping.value engine env.dialect.callee g body group).cell.isTrue)) v := by
  refine .bindOk (hsource.bind fun rows hrows => .bindOk ?_)
  obtain ⟨hopen, hgrouped, horderBy, read, key, elements, gathered, hrow, htype, hbound,
    hcandidates, hgroups⟩ := hrows
  obtain ⟨select, row⟩ := rows
  subst hrow
  rw [restrict]
  simp only [Binding.isGroup, if_true]
  split
  · exact .thrown _
  · have hpredicate : Yields v (((Expr.lambda i [g] body).meaning env).applyScalar []
        (.group key elements)) ((grouping.reading engine db arguments env read g
          elements).Computes fun rows row => ((grouping.reading engine db arguments env read g
            elements).value [(g, .group key elements)] body rows row).cell) v :=
      (hbound.apply_stands hengine hbody hsupplied).bind fun b hb => .lift fun s hs => hb.scalar hs
    refine hpredicate.bind fun s hs => .pure ?_
    have hcell : ∀ group : Group Env, (s.expr.cell engine db arguments group.members
        group.first).isTrue = (grouping.value engine env.dialect.callee g body
          (group.map read)).cell.isTrue := by
      intro group
      rw [← hbound.value_eq body group]
      exact congrArg Cell.isTrue (hs.cell group.members group.first)
    refine ⟨⟨hopen.distinct, hopen.limit, hopen.offset⟩, hgrouped, horderBy, read, key, elements,
      gathered.filter fun group => (s.expr.cell engine db arguments group.members
        group.first).isTrue, rfl, htype, hbound, ?_, ?_⟩
    · refine (Select.candidates_havingBy s.expr).trans ?_
      rw [hcandidates, List.filter_map]
      rfl
    · rw [← hgroups, List.filter_map]
      exact congrArg _ (List.filter_congr fun group _ => hcell group)

/-- Grouped elements with conditions on the groups are read as the groups that are left. -/
theorem Grouped.gathers {e : Expr} (h : Grouped env.catalog entity e t) (hengine : engine.Groups)
    (hsupplied : ∀ n ∈ e.nodes, env.Supplies arguments n) (hmarker : env.marker = none) :
    Yields u ((e.meaning env).asSequence false []) (Rows.Gathers engine db arguments t
      (e.grouping engine env.dialect.callee)
      (e.groups engine env.dialect.callee env.catalog db)) u := by
  have hunmarked : ∀ n : Expr, env.marker ≠ some n.id := by simp [hmarker]
  induction h with
  | groupBy h hkey hselector hcolumns =>
    obtain ⟨-, hsource, hrest⟩ := call_nodes hsupplied
    obtain ⟨hlambda, hselectorSupplied⟩ := List.forall_mem_append.1 hrest
    have hkeyReadable := readable_of_operatorFree hkey (List.forall_mem_cons.1 hlambda).2
    exact sequenceOfCall_yields (hunmarked _) (groupBy_gathers hengine (h.sifts hsource hmarker)
      hkeyReadable hselector hselectorSupplied hcolumns rfl) fun _ hrows => hrows.withOrigin _
  | filter h hbody ih =>
    obtain ⟨-, hsource, hbodySupplied⟩ := lambda_nodes hsupplied
    exact sequenceOfCall_yields (hunmarked _)
      (filter_gathers hengine (ih hsource) hbody hbodySupplied) fun _ hrows => hrows.withOrigin _

end

end SequenceQuery
