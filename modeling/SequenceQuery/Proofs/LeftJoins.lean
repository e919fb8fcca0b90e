import SequenceQuery.Proofs.Answers
import SequenceQuery.Proofs.Derived
import SequenceQuery.Proofs.Frames
import SequenceQuery.Proofs.Ungrouped

namespace SequenceQuery

namespace Binding

mutual

theorem leaves?_asOptional : ∀ (b : Binding) {path : String} {ls : List Leaf},
    b.leaves? path = some ls → ∃ optional, b.asOptional.leaves? path = some optional ∧
      optional.map (fun l => (l.name, l.scalar.expr)) = ls.map fun l => (l.name, l.scalar.expr)
  | .record _ entity columnPrefix optional, path, ls, h => by
    cases h
    refine ⟨_, rfl, ?_⟩
    rw [List.map_map, List.map_map]
    rfl
  | .object fields, path, ls, h => fieldLeaves?_fieldsAsOptional fields h
  | .scalar s, path, ls, h => by
    cases h
    exact ⟨_, rfl, rfl⟩
  | .group .., _, _, h => nomatch h

theorem fieldLeaves?_fieldsAsOptional : ∀ (fields : List (String × Binding)) {path : String}
    {ls : List Leaf}, fieldLeaves? path fields = some ls →
      ∃ optional, fieldLeaves? path (fieldsAsOptional fields) = some optional ∧
        optional.map (fun l => (l.name, l.scalar.expr)) = ls.map fun l => (l.name, l.scalar.expr)
  | [], _, _, h => by
    cases h
    exact ⟨[], rfl, rfl⟩
  | (name, b) :: rest, path, ls, h => by
    obtain ⟨first, hfirst, h⟩ := Option.bind_eq_some_iff.1 h
    obtain ⟨others, hothers, h⟩ := Option.bind_eq_some_iff.1 h
    obtain ⟨optionalFirst, hoptionalFirst, heqFirst⟩ := leaves?_asOptional b hfirst
    obtain ⟨optionalOthers, hoptionalOthers, heqOthers⟩ := fieldLeaves?_fieldsAsOptional rest hothers
    refine ⟨optionalFirst ++ optionalOthers, ?_, ?_⟩
    · rw [fieldsAsOptional, fieldLeaves?, hoptionalFirst, hoptionalOthers]
      rfl
    · rw [← Option.some.inj h, List.map_append, List.map_append, heqFirst, heqOthers]

end

end Binding

/-- How a left join is built: the outer sequence as a table can be joined to it, the inner sequence
as it is on its own and as it is joined, the keys that partners have in common, and the rows. -/
structure LeftJoin (env : Surroundings) (scope : Scope) (node left right leftKey rightKey : Expr)
    (result : Expr) (start stop : Progress) (rows : Rows) where
  before : Rows
  outer : Rows
  sequence : Rows
  inner : Rows
  table : Table
  outerKey : Binding
  innerKey : Binding
  outerKeys : List Scalar
  innerKeys : List Scalar
  (p q r t u v : Progress)
  runBefore : ((left.meaning env).asSequence false scope).run start = .ok (before, p)
  runOuter : (before.wrapIf (before.select.hasPaging || before.select.distinct ||
    before.select.hasGroups) node).run p = .ok (outer, q)
  runSequence : ((right.meaning env).asSequence false scope).run q = .ok (sequence, r)
  runInner : (sequence.wrapIf (!sequence.select.isBareTable) node).run r = .ok (inner, t)
  source : inner.select.source = some table
  runOuterKey : ((leftKey.meaning env).apply scope [outer.row]).run t = .ok (outerKey, u)
  runInnerKey : ((rightKey.meaning env).apply scope [inner.row]).run u = .ok (innerKey, v)
  outerScalars : outerKey.scalars node = .ok outerKeys
  innerScalars : innerKey.scalars node = .ok innerKeys
  runRow : ((result.meaning env).apply scope [outer.row, inner.row.asOptional]).run v =
    .ok (rows.row, stop)
  select : rows.select = { outer.select with
    joins := outer.select.joins ++ [⟨.left, table, matching outerKeys innerKeys⟩]
    origin := some node }

section

variable {env : Surroundings} {scope : Scope} {node left right leftKey rightKey result : Expr}
  {start stop : Progress} {rows : Rows}

theorem leftJoin_ok {i : NodeId} (hnode : node = .call i .leftJoin [left, right, leftKey, rightKey,
    result]) (hmarker : env.marker ≠ some i)
    (h : ((node.meaning env).asSequence false scope).run start = .ok (rows, stop)) :
    Nonempty (LeftJoin env scope node left right leftKey rightKey result start stop rows) := by
  subst hnode
  obtain ⟨built, hbuilt, rfl⟩ := (asSequence_call_ok hmarker).1 h
  simp only [callRows, joinRows, meanings, argument, List.getElem?_cons_zero,
    List.getElem?_cons_succ, Build.run_bind_ok, Build.run_lift_ok] at hbuilt
  obtain ⟨_, _, ⟨⟨⟩, rfl⟩, _, _, ⟨⟨⟩, rfl⟩, before, p, hbefore, outer, q, houter, _, _, ⟨⟨⟩, rfl⟩,
    sequence, r, hsequence, inner, t, hinner, hbuilt⟩ := hbuilt
  cases hsource : inner.select.source with
  | none =>
    rw [hsource] at hbuilt
    cases hbuilt
  | some table =>
    simp only [hsource, Build.run_bind_ok, Build.run_lift_ok] at hbuilt
    obtain ⟨_, _, ⟨⟨⟩, rfl⟩, outerKey, _, hkey, _, _, ⟨⟨⟩, rfl⟩, innerKey, _, hkey', outerKeys, _,
      ⟨hscalars, rfl⟩, innerKeys, _, ⟨hscalars', rfl⟩, hbuilt⟩ := hbuilt
    split at hbuilt
    · cases hbuilt
    · simp only [Build.run_bind_ok, Build.run_lift_ok, Build.run_pure_ok] at hbuilt
      obtain ⟨_, _, ⟨⟨⟩, rfl⟩, row, _, hrow, rfl, rfl⟩ := hbuilt
      exact ⟨⟨before, outer, sequence, inner, table, outerKey, innerKey, outerKeys, innerKeys, p, _,
        r, _, _, _, hbefore, houter, hsequence, hinner, hsource, hkey, hkey', hscalars, hscalars',
        hrow, rfl⟩⟩

end

section Rows

variable {engine : Engine} {db : Database} {arguments : Arguments} {around : Env}

theorem filter_flatMap_of {α β : Type} {f : α → List β} {p : β → Bool} {P : α → Bool}
    {xs : List α} (h : ∀ x ∈ xs, ∀ y ∈ f x, p y = P x) :
    (xs.flatMap f).filter p = (xs.filter P).flatMap f := by
  induction xs with
  | nil => rfl
  | cons x xs ih =>
    obtain ⟨hx, hxs⟩ := List.forall_mem_cons.1 h
    rw [List.flatMap_cons, List.filter_append, ih hxs, List.filter_congr hx]
    cases hP : P x with
    | true => rw [List.filter_true, List.filter_cons_of_pos hP, List.flatMap_cons]
    | false =>
      rw [List.filter_false, List.filter_cons_of_neg (by rw [hP]; exact Bool.false_ne_true),
        List.nil_append]

theorem joinedRows_append (joins more : List Join) (rows : List Env) :
    joinedRows engine db arguments around (joins ++ more) rows =
      joinedRows engine db arguments around more
        (joinedRows engine db arguments around joins rows) := by
  induction joins generalizing rows with
  | nil => rfl
  | cons j joins ih =>
    obtain ⟨kind, table, condition⟩ := j
    rw [List.cons_append, joinedRows_cons, joinedRows_cons, ih]

/-- Own rows under labels that are neither seen nor free make no difference. -/
theorem Site.agrees_append {site : Site} (own : Env)
    (h : ∀ l, (∃ t ∈ site.visible, t.label = l) ∨ site.free l → l ∉ own.map Prod.fst) (a : Env) :
    site.Agrees (own ++ a) a := by
  intro l hl
  have hnone : own.lookup l = none := by
    refine List.lookup_eq_none_iff.2 fun entry hentry => bne_iff_ne.2 ?_
    rintro rfl
    exact h _ hl (List.mem_map_of_mem hentry)
  rw [List.lookup_append, hnone, Option.none_or]

theorem Select.Fits.own_of_kept {env : Surroundings} {ns : List Expr} {site : Site} {p : Progress}
    {s : Select} (h : s.Fits env ns site p) {row : Env}
    (hrow : row ∈ s.kept engine db arguments around) :
    ∃ own, own.map Prod.fst = (s.tables.map Table.label).reverse ∧ row = own ++ around := by
  have hclauses := Select.scoped_iff.1 h
  have hsame : ((site.upTo p).beside s.tables).Agrees around around := fun _ _ => rfl
  have hrows : SameOwn s.tables around around (joinedRows engine db arguments around s.joins
      (sourceRows engine db arguments around s.source)) _ :=
    joinsScoped_rows (fun _ _ => rfl) hsame hclauses.joins
      (sourceScoped_rows (fun _ _ => rfl) hsame hclauses.source)
  obtain ⟨owns, howns, hrows, -⟩ := hrows
  have hmem := List.mem_of_mem_filter hrow
  rw [hrows] at hmem
  obtain ⟨own, hown, rfl⟩ := List.mem_map.1 hmem
  exact ⟨own, howns own hown, rfl⟩

end Rows

namespace LeftJoin

variable {env : Surroundings} {scope : Scope} {node left right leftKey rightKey result : Expr}
  {start stop : Progress} {rows : Rows} {ns : List Expr} {site : Site}
  (j : LeftJoin env scope node left right leftKey rightKey result start stop rows)

include j

theorem outer_fits (hs : scope.Fits env ns site start) (hleft : left.nodes ⊆ ns) :
    start ≤ j.q ∧ j.outer.Fits env ns site j.q start := by
  obtain ⟨hp, hbefore⟩ := (meaning_fits env left hleft).asSequence false hs _ _ j.runBefore
  obtain ⟨hq, houter, -⟩ := hbefore.wrapIf hs.labels hp _ node _ _ j.runOuter
  exact ⟨hp.trans hq, houter⟩

/-- Every row that the outer statement is left with is one that its sequence returns. -/
theorem outer_isOpen : j.outer.select.IsOpen ∧ j.outer.select.hasGroups = false := by
  obtain ⟨-, hpaging, hdistinct, hgroups⟩ := Rows.builds_wrapForRows _ node _ _ j.runOuter
  obtain ⟨hlimit, hoffset⟩ := Select.unpaged_of hpaging
  exact ⟨⟨hdistinct, hlimit, hoffset⟩, hgroups⟩

theorem sequence_fits (hs : scope.Fits env ns site start) (hleft : left.nodes ⊆ ns)
    (hright : right.nodes ⊆ ns) : j.q ≤ j.r ∧
      j.sequence.Fits env ns (site.beside j.outer.select.tables) j.r j.q := by
  obtain ⟨hq, houter⟩ := j.outer_fits hs hleft
  exact (meaning_fits env right hright).asSequence false (hs.beside hq houter.labels) _ _
    j.runSequence

theorem table_mem : j.table ∈ j.inner.select.tables := by
  rw [Select.tables, j.source]
  exact List.mem_append_left _ List.mem_cons_self

theorem label_of_table (hs : scope.Fits env ns site start) (hleft : left.nodes ⊆ ns)
    (hright : right.nodes ⊆ ns) : j.q.GivesOut j.t j.table.label := by
  obtain ⟨hq, houter⟩ := j.outer_fits hs hleft
  obtain ⟨hr, hsequence⟩ := j.sequence_fits hs hleft hright
  have hopen := (hs.beside hq houter.labels).labels
  obtain ⟨-, hinner, -⟩ := hsequence.wrapIf hopen hr _ node _ _ j.runInner
  exact hinner.labels _ j.table_mem

theorem agrees_joined (hs : scope.Fits env ns site start)
    (hvisible : ∀ t ∈ site.visible, ¬site.free t.label) (hleft : left.nodes ⊆ ns)
    (hright : right.nodes ⊆ ns) (r : Record) (row : Env) :
    ((site.upTo j.q).within j.outer.select.tables).Agrees ((j.table.label, r) :: row) row := by
  obtain ⟨hq, houter⟩ := j.outer_fits hs hleft
  obtain ⟨k, hk, -, hlabel⟩ := j.label_of_table hs hleft hright
  refine Site.agrees_append [(j.table.label, r)] (fun l hl hmem => ?_) row
  obtain rfl : l = j.table.label := List.mem_singleton.1 hmem
  rw [hlabel] at hl
  rcases hl with ⟨t, ht, hsame⟩ | ⟨⟨-, i, hi, hsame⟩, -⟩
  · rcases List.mem_append.1 ht with ht | ht
    · obtain ⟨i, -, hi, hlabel'⟩ := houter.labels t ht
      have := labelAt_inj (hsame.symm.trans hlabel')
      omega
    · exact hvisible t ht (hsame ▸ hs.labels k (hq.1.trans hk))
  · have := labelAt_inj hsame
    omega

/-- Each outer row is returned with its partners, or once when it has none. -/
theorem kept (hs : scope.Fits env ns site start)
    (hvisible : ∀ t ∈ site.visible, ¬site.free t.label) (hleft : left.nodes ⊆ ns)
    (hright : right.nodes ⊆ ns) (engine : Engine) (db : Database) (arguments : Arguments)
    (around : Env) : rows.select.kept engine db arguments around =
      (j.outer.select.kept engine db arguments around).flatMap
        (JoinKind.left.extend j.table.label (j.table.records engine db arguments around) fun row =>
          conditionHolds engine db arguments (matching j.outerKeys j.innerKeys) [row] row) := by
  obtain ⟨-, houter⟩ := j.outer_fits hs hleft
  have hfilter : ∀ r row, conditionHolds engine db arguments j.outer.select.filter
      [(j.table.label, r) :: row] ((j.table.label, r) :: row) =
        conditionHolds engine db arguments j.outer.select.filter [row] row := by
    intro r row
    have hagrees := j.agrees_joined hs hvisible hleft hright r row
    exact conditionHolds_of_optionCell
      (optionScoped_cell (fun _ _ => rfl) (.cons hagrees .nil) hagrees houter.clauses.filter)
  rw [Select.kept, j.select, joinedRows_append, joinedRows_cons]
  refine filter_flatMap_of fun row hrow extended hextended => ?_
  obtain ⟨r, rfl, -⟩ := JoinKind.mem_extend _ _ _ hextended
  exact hfilter r row

/-- In an outer row the inner sequence sees what it sees on its own. -/
theorem agrees_sequence (hs : scope.Fits env ns site start)
    (hvisible : ∀ t ∈ site.visible, ¬site.free t.label) (hleft : left.nodes ⊆ ns)
    {engine : Engine} {db : Database} {arguments : Arguments} {around row : Env}
    (hrow : row ∈ j.outer.select.kept engine db arguments around) :
    ((site.beside j.outer.select.tables).upTo j.r).Agrees row around := by
  obtain ⟨-, houter⟩ := j.outer_fits hs hleft
  obtain ⟨own, hown, rfl⟩ := houter.select.own_of_kept hrow
  refine Site.agrees_append own (fun l hl hmem => ?_) around
  rw [hown, List.mem_reverse] at hmem
  rcases hl with ⟨t, ht, rfl⟩ | ⟨⟨-, hnot⟩, -⟩
  · obtain ⟨t', ht', hlabel⟩ := List.mem_map.1 hmem
    exact hvisible t ht (hlabel ▸ (houter.clauses.labels.2 t' ht').1)
  · exact hnot hmem

theorem bare (hs : scope.Fits env ns site start) (hleft : left.nodes ⊆ ns)
    (hright : right.nodes ⊆ ns) (hbare : j.sequence.select.isBareTable = true) :
    j.inner = j.sequence ∧ j.sequence.select =
      { Select.ofTable j.table with origin := j.sequence.select.origin } := by
  obtain ⟨-, hsequence⟩ := j.sequence_fits hs hleft hright
  have hinner : j.inner = j.sequence := by
    obtain ⟨-, hinner, -⟩ | ⟨hwrapped, -⟩ := Rows.wrapIf_cases j.runInner
    · exact hinner
    · rw [hbare] at hwrapped
      cases hwrapped
  have hsource := j.source
  have hitems := hsequence.items
  rw [hinner] at hsource
  refine ⟨hinner, ?_⟩
  generalize j.sequence.select = s at *
  obtain ⟨distinct, items, source, joins, filter, groupBy, having, orderBy, limit, offset, origin⟩ :=
    s
  simp only [Select.isBareTable, Select.hasGroups, Select.hasPaging, Bool.and_eq_true,
    List.isEmpty_iff, Option.isNone_iff_eq_none, Bool.not_eq_true', Bool.not_eq_false',
    Bool.or_eq_false_iff, Option.isSome_eq_false_iff] at hbare hsource hitems
  obtain ⟨⟨⟨⟨⟨⟨⟨-, rfl⟩, rfl⟩, rfl⟩, rfl⟩, rfl⟩, rfl⟩, rfl, rfl⟩ := hbare
  rw [hsource, hitems]
  rfl

theorem wrapped (hbare : j.sequence.select.isBareTable = false) :
    ∃ s ls, j.sequence.project node = .ok s ∧ (∃ label, j.table = .subquery s label) ∧
      j.inner.row.asOptional.leaves? "" = some ls ∧
        ∀ l ∈ ls, l.scalar.expr = .columnOf j.table.label l.name := by
  obtain ⟨hnot, -⟩ | ⟨-, hwrap⟩ := Rows.wrapIf_cases j.runInner
  · rw [hbare] at hnot
    cases hnot
  obtain ⟨s, hs, -, hinner⟩ := Rows.wrap_ok.1 hwrap
  obtain ⟨ls, hls, -⟩ := Rows.project_ok.1 hs
  have htable : j.table = .subquery s (labelAt j.r.nextLabel) := by
    have hsource := j.source
    rw [hinner] at hsource
    exact (Option.some.inj hsource).symm
  have hread :=
    Binding.leaves?_readFrom (labelAt j.r.nextLabel) _ (Binding.leaves_of_columns hls).1
  obtain ⟨optional, hoptional, hsame⟩ := Binding.leaves?_asOptional _ hread
  refine ⟨s, optional, hs, ⟨_, htable⟩, ?_, fun l hl => ?_⟩
  · rw [hinner]
    exact hoptional
  · have hmem : (l.name, l.scalar.expr) ∈ ls.map fun l =>
        (l.name, SqlExpr.columnOf (labelAt j.r.nextLabel) l.name) := by
      have hleaf := List.mem_map_of_mem (f := fun l : Leaf => (l.name, l.scalar.expr)) hl
      rwa [hsame, List.map_map] at hleaf
    obtain ⟨l', -, heq⟩ := List.mem_map.1 hmem
    obtain ⟨hname, hexpr⟩ := Prod.mk.inj heq
    rw [htable, ← hexpr, ← hname]
    rfl

/-- What the rows of a left join hold of the inner sequence, `leaves` being the scalars that its rows
add to them. -/
structure NullExtends (engine : Engine) (db : Database) (arguments : Arguments) (around : Env)
    (leaves : List Leaf) : Prop where
  kept : rows.select.kept engine db arguments around =
    (j.outer.select.kept engine db arguments around).flatMap
      (JoinKind.left.extend j.table.label (j.table.records engine db arguments around) fun row =>
        conditionHolds engine db arguments (matching j.outerKeys j.innerKeys) [row] row)
  /-- Beside an outer row without a partner, all columns of the joined table are null, and so is all
  that the inner sequence computes if it is joined as a derived table. -/
  unmatched : ∀ l ∈ leaves, (j.sequence.select.isBareTable = false ∨
      ∃ name, l.scalar.expr = .columnOf j.table.label name) →
    ∀ row, l.scalar.expr.cellIn engine db arguments ((j.table.label, []) :: row) = .null
  /-- The records of the joined table are those that the inner sequence returns on its own, one by
  one, and beside an outer row each scalar is what that sequence returns. -/
  matched : ∀ {s}, j.sequence.project node = .ok s → List.Forall₂
    (fun t r => ∀ row ∈ j.outer.select.kept engine db arguments around, ∀ l ∈ leaves,
      l.scalar.expr.cellIn engine db arguments ((j.table.label, t) :: row) = r.cell l.name)
    (j.table.records engine db arguments around) (s.records engine db arguments around)

/-- What an inner sequence computes of its bare table, it computes of the same record when joined. -/
theorem matched_of_bare (hs : scope.Fits env ns site start)
    (hvisible : ∀ t ∈ site.visible, ¬site.free t.label) (hleft : left.nodes ⊆ ns)
    (hright : right.nodes ⊆ ns) (hplain : j.sequence.row.isPlain)
    (hbare : j.sequence.select.isBareTable = true) {ls leaves : List Leaf} {s : Select}
    (hls : j.sequence.row.columns node = .ok ls)
    (hleaves : leaves.map (fun l => (l.name, l.scalar.expr)) =
      ls.map fun l => (l.name, l.scalar.expr))
    (hselect : s = { j.sequence.select with items := Rows.items ls })
    (engine : Engine) (db : Database) (arguments : Arguments) (around : Env) :
    List.Forall₂ (fun t r => ∀ row ∈ j.outer.select.kept engine db arguments around, ∀ l ∈ leaves,
        l.scalar.expr.cellIn engine db arguments ((j.table.label, t) :: row) = r.cell l.name)
      (j.table.records engine db arguments around) (s.records engine db arguments around) := by
  obtain ⟨-, hsequence⟩ := j.sequence_fits hs hleft hright
  obtain ⟨-, hbareSelect⟩ := j.bare hs hleft hright hbare
  obtain ⟨hls, hnodup⟩ := Binding.leaves_of_columns hls
  rw [hbareSelect] at hselect
  rw [hselect, Select.records_ofTable _ _ (any_hasAggregate_items hplain hls),
    List.forall₂_map_right_iff, List.forall₂_same]
  intro t ht row hrow l hl
  have hmem : (l.name, l.scalar.expr) ∈ ls.map fun l => (l.name, l.scalar.expr) :=
    hleaves ▸ List.mem_map_of_mem (f := fun l : Leaf => (l.name, l.scalar.expr)) hl
  obtain ⟨l', hl', heq⟩ := List.mem_map.1 hmem
  obtain ⟨hname, hexpr⟩ := Prod.mk.inj heq
  rw [itemRecord_items (List.ne_nil_of_mem hl'), Record.cell, ← hname, ← hexpr,
    lookup_leaf hnodup (fun l => l.scalar.expr.cell engine db arguments
      [(j.table.label, t) :: around] ((j.table.label, t) :: around)) hl', Option.getD_some]
  have hagrees : (((site.beside j.outer.select.tables).upTo j.r).within [j.table]).Agrees
      ([(j.table.label, t)] ++ row) ([(j.table.label, t)] ++ around) :=
    (j.agrees_sequence hs hvisible hleft hrow).within rfl
  have htables : j.sequence.select.tables = [j.table] := by
    rw [hbareSelect]
    rfl
  have hfits : l'.scalar.expr.Fits env ns
      ((site.beside j.outer.select.tables).within [j.table]) j.r := by
    rw [← htables]
    exact hsequence.row.leaves? hls l' hl'
  exact SqlExpr.Scoped.cell_eq (fun _ _ => rfl) (.cons hagrees .nil) hagrees
    (SqlExpr.fits_within.1 hfits)

end LeftJoin

section

variable {env : Surroundings} {scope : Scope} {left right leftKey rightKey result : Expr}
  {start stop : Progress} {rows : Rows} {ns : List Expr} {site : Site} {i : NodeId}

/-- A left join returns each outer row with its partners, in which the inner sequence has its own
values, or else once with nulls for the inner side, except for what was computed of a bare table. -/
theorem leftJoin_nullExtends (hmarker : env.marker ≠ some i) (hright : right.Ungrouped)
    (hplain : scope.IsPlain) (hs : scope.Fits env ns site start)
    (hvisible : ∀ t ∈ site.visible, ¬site.free t.label)
    (hnodes : Expr.nodesOfList [left, right, leftKey, rightKey, result] ⊆ ns)
    (h : (((Expr.call i .leftJoin [left, right, leftKey, rightKey, result]).meaning env).asSequence
      false scope).run start = .ok (rows, stop)) :
    ∃ (j : LeftJoin env scope (.call i .leftJoin [left, right, leftKey, rightKey, result]) left
        right leftKey rightKey result start stop rows) (leaves : List Leaf),
      j.outer.select.IsOpen ∧ j.outer.select.hasGroups = false ∧
      j.inner.row.asOptional.leaves? "" = some leaves ∧
      ∀ engine db arguments around, j.NullExtends engine db arguments around leaves := by
  obtain ⟨j⟩ := leftJoin_ok rfl hmarker h
  have hleft : left.nodes ⊆ ns := fun n hn => hnodes (List.mem_append_left _ hn)
  have hrightNodes : right.nodes ⊆ ns := fun n hn =>
    hnodes (List.mem_append_right _ (List.mem_append_left _ hn))
  obtain ⟨hopen, hgroups⟩ := j.outer_isOpen
  have hungrouped : j.sequence.IsUngrouped :=
    (hright.asSequence hplain false _ nofun _ _ j.runSequence).1
  have hkept := j.kept hs hvisible hleft hrightNodes
  cases hbare : j.sequence.select.isBareTable with
  | true =>
    obtain ⟨hinner, -⟩ := j.bare hs hleft hrightNodes hbare
    obtain ⟨ls, hls⟩ := Binding.leaves?_of_isPlain _ "" hungrouped.row
    obtain ⟨leaves, hleaves, hsame⟩ := Binding.leaves?_asOptional _ hls
    refine ⟨j, leaves, hopen, hgroups, hinner ▸ hleaves, fun engine db arguments around => ?_⟩
    refine ⟨hkept engine db arguments around, fun l hl hcolumn row => ?_, fun {s} hproject => ?_⟩
    · rcases hcolumn with hwrapped | ⟨name, hcolumn⟩
      · rw [hbare] at hwrapped
        cases hwrapped
      · rw [hcolumn, Binding.cellIn_columnOf]
        rfl
    · obtain ⟨found, hfound, hselect⟩ := Rows.project_ok.1 hproject
      obtain rfl : found = ls :=
        Option.some.inj ((Binding.leaves_of_columns hfound).1.symm.trans hls)
      exact j.matched_of_bare hs hvisible hleft hrightNodes hungrouped.row hbare hfound hsame
        hselect engine db arguments around
  | false =>
    obtain ⟨s, leaves, hproject, ⟨label, htable⟩, hleaves, hcolumns⟩ := j.wrapped hbare
    refine ⟨j, leaves, hopen, hgroups, hleaves, fun engine db arguments around => ?_⟩
    refine ⟨hkept engine db arguments around, fun l hl _ row => ?_, fun {s'} hproject' => ?_⟩
    · rw [hcolumns l hl, Binding.cellIn_columnOf]
      rfl
    · obtain rfl := Rows.project_node hproject hproject'
      have hrecords : j.table.records engine db arguments around =
          s.records engine db arguments around := by
        rw [htable]
        rfl
      rw [hrecords, List.forall₂_same]
      intro r _ row _ l hl
      rw [hcolumns l hl, Binding.cellIn_columnOf]

end

namespace Form

def shop : Catalog :=
  ⟨[⟨"Customer", "customers", none, [⟨"Id", "id", .int, false, true⟩]⟩,
    ⟨"Order", "orders", none, [⟨"CustomerId", "customer_id", .int, false, false⟩]⟩]⟩

/-- Two customers, of whom the first has ordered something. -/
def oneOrder : Database := fun _ name =>
  if name = "orders" then [[("customer_id", .int64 1)]] else [[("id", .int64 1)], [("id", .int64 2)]]

def equalities : Engine :=
  { integers with
    binary op a b :=
      match op, a, b with
      | .eq, .int64 m, .int64 n => .bool (decide (m = n))
      | _, _, _ => .null }

/-- The orders, with a value that is the same for all of them. -/
def placedOrders : Expr :=
  .call 14 .project [.entity 15 "Order",
    .lambda 16 ["o"] (.object 17 [("customer", .member 18 (.param 19 "o") "CustomerId"),
      ("placed", .const 20 (.int 5))])]

def customerId : Expr := .lambda 2 ["c"] (.member 3 (.param 4 "c") "Id")

def orderedBy : Expr := .lambda 5 ["x"] (.member 6 (.param 7 "x") "customer")

def idAndPlaced : Expr :=
  .lambda 8 ["c", "x"] (.object 9 [("id", .member 10 (.param 11 "c") "Id"),
    ("placed", .member 12 (.param 13 "x") "placed")])

def withOrders (orders : Expr) : Expr :=
  .call 0 .leftJoin [.entity 1 "Customer", orders, customerId, orderedBy, idAndPlaced]

/-- Each order once, so that the orders are joined as a derived table. -/
def distinctOrders : Expr := .call 21 .distinct [placedOrders]

theorem leftJoin_nullExtends_distinctOrders :
    ∃ (stop : Progress) (rows : Rows)
      (j : LeftJoin (.ofExpr shop (Postgres.dialect false) (withOrders distinctOrders)) []
        (withOrders distinctOrders) (.entity 1 "Customer") distinctOrders customerId orderedBy
        idAndPlaced ⟨0, false⟩ stop rows) (leaves : List Leaf),
      j.inner.row.asOptional.leaves? "" = some leaves ∧
        j.NullExtends equalities oneOrder ⟨[.int 5], none⟩ [] leaves ∧
        ∃ f, ofExpr shop (Postgres.dialect false) (withOrders distinctOrders) = .ok f ∧
          f.answer equalities oneOrder =
            .ok (.rows [[.int64 1, .int64 5], [.int64 2, .null]]) := by
  let env : Surroundings := .ofExpr shop (Postgres.dialect false) (withOrders distinctOrders)
  have hrun : (((withOrders distinctOrders).meaning env).asSequence false []).run ⟨0, false⟩ =
    .ok _ := rfl
  have hscope : Scope.Fits env (Expr.nodesOfList [.entity 1 "Customer", distinctOrders, customerId,
      orderedBy, idAndPlaced]) .outermost ⟨0, false⟩ [] :=
    ⟨fun _ _ => trivial, List.forall_mem_nil _⟩
  obtain ⟨j, leaves, -, -, hleaves, h⟩ := leftJoin_nullExtends (by decide)
    (.call rfl (.call rfl .entity)) Scope.isPlain_nil hscope nofun (List.Subset.refl _) hrun
  exact ⟨_, _, j, leaves, hleaves, h equalities oneOrder ⟨[.int 5], none⟩ [], _, rfl, rfl⟩

/-- The second customer has no order, but something of an order. -/
theorem leftJoin_ne_null_placedOrders : ∃ f,
    ofExpr shop (Postgres.dialect false) (withOrders placedOrders) = .ok f ∧
      f.answer equalities oneOrder = .ok (.rows [[.int64 1, .int64 5], [.int64 2, .int64 5]]) :=
  ⟨_, rfl, rfl⟩

end Form

end SequenceQuery
