import SequenceQuery.Proofs.KnownValues
import SequenceQuery.Proofs.LeftJoins

namespace SequenceQuery

section

variable (w : World)

def Table.Gives (t : Table) (r : Record) : Prop := r ∈ t.records w.engine w.db w.arguments []

/-- A scope with a record for each table that is read, which may be missing on the far side of a
left join. -/
structure ReadsTables (source : Option Table) (joins : List Join) (env : Env) : Prop where
  source : ∀ t ∈ source, ∃ r, t.Gives w r ∧ env.lookup t.label = some r
  joins : ∀ j ∈ joins, ∃ r, (j.table.Gives w r ∨ j.kind = .left ∧ r = []) ∧
    env.lookup j.table.label = some r

abbrev Select.Reads (s : Select) (env : Env) : Prop := ReadsTables w s.source s.joins env

def Select.ground (s : Select) : Ground := ⟨s.Reads w, s.columns w.catalog w.arguments, s.hasGroups⟩

/-- Rows whose tables have labels of their own. -/
structure Rows.Sound (start p : Progress) (rows : Rows) : Prop where
  labels : ∀ t ∈ rows.select.tables, start.GivesOut p t.label
  nodup : rows.select.labels.Nodup
  upheld : (rows.select.ground w).Upheld
  row : rows.row.Sound w (rows.select.ground w)
  ungrouped : rows.select.hasGroups = false → rows.select.having = none

end

variable {w : World} {s : Select} {rows outer inner : Rows} {start p q : Progress} {row : Env}
  {b : Binding}

section

variable {source : Option Table} {before joins : List Join} {j : Join}

namespace ReadsTables

theorem cons (h : ReadsTables w source before row) {label : String}
    (hlabel : label ∉ (source.toList ++ before.map Join.table).map Table.label) (r : Record) :
    ReadsTables w source before ((label, r) :: row) := by
  have found : ∀ t ∈ source.toList ++ before.map Join.table, ∀ r',
      row.lookup t.label = some r' → List.lookup t.label ((label, r) :: row) = some r' := by
    intro t ht r' hr'
    have hne : (t.label == label) = false :=
      beq_eq_false_iff_ne.2 fun heq => hlabel (heq ▸ List.mem_map_of_mem ht)
    rwa [List.lookup_cons, hne]
  refine ⟨fun t ht => ?_, fun j hj => ?_⟩
  · obtain ⟨r', hgives, hlookup⟩ := h.source t ht
    exact ⟨r', hgives, found t (List.mem_append_left _ (Option.mem_toList.2 ht)) r' hlookup⟩
  · obtain ⟨r', hgives, hlookup⟩ := h.joins j hj
    exact ⟨r', hgives, found j.table (List.mem_append_right _ (List.mem_map_of_mem hj)) r' hlookup⟩

theorem joined_iff : ReadsTables w source (before ++ [j]) row ↔
    ReadsTables w source before row ∧ ∃ r, (j.table.Gives w r ∨ j.kind = .left ∧ r = []) ∧
      row.lookup j.table.label = some r := by
  refine ⟨fun h => ⟨⟨h.source, fun j' hj' => h.joins j' (List.mem_append_left _ hj')⟩,
    h.joins j (List.mem_append_right _ List.mem_cons_self)⟩, fun h => ⟨h.1.source, ?_⟩⟩
  exact List.forall_mem_append.2 ⟨h.1.joins, List.forall_mem_singleton.2 h.2⟩

theorem of_joinedRows {rows : List Env} (hrows : ∀ row ∈ rows, ReadsTables w source before row)
    (hnodup : ((source.toList ++ (before ++ joins).map Join.table).map Table.label).Nodup) :
    ∀ row ∈ joinedRows w.engine w.db w.arguments [] joins rows,
      ReadsTables w source (before ++ joins) row := by
  induction joins generalizing before rows with
  | nil => rwa [List.append_nil]
  | cons j joins ih =>
    rw [← List.singleton_append, ← List.append_assoc] at hnodup ⊢
    obtain ⟨kind, table, condition⟩ := j
    rw [List.singleton_append, joinedRows_cons]
    refine ih (fun row hrow => ?_) hnodup
    obtain ⟨row', hrow', hextend⟩ := List.mem_flatMap.1 hrow
    obtain ⟨r, rfl, hgives⟩ := JoinKind.mem_extend _ _ _ hextend
    have hlabel : table.label ∉ (source.toList ++ before.map Join.table).map Table.label := by
      simp only [List.map_append, List.map_cons, List.map_nil, ← List.append_assoc] at hnodup
      have hprefix := (List.nodup_append.1 hnodup).1
      rw [← List.map_append] at hprefix
      exact fun hmem => List.disjoint_of_nodup_append hprefix hmem List.mem_cons_self
    exact joined_iff.2 ⟨(hrows row' hrow').cons hlabel r, r, hgives, List.lookup_cons_self⟩

end ReadsTables

end

namespace Select

theorem reads_of_kept (hnodup : s.labels.Nodup)
    (hrow : row ∈ s.kept w.engine w.db w.arguments []) : s.Reads w row := by
  have hsource : ∀ row ∈ sourceRows w.engine w.db w.arguments [] s.source,
      ReadsTables w s.source [] row := by
    intro row hrow
    refine ⟨fun t ht => ?_, nofun⟩
    rw [Option.mem_def.1 ht] at hrow
    obtain ⟨r, hr, rfl⟩ := List.mem_map.1 hrow
    exact ⟨r, hr, List.lookup_cons_self⟩
  exact ReadsTables.of_joinedRows hsource hnodup row (List.mem_of_mem_filter hrow)

theorem rows_of_candidates {g : List Env × Env}
    (hg : g ∈ s.candidates w.engine w.db w.arguments []) :
    g.1 ≠ [] ∧ (∀ row ∈ g.1, row ∈ s.kept w.engine w.db w.arguments []) ∧
      g.2 ∈ s.kept w.engine w.db w.arguments [] := by
  have hmade := List.mem_of_mem_filter hg
  split at hmade
  · obtain ⟨hfirst, hrows⟩ := Engine.mem_of_groups hmade
    refine ⟨?_, hrows, hfirst⟩
    obtain ⟨first, hkept, rfl⟩ := List.mem_map.1 hmade
    have hmem := (keepFirst_sublist _ _).subset hkept
    have hself : ∀ cells : List Cell, w.engine.sameCells cells cells = true := fun cells => by
      rw [Engine.sameCells_iff]
      exact List.forall₂_same.2 fun c _ => w.strict.same c
    exact List.ne_nil_of_mem (List.mem_filter.2 ⟨hmem, hself _⟩)
  · obtain ⟨row, hrow, rfl⟩ := List.mem_map.1 hmade
    exact ⟨List.cons_ne_nil _ _, List.forall_mem_singleton.2 hrow, hrow⟩

theorem reads_of_records (hnodup : s.labels.Nodup) (hall : s.aggregatesAll = false) {r : Record}
    (h : r ∈ w.records s []) : ∃ own group env, group ≠ [] ∧ (∀ row ∈ group, s.Reads w row) ∧
      s.Reads w env ∧ r = itemRecord w.engine w.db w.arguments own s.items group env := by
  obtain ⟨own, g, hg, hr⟩ := mem_records h
  rw [gathered_eq hall] at hg
  obtain ⟨hne, hrows, hfirst⟩ := rows_of_candidates hg
  exact ⟨own, g.1, g.2, hne, fun row hrow => reads_of_kept hnodup (hrows row hrow),
    reads_of_kept hnodup hfirst, hr⟩

end Select

namespace Rows

/-- What a statement is computed of does not depend on how its rows are chosen, ordered and
returned. -/
theorem ground_congr {s' : Select} (hsource : s'.source = s.source) (hjoins : s'.joins = s.joins)
    (hgroupBy : s'.groupBy = s.groupBy) : s'.ground w = s.ground w := by
  have hseen : s'.Reads w = s.Reads w := by
    unfold Select.Reads
    rw [hsource, hjoins]
  rw [Select.ground, Select.ground, Select.columns_eq, Select.columns_eq, Select.hasGroups,
    Select.hasGroups, hseen, hsource, hjoins, hgroupBy]

theorem Sound.mono (h : rows.Sound w start p) (hpq : p ≤ q) : rows.Sound w start q :=
  { h with labels := fun t ht => (h.labels t ht).mono le_rfl hpq }

theorem Sound.aggregatesAll_eq_false (h : rows.Sound w start p) {ls : List Leaf}
    (hls : rows.row.leaves? "" = some ls) :
    ({ rows.select with items := items ls } : Select).aggregatesAll = false := by
  have hgroups : ({ rows.select with items := items ls } : Select).hasGroups =
      rows.select.hasGroups := rfl
  rw [Select.aggregatesAll, hgroups]
  cases hgroups : rows.select.hasGroups with
  | true => rfl
  | false =>
    have hitems : (items ls).any SelectItem.hasAggregate = false := by
      rw [items, List.any_map, List.any_eq_false]
      intro l hl
      rw [Function.comp_apply, hasAggregate_item, (h.row.leaves? hls l hl).plain hgroups]
      exact Bool.false_ne_true
    rw [hitems, h.ungrouped hgroups]
    rfl

/-- In each record that a statement returns for its rows stands what it selects, computed of some of
them. -/
theorem Sound.leaf_of_records (h : rows.Sound w start p) {ls : List Leaf}
    (hls : rows.row.leaves? "" = some ls) (hnodup : (ls.map Leaf.name).Nodup) {r : Record}
    (hr : r ∈ w.records { rows.select with items := items ls } []) {l : Leaf} (hl : l ∈ ls) :
    ∃ group env, group ≠ [] ∧ (∀ row ∈ group, rows.select.Reads w row) ∧ rows.select.Reads w env ∧
      r.cell l.name = w.cell l.scalar.expr group env := by
  obtain ⟨own, group, env, hne, hgroup, henv, rfl⟩ := Select.reads_of_records
    (s := { rows.select with items := items ls }) h.nodup (h.aggregatesAll_eq_false hls) hr
  refine ⟨group, env, hne, hgroup, henv, ?_⟩
  rw [itemRecord_items (List.ne_nil_of_mem hl), Record.cell,
    lookup_leaf hnodup (fun l => l.scalar.expr.cell w.engine w.db w.arguments group env) hl,
    Option.getD_some]

theorem fact?_item (arguments : Arguments) (columns : List ColumnFact) (label : String)
    (e : SqlExpr) (name : String) :
    (item e name).fact? arguments columns label =
      some ⟨label, name, e.doubts arguments columns, e.isKnown arguments columns,
        e.isTruth arguments columns⟩ := by
  cases e with
  | column table n =>
    by_cases hn : n = name
    · rw [item, if_pos hn, ← hn]
      rfl
    · rw [item, if_neg hn]
      rfl
  | _ => rfl

theorem columns_projected (s : Select) (items : List SelectItem) :
    ({ s with items := items } : Select).columns w.catalog w.arguments =
      s.columns w.catalog w.arguments := by
  rw [Select.columns_eq, Select.columns_eq]

theorem ground_ofTable (table : Table) (origin : Option Expr) :
    ({ Select.ofTable table with origin := origin } : Select).ground w =
      ⟨ReadsTables w (some table) [], table.columns w.catalog w.arguments, false⟩ := by
  have hcolumns : ({ Select.ofTable table with origin := origin } : Select).columns w.catalog w.arguments =
      table.columns w.catalog w.arguments := List.append_nil _
  rw [Select.ground, hcolumns]
  rfl

theorem sound_ofTable {table : Table} {origin : Option Expr} (hlabel : start.GivesOut p table.label)
    (hupheld : ∀ r, table.Gives w r → ∀ c ∈ table.columns w.catalog w.arguments,
      c.HoldsOf (r.cell c.name))
    (hb : b.Sound w ⟨ReadsTables w (some table) [], table.columns w.catalog w.arguments, false⟩) :
    Rows.Sound w start p ⟨{ Select.ofTable table with origin := origin }, b⟩ where
  labels := List.forall_mem_singleton.2 hlabel
  nodup := List.nodup_singleton _
  upheld := by
    rw [ground_ofTable]
    intro c hc env henv
    obtain ⟨r, hgives, hlookup⟩ := henv.source table rfl
    rw [Env.cell, Table.label_of_columns hc, hlookup]
    exact hupheld r hgives c hc
  row := by
    rw [ground_ofTable]
    exact hb
  ungrouped _ := rfl

/-- What the catalog says of the columns of a table holds. -/
theorem holdsOf_table {schema : Option String} {name label : String} {r : Record}
    (hr : (Table.table schema name label).Gives w r) {c : ColumnFact}
    (hc : c ∈ (Table.table schema name label).columns w.catalog w.arguments) :
    c.HoldsOf (r.cell c.name) := by
  obtain ⟨entity, hfound, hcolumn⟩ := List.mem_flatMap.1 hc
  obtain ⟨hentity, hsame⟩ := List.mem_filter.1 hfound
  obtain ⟨property, hproperty, rfl⟩ := List.mem_map.1 hcolumn
  simp only [Bool.and_eq_true, decide_eq_true_eq] at hsame
  obtain ⟨rfl, rfl⟩ := hsame
  refine ⟨fun hknown => ?_, fun htruth => ?_⟩
  · exact w.holds.present entity hentity r hr property hproperty (Bool.not_eq_true' _ ▸ hknown)
  · exact w.holds.truth entity hentity r hr property hproperty (of_decide_eq_true htruth)

theorem knownOn_column {table : Table} {name : String}
    (h : ∀ r, table.Gives w r → (r.cell name).isNull = false) :
    (SqlExpr.columnOf table.label name).KnownOn w (ReadsTables w (some table) []) := by
  intro group env _ _ henv
  obtain ⟨r, hgives, hlookup⟩ := henv.source table rfl
  show (env.cell table.label name).isNull = false
  rw [Env.cell, hlookup]
  exact h r hgives

section

variable {ls : List Leaf} (hls : rows.row.leaves? "" = some ls) (hnodup : (ls.map Leaf.name).Nodup)
  (label : String)
include hls hnodup

/-- The columns of a derived table hold what is known of the values that are selected. -/
theorem Sound.holdsOf_derived (h : rows.Sound w start p) {r : Record}
    (hr : r ∈ w.records { rows.select with items := items ls } []) {c : ColumnFact}
    (hc : c ∈ (Table.subquery { rows.select with items := items ls } label).columns w.catalog
      w.arguments) : c.HoldsOf (r.cell c.name) := by
  obtain ⟨item, hitem, hfact⟩ := List.mem_filterMap.1 hc
  obtain ⟨l, hl, rfl⟩ := List.mem_map.1 hitem
  rw [fact?_item, columns_projected] at hfact
  cases hfact
  obtain ⟨group, env, hne, hgroup, henv, hcell⟩ := h.leaf_of_records hls hnodup hr hl
  rw [hcell]
  refine ⟨fun hknown => ?_, fun htruth => ?_⟩
  · exact SqlExpr.knownOn_of_isKnown h.upheld _ hknown group env hne hgroup henv
  · exact SqlExpr.truthOn_of_isTruth h.upheld _ htruth group env henv

/-- A column of a derived table is as sure as the value that is selected. -/
theorem Sound.sure_derived (h : rows.Sound w start p) {l : Leaf} (hl : l ∈ ls)
    (hflag : l.scalar.nullable = false) : (SqlExpr.columnOf label l.name).Sure w
      ⟨ReadsTables w (some (.subquery { rows.select with items := items ls } label)) [],
        (Table.subquery { rows.select with items := items ls } label).columns w.catalog
          w.arguments, false⟩ := by
  intro g hle hg hdoubts
  have hfact := hle.2.1 (List.mem_filterMap.2 ⟨_, List.mem_map_of_mem hl, fact?_item _ _ _ _ _⟩)
  rw [columns_projected] at hfact
  have hdoubtful := List.any_eq_false.1 hdoubts _ hfact
  simp only [beq_self_eq_true, Bool.true_and, Bool.not_eq_true] at hdoubtful
  have hsure := (h.row.leaves? hls l hl).sure hflag _ le_rfl h.upheld
    hdoubtful
  refine (knownOn_column fun r hr => ?_).sure g hle hg hdoubts
  obtain ⟨group, env, hne, hgroup, henv, hcell⟩ := h.leaf_of_records hls hnodup hr hl
  rw [hcell]
  exact hsure group env hne hgroup henv

end

theorem wrap_sound (node : Expr) (hstart : start ≤ p) (h : rows.Sound w start p) :
    Builds p (rows.wrap node) fun q rows' => rows'.Sound w start q := by
  refine Builds.check fun s hs => Builds.freshLabel.bind fun q label hpq hlabel => .pure ?_
  obtain ⟨ls, hls, rfl⟩ := Rows.project_ok.1 hs
  obtain ⟨hleaves, hnodup⟩ := Binding.leaves_of_columns hls
  obtain ⟨rfl, hq⟩ := hlabel
  refine sound_ofTable ⟨p.nextLabel, hstart.1, by omega, rfl⟩ ?_
    (Binding.sound_readFrom _ hleaves fun l hl => ?_)
  · exact fun r hr c hc => h.holdsOf_derived hleaves hnodup _ hr hc
  · exact ⟨h.sure_derived hleaves hnodup _ hl, fun _ => rfl⟩

variable {known : Prop}

theorem wrapIf_sound (hstart : start ≤ p) (h : known → rows.Sound w start p) (condition : Bool)
    (node : Expr) :
    Builds p (rows.wrapIf condition node) fun q rows' => known → rows'.Sound w start q := by
  cases condition with
  | false => exact .pure h
  | true =>
    intro rows' q hrun
    have hforward := builds_wrapIf (Q := fun _ => True) node (fun _ => trivial)
      (fun _ _ => trivial) rows' q hrun
    exact ⟨hforward.1, fun hknown => (wrap_sound node hstart (h hknown) rows' q hrun).2⟩

namespace Sound

theorem congr (h : rows.Sound w start p) {s : Select} (hsource : s.source = rows.select.source)
    (hjoins : s.joins = rows.select.joins) (hgroupBy : s.groupBy = rows.select.groupBy)
    (hungrouped : s.hasGroups = false → s.having = none) : Rows.Sound w start p ⟨s, rows.row⟩ := by
  have hground : s.ground w = rows.select.ground w := ground_congr hsource hjoins hgroupBy
  have htables : s.tables = rows.select.tables := by
    rw [Select.tables, Select.tables, hsource, hjoins]
  refine ⟨?_, ?_, ?_, ?_, hungrouped⟩
  · rw [htables]
    exact h.labels
  · rw [Select.labels, htables]
    exact h.nodup
  · rw [hground]
    exact h.upheld
  · rw [hground]
    exact h.row

theorem withRow (h : rows.Sound w start p) (hb : b.SoundIn w [rows.row]) :
    Rows.Sound w start p { rows with row := b } :=
  { h with row := hb _ h.upheld (List.forall_mem_singleton.2 h.row) }

theorem filterBy (h : rows.Sound w start p) (e : SqlExpr) :
    Rows.Sound w start p { rows with select := rows.select.filterBy e } :=
  h.congr rfl rfl rfl h.ungrouped

theorem havingBy (h : rows.Sound w start p) (hgroup : rows.row.isGroup = true) (e : SqlExpr) :
    Rows.Sound w start p { rows with select := rows.select.havingBy e } :=
  h.congr rfl rfl rfl fun hungrouped =>
    absurd (h.row.grouped hgroup) (Bool.eq_false_iff.1 hungrouped)

theorem groupedBy (h : rows.Sound w start p) {key element : Binding} {keys : List SqlExpr}
    (hkey : key.SoundIn w [rows.row]) (helement : element.SoundIn w [rows.row])
    (hgroups : ({ rows.select with groupBy := keys } : Select).hasGroups = true) :
    Rows.Sound w start p ⟨{ rows.select with groupBy := keys }, .group key element⟩ := by
  have hrow := List.forall_mem_singleton.2 h.row
  have hcolumns : ({ rows.select with groupBy := keys } : Select).columns w.catalog w.arguments =
      rows.select.columns w.catalog w.arguments := by
    rw [Select.columns_eq, Select.columns_eq]
  have hle : rows.select.ground w ≤ ({ rows.select with groupBy := keys } : Select).ground w := by
    refine ⟨fun _ => id, ?_, fun _ => hgroups⟩
    rw [Select.ground, Select.ground, hcolumns]
    exact List.Subset.refl _
  refine ⟨h.labels, h.nodup, ?_, ?_, fun hnone => ?_⟩
  · intro c hc env henv
    rw [Select.ground, hcolumns] at hc
    exact h.upheld c hc env henv
  · exact .group hgroups ((hkey _ h.upheld hrow).mono hle) ((helement _ h.upheld hrow).mono hle)
  · rw [hgroups] at hnone
    cases hnone

section

variable {j : Join}

theorem le_joined (s : Select) (j : Join) :
    s.ground w ≤ ({ s with joins := s.joins ++ [j] } : Select).ground w := by
  refine ⟨fun env henv => (ReadsTables.joined_iff.1 henv).1, ?_, id⟩
  rw [Select.ground, Select.ground, Select.columns_joined]
  exact List.subset_append_left _ _

structure Joins (inner : Rows) (j : Join) : Prop where
  source : inner.select.source = some j.table
  joins : inner.select.joins = []
  ungrouped : inner.select.hasGroups = false

theorem Joins.ground (h : Joins inner j) : inner.select.ground w =
    ⟨ReadsTables w (some j.table) [], j.table.columns w.catalog w.arguments, false⟩ := by
  have hcolumns : inner.select.columns w.catalog w.arguments = j.table.columns w.catalog w.arguments := by
    rw [Select.columns_eq, h.source, h.joins]
    exact List.append_nil _
  have hseen : inner.select.Reads w = ReadsTables w (some j.table) [] := by
    unfold Select.Reads
    rw [h.source, h.joins]
  rw [Select.ground, hcolumns, hseen, h.ungrouped]

theorem Joins.le (h : Joins inner j) (hkind : j.kind = .inner) (s : Select) :
    inner.select.ground w ≤ ({ s with joins := s.joins ++ [j] } : Select).ground w := by
  rw [h.ground]
  refine ⟨fun env henv => ?_, ?_, nofun⟩
  · obtain ⟨r, hgives, hlookup⟩ := (ReadsTables.joined_iff.1 henv).2
    refine ⟨fun t ht => ?_, nofun⟩
    cases ht
    rcases hgives with hgives | ⟨hleft, -⟩
    · exact ⟨r, hgives, hlookup⟩
    · rw [hkind] at hleft
      cases hleft
  · rw [Select.ground, Select.columns_joined, hkind]
    exact List.subset_append_right _ _

/-- What is known of the columns of both sides holds where a partner is missing, too. -/
theorem upheld_joined (houter : outer.Sound w start p) (hinner : inner.Sound w p q)
    (hj : Joins inner j) :
    (({ outer.select with joins := outer.select.joins ++ [j] } : Select).ground w).Upheld := by
  intro c hc env henv
  obtain ⟨hreads, r, hgives, hlookup⟩ := ReadsTables.joined_iff.1 henv
  rw [Select.ground, Select.columns_joined] at hc
  rcases List.mem_append.1 hc with hc | hc
  · exact houter.upheld c hc env hreads
  · obtain ⟨fact, hfact, hlabel, hname, hle⟩ := JoinKind.of_mem_facts hc
    have hown : c.label = j.table.label := hlabel.trans (Table.label_of_columns hfact)
    rcases hgives with hgives | ⟨hleft, rfl⟩
    · have hupheld := hinner.upheld
      rw [hj.ground] at hupheld
      rw [hlabel, hname]
      refine hle _ (hupheld fact hfact env ⟨fun t ht => ?_, nofun⟩)
      cases ht
      exact ⟨r, hgives, hlookup⟩
    · rw [Env.cell, hown, hlookup]
      exact JoinKind.holdsOf_missing hleft hc

theorem innerRow (hinner : inner.Sound w p q) (hj : Joins inner j) (s : Select) :
    (j.kind.innerRow inner.row).Sound w
      (({ s with joins := s.joins ++ [j] } : Select).ground w) := by
  cases hkind : j.kind with
  | inner => exact hinner.row.mono (hj.le hkind s)
  | left =>
    have hrow := hinner.row
    rw [hj.ground] at hrow
    exact hrow.asOptional rfl

theorem joined (houter : outer.Sound w start p) (hinner : inner.Sound w p q) (hstart : start ≤ p)
    (hpq : p ≤ q) (hj : Joins inner j)
    (hb : b.SoundIn w [outer.row, j.kind.innerRow inner.row]) :
    Rows.Sound w start q
      ⟨{ outer.select with joins := outer.select.joins ++ [j] }, b⟩ := by
  have htables : inner.select.tables = [j.table] := by
    rw [Select.tables, hj.source, hj.joins]
    rfl
  have hlabel : p.GivesOut q j.table.label :=
    hinner.labels j.table (htables ▸ List.mem_cons_self)
  refine ⟨?_, ?_, upheld_joined houter hinner hj, ?_, houter.ungrouped⟩
  · rw [tables_joined]
    exact List.forall_mem_append.2 ⟨fun t ht => (houter.labels t ht).mono le_rfl hpq,
      List.forall_mem_singleton.2 (hlabel.mono hstart le_rfl)⟩
  · rw [Select.labels_joined]
    refine List.nodup_append.2 ⟨houter.nodup, List.nodup_singleton _, ?_⟩
    rintro l hl l' hl' rfl
    obtain ⟨t, ht, hsame⟩ := List.mem_map.1 hl
    obtain ⟨k, -, hk, heq⟩ := houter.labels t ht
    obtain ⟨k', hk', -, heq'⟩ := hlabel
    have := labelAt_inj ((heq.symm.trans hsame).trans ((List.mem_singleton.1 hl').trans heq'))
    omega
  · refine hb _ (upheld_joined houter hinner hj) (List.forall_mem_cons.2 ⟨?_, ?_⟩)
    · exact houter.row.mono (le_joined _ _)
    · exact List.forall_mem_singleton.2 (hinner.innerRow hj _)

end

end Sound

end Rows

end SequenceQuery
