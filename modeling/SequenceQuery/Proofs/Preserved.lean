import SequenceQuery.Proofs.Construction

namespace SequenceQuery

structure Rows.Meets (std : Standard) (place : Place) (rows : Rows) : Prop where
  items : rows.select.items = []
  derived : ∀ q ∈ rows.select.derived, q.Meets std place
  rowExprs : ∀ e ∈ rows.select.rowExprs, e.Meets std (place.within rows.select)
  resultExprs : ∀ e ∈ rows.select.resultExprs, e.Meets std (place.inside rows.select)
  row : rows.row.Meets std (place.inside rows.select)

def Product.Meets (std : Standard) (place : Place) : Product → Prop
  | .value e => e.Meets std place
  | .binding b => b.Meets std place
  | .rows r => r.Meets std place
  | .statement s => s.Meets std place

section

variable {std : Standard} {place place' : Place}

theorem Binding.Meets.mono (hstd : std.IsMonotone) {b : Binding} (h : b.Meets std place)
    (hle : place ≤ place') : b.Meets std place' :=
  h.imp id fun he => he.mono hstd hle

theorem meets_int (n : Int64) : (SqlExpr.int n).Meets std place :=
  .of_isComposed rfl nofun nofun

theorem meets_aggregateOver (op : Operator) {s : Scalar} (h : s.expr.Meets std place) :
    (aggregateOver op s).expr.Meets std place := by
  have haggregate : ∀ name, (SqlExpr.aggregateOf name [s.expr]).Meets std place :=
    fun _ => .aggregate (List.forall_mem_singleton.2 h)
  cases op with
  | sum =>
    have hparts : ∀ part ∈ [SqlExpr.aggregateOf "SUM" [s.expr], .int 0], part.Meets std place :=
      List.forall_mem_cons.2 ⟨haggregate _, List.forall_mem_singleton.2 (meets_int 0)⟩
    exact .of_isComposed rfl hparts nofun
  | _ => exact haggregate _

namespace Rows.Meets

variable {rows : Rows} {e : SqlExpr}

theorem withLimit (hstd : std.IsMonotone) (h : rows.Meets std place) (he : e.Meets std place) :
    (rows.withLimit e).Meets std place := by
  obtain ⟨hjoins, hfilter, hgroups, -, hoffset⟩ := Select.forall_rowExprs.1 h.rowExprs
  refine { h with rowExprs := Select.forall_rowExprs.2 ⟨hjoins, hfilter, hgroups, ?_, hoffset⟩ }
  rintro _ ⟨⟩
  exact he.mono hstd (Place.le_enter _ _ _)

theorem withOffset (hstd : std.IsMonotone) (h : rows.Meets std place) (he : e.Meets std place) :
    (rows.withOffset e).Meets std place := by
  obtain ⟨hjoins, hfilter, hgroups, hlimit, -⟩ := Select.forall_rowExprs.1 h.rowExprs
  refine { h with rowExprs := Select.forall_rowExprs.2 ⟨hjoins, hfilter, hgroups, hlimit, ?_⟩ }
  rintro _ ⟨⟩
  exact he.mono hstd (Place.le_enter _ _ _)

theorem unordered (h : rows.Meets std place) :
    Rows.Meets std place { rows with select := { rows.select with orderBy := [] } } := by
  obtain ⟨hselected, hhaving, -⟩ := Select.forall_resultExprs.1 h.resultExprs
  exact { h with resultExprs := Select.forall_resultExprs.2 ⟨hselected, hhaving, nofun⟩ }

theorem inside_ungrouped {s : Select} (h : s.hasGroups = false) : place.inside s = place.within s := by
  rw [Place.inside, Place.within, h]

theorem filterBy (h : rows.Meets std place) (hgroups : rows.select.hasGroups = false)
    (he : e.Meets std (place.inside rows.select)) :
    Rows.Meets std place { rows with select := rows.select.filterBy e } := by
  obtain ⟨hjoins, hfilter, hgroupBy, hlimit, hoffset⟩ := Select.forall_rowExprs.1 h.rowExprs
  rw [inside_ungrouped hgroups] at he
  refine { h with rowExprs := Select.forall_rowExprs.2 ⟨hjoins, ?_, hgroupBy, hlimit, hoffset⟩ }
  rintro _ ⟨⟩
  exact Select.forall_conjoin (P := fun e => e.Meets std (place.within rows.select))
    (fun _ _ ha hb => ha.and hb) hfilter he

theorem havingBy (h : rows.Meets std place) (he : e.Meets std (place.inside rows.select)) :
    Rows.Meets std place { rows with select := rows.select.havingBy e } := by
  obtain ⟨hselected, hhaving, horder⟩ := Select.forall_resultExprs.1 h.resultExprs
  refine { h with resultExprs := Select.forall_resultExprs.2 ⟨hselected, ?_, horder⟩ }
  rintro _ ⟨⟩
  exact Select.forall_conjoin (P := fun e => e.Meets std (place.inside rows.select))
    (fun _ _ ha hb => ha.and hb) hhaving he

theorem orderedBy (h : rows.Meets std place) {before keys : List SortKey}
    (hbefore : before ⊆ rows.select.orderBy)
    (hkeys : ∀ k ∈ keys, k.expr.Meets std (place.inside rows.select)) :
    Rows.Meets std place
      { rows with select := { rows.select with orderBy := before ++ keys } } := by
  obtain ⟨hselected, hhaving, horder⟩ := Select.forall_resultExprs.1 h.resultExprs
  refine { h with resultExprs := Select.forall_resultExprs.2 ⟨hselected, hhaving, ?_⟩ }
  exact List.forall_mem_append.2 ⟨fun k hk => horder k (hbefore hk), hkeys⟩

theorem groupedBy (hstd : std.IsMonotone) (h : rows.Meets std place)
    (hgroups : rows.select.hasGroups = false) {key element : Binding} {ls : List Leaf}
    (hkey : key.Meets std (place.inside rows.select))
    (helement : element.Meets std (place.inside rows.select)) (hls : key.leaves? "" = some ls) :
    Rows.Meets std place
      ⟨{ rows.select with groupBy := ls.map (·.scalar.expr) }, .group key element⟩ := by
  obtain ⟨hjoins, hfilter, -, hlimit, hoffset⟩ := Select.forall_rowExprs.1 h.rowExprs
  have hinside : place.inside rows.select ≤
      place.inside { rows.select with groupBy := ls.map (·.scalar.expr) } := by
    rw [inside_ungrouped hgroups]
    exact Place.enter_mono le_rfl (List.Subset.refl _) nofun
  refine ⟨h.items, h.derived, Select.forall_rowExprs.2 ⟨hjoins, hfilter, ?_, hlimit, hoffset⟩,
    fun e he => (h.resultExprs e he).mono hstd hinside,
    (hkey.mono hstd hinside).inGroups (helement.mono hstd hinside)⟩
  rw [inside_ungrouped hgroups] at hkey
  exact List.forall_mem_map.2 (hkey.leaves? hls)

theorem joined (hstd : std.IsMonotone) {outer inner : Rows} {j : Join} {row : Binding}
    (houter : outer.Meets std place) (hungrouped : outer.select.hasGroups = false)
    (hinner : inner.Meets std place) (htables : inner.select.tables = [j.table])
    (hcondition : ∀ e ∈ j.condition,
      e.Meets std (place.enter (outer.select.labels ++ [j.table.label]) false))
    (hrow : row.Meets std (place.enter (outer.select.labels ++ [j.table.label]) false)) :
    Rows.Meets std place
      ⟨{ outer.select with joins := outer.select.joins ++ [j] }, row⟩ := by
  have hlabels := Select.labels_joined outer.select j
  have hwithin : place.within { outer.select with joins := outer.select.joins ++ [j] } =
      place.enter (outer.select.labels ++ [j.table.label]) false := by rw [Place.within, hlabels]
  have hinside : place.inside { outer.select with joins := outer.select.joins ++ [j] } =
      place.enter (outer.select.labels ++ [j.table.label]) false :=
    Eq.trans (inside_ungrouped (s := { outer.select with joins := outer.select.joins ++ [j] })
      hungrouped) hwithin
  have hle : place.within outer.select ≤
      place.enter (outer.select.labels ++ [j.table.label]) false :=
    Place.enter_mono le_rfl (List.subset_append_left _ _) nofun
  refine ⟨houter.items, fun q hq => ?_, ?_, ?_, hinside ▸ hrow⟩
  · rw [Select.derived, tables_joined, ← htables, List.filterMap_append] at hq
    exact (List.mem_append.1 hq).elim (houter.derived q) (hinner.derived q)
  · rw [hwithin]
    obtain ⟨hjoins, hothers⟩ := Select.forall_rowExprs.1 fun e he =>
      (houter.rowExprs e he).mono hstd hle
    refine Select.forall_rowExprs.2 ⟨?_, hothers⟩
    exact List.forall_mem_append.2 ⟨hjoins, List.forall_mem_singleton.2 hcondition⟩
  · rw [hinside]
    rw [← inside_ungrouped hungrouped] at hle
    exact fun e he => (houter.resultExprs e he).mono hstd hle

theorem select (h : rows.Meets std place) {items : List SelectItem}
    (hitems : ∀ e ∈ items.filterMap SelectItem.expr?, e.Meets std (place.inside rows.select))
    (hstatement : std.statement place { rows.select with items := items }) :
    Select.Meets std place { rows.select with items := items } := by
  obtain ⟨-, hhaving, horder⟩ := Select.forall_resultExprs.1 h.resultExprs
  exact .select hstatement h.derived h.rowExprs
    (Select.forall_resultExprs.2 ⟨hitems, hhaving, horder⟩)

end Rows.Meets

/-- The standard is asked for only of what is made, at a place related to the one it is made for. -/
structure Standard.IsUpheld (std : Standard) (env : Surroundings) (ns : List Expr)
    (R : Place → Place → Prop) : Prop where
  monotone : std.IsMonotone
  enter : ∀ {a b}, R a b → ∀ labels grouped, R (a.enter labels grouped) (b.enter labels grouped)
  column : ∀ {place l}, l ∈ place.tables → std.column place l
  statement : ∀ {a b ctx s}, R a b → Reached env ns a ctx → Made env ns a ctx (.statement s) →
    std.statement b s

variable {env : Surroundings} {ns : List Expr} {R : Place → Place → Prop} {there : Place}
  {ctx : List Binding}

/-- The bindings at hand meet a standard at a place related to the one that is reached with them. -/
structure Standard.MetIn (std : Standard) (env : Surroundings) (ns : List Expr)
    (R : Place → Place → Prop) (place : Place) (ctx : List Binding) (there : Place) : Prop where
  related : R place there
  reached : Reached env ns place ctx
  bindings : ∀ b ∈ ctx, b.Meets std there

namespace Standard.MetIn

theorem inside (h : std.IsUpheld env ns R) (hmet : std.MetIn env ns R place ctx there)
    {rows : Rows} (hmade : Made env ns place ctx (.rows rows)) (hrows : rows.Meets std there) :
    std.MetIn env ns R (place.inside rows.select) (rows.row :: ctx) (there.inside rows.select) where
  related := h.enter hmet.related _ _
  reached := .inside hmet.reached hmade
  bindings := List.forall_mem_cons.2 ⟨hrows.row, fun b hb =>
    (hmet.bindings b hb).mono h.monotone (Place.le_enter _ _ _)⟩

theorem joined (h : std.IsUpheld env ns R) (hmet : std.MetIn env ns R place ctx there)
    {outer inner : Rows} {innerRow : Binding} {label : String}
    (houter : Made env ns place ctx (.rows outer)) (hinner : Made env ns place ctx (.rows inner))
    (hungrouped : outer.select.hasGroups = false) (hlabels : inner.select.labels = [label])
    (hinnerGroups : inner.select.hasGroups = false)
    (hinnerRow : innerRow = inner.row ∨ innerRow = inner.row.asOptional)
    (houterMeets : outer.Meets std there) (hinnerMeets : inner.Meets std there) :
    std.MetIn env ns R (place.enter (outer.select.labels ++ [label]) false)
      (innerRow :: inner.row :: outer.row :: ctx)
      (there.enter (outer.select.labels ++ [label]) false) where
  related := h.enter hmet.related _ _
  reached := .joined hmet.reached houter hungrouped hinner hlabels hinnerGroups hinnerRow
  bindings := by
    have houterRow := houterMeets.row
    have hinnerMeetsRow := hinnerMeets.row
    rw [Rows.Meets.inside_ungrouped hungrouped] at houterRow
    rw [Rows.Meets.inside_ungrouped hinnerGroups, Place.within, hlabels] at hinnerMeetsRow
    have hrow : inner.row.Meets std (there.enter (outer.select.labels ++ [label]) false) :=
      hinnerMeetsRow.mono h.monotone
        (Place.enter_mono le_rfl (List.subset_append_right _ _) nofun)
    refine List.forall_mem_cons.2 ⟨?_, List.forall_mem_cons.2 ⟨hrow, List.forall_mem_cons.2
      ⟨houterRow.mono h.monotone (Place.enter_mono le_rfl (List.subset_append_left _ _) nofun),
        fun b hb => (hmet.bindings b hb).mono h.monotone (Place.le_enter _ _ _)⟩⟩⟩
    rcases hinnerRow with rfl | rfl
    · exact hrow
    · exact hrow.asOptional

end Standard.MetIn

/-- What is built from bindings that meet a standard meets it. -/
theorem Made.meets (h : std.IsUpheld env ns R) {x : Product} (hmade : Made env ns place ctx x) :
    ∀ {there}, std.MetIn env ns R place ctx there → x.Meets std there := by
  induction hmade with
  | compose hcomposed _ _ ihparts ihqueries =>
    intro there hmet
    exact .of_isComposed hcomposed (fun part hpart => ihparts part hpart hmet)
      fun q hq => ihqueries q hq hmet
  | leaf _ hls hl ih => exact fun hmet => (ih hmet).leaves? hls _ hl
  | countRows => exact fun _ => .aggregate (List.forall_mem_singleton.2 .star)
  | aggregate hgroup _ _ name ih iharg =>
    intro there hmet
    by_cases hspares : std.Spares
    · exact .exempt (hspares _ _ _)
    · have helement := Binding.Meets.element (ih hmet) hspares
      have harg := iharg ⟨hmet.related, .element hmet.reached hgroup,
        List.forall_mem_cons.2 ⟨helement, hmet.bindings⟩⟩
      exact .aggregate (List.forall_mem_singleton.2 harg)
  | bound hb => exact fun hmet => hmet.bindings _ hb
  | scalar _ ih => exact fun hmet => .scalar (ih hmet)
  | object _ ih => exact fun hmet => .object fun f hf => ih f hf hmet
  | field _ hf ih =>
    intro there hmet
    cases ih hmet with
    | object hfields => exact hfields _ hf
  | key _ ih =>
    intro there hmet
    cases ih hmet with
    | group _ hkey _ => exact hkey
  | table _ entity =>
    exact fun _ => ⟨rfl, nofun, nofun, nofun,
      .record (fun _ _ => .column (h.column List.mem_cons_self) _) _⟩
  | wrap hrows hls _ origin ih =>
    intro there hmet
    refine ⟨rfl, List.forall_mem_singleton.2 ?_, nofun, nofun,
      Binding.all_readFrom (fun name => .column (h.column List.mem_cons_self) name) hls⟩
    refine (ih hmet).select ?_ (h.statement hmet.related hmet.reached (.ofLeaves hrows hls))
    rw [Rows.exprs_items]
    exact List.forall_mem_map.2 ((ih hmet).row.leaves? hls)
  | withOrigin _ _ ih => exact fun hmet => { ih hmet with }
  | withLimit _ _ ih ihe => exact fun hmet => (ih hmet).withLimit h.monotone (ihe hmet)
  | withOffset _ _ ih ihe => exact fun hmet => (ih hmet).withOffset h.monotone (ihe hmet)
  | unordered _ ih => exact fun hmet => (ih hmet).unordered
  | filterBy hrows hgroups _ ih ihe =>
    exact fun hmet => (ih hmet).filterBy hgroups (ihe (hmet.inside h hrows (ih hmet)))
  | havingBy hrows _ _ ih ihe =>
    exact fun hmet => (ih hmet).havingBy (ihe (hmet.inside h hrows (ih hmet)))
  | withRow hrows _ _ ih ihrow =>
    exact fun hmet => { ih hmet with row := ihrow (hmet.inside h hrows (ih hmet)) }
  | orderedBy hrows _ hbefore _ ih ihkeys =>
    exact fun hmet => (ih hmet).orderedBy hbefore fun k hk =>
      ihkeys k hk (hmet.inside h hrows (ih hmet))
  | asDistinct _ _ ih => exact fun hmet => { ih hmet with }
  | groupedBy hrows hgroups _ _ hls _ ih ihkey ihelement =>
    intro there hmet
    have hinside := hmet.inside h hrows (ih hmet)
    exact (ih hmet).groupedBy h.monotone hgroups (ihkey hinside) (ihelement hinside) hls
  | joined houter _ hungrouped hinner htables hinnerGroups hinnerRow _ _ ihouter ihinner ihcondition
      ihrow =>
    intro there hmet
    have hlabels := congrArg (List.map Table.label) htables
    have hjoined := hmet.joined h houter hinner hungrouped hlabels hinnerGroups hinnerRow
      (ihouter hmet) (ihinner hmet)
    exact (ihouter hmet).joined h.monotone hungrouped (ihinner hmet) htables
      (fun e he => ihcondition e he hjoined) (ihrow hjoined)
  | project hrows hitems hdistinct ih ihitems =>
    intro there hmet
    exact (ih hmet).select (fun e he => ihitems e he (hmet.inside h hrows (ih hmet)))
      (h.statement hmet.related hmet.reached (.project hrows hitems hdistinct))
  | count hrows hgroups horder ih =>
    intro there hmet
    refine (ih hmet).select (List.forall_mem_singleton.2 ?_)
      (h.statement hmet.related hmet.reached (.count hrows hgroups horder))
    exact .aggregate (List.forall_mem_singleton.2 .star)
  | total hrows hgroups horder hvalue op ih ihvalue =>
    intro there hmet
    refine (ih hmet).select (List.forall_mem_singleton.2 ?_)
      (h.statement hmet.related hmet.reached (.total hrows hgroups horder hvalue op))
    exact meets_aggregateOver op (ihvalue (hmet.inside h hrows (ih hmet)))
  | item hvalue origin ih =>
    intro there hmet
    refine .select (h.statement hmet.related hmet.reached (.item hvalue origin)) nofun nofun ?_
    exact List.forall_mem_singleton.2 ((ih hmet).mono h.monotone (Place.le_enter _ _ _))

end

end SequenceQuery
