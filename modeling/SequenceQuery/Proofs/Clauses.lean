import SequenceQuery.Proofs.Fitting
import SequenceQuery.Proofs.Reading

namespace SequenceQuery

variable {env : Surroundings} {ns : List Expr} {site : Site} {p q start : Progress}

section Lists

variable {catalog : Catalog} {holds : SqlExpr → Prop}

theorem listScoped_iff {es : List SqlExpr} :
    listScoped catalog holds site es ↔ ∀ e ∈ es, e.Scoped catalog holds site := by
  induction es with
  | nil => simp [listScoped]
  | cons e es ih => simp [listScoped, ih]

theorem keysScoped_iff {keys : List SortKey} :
    keysScoped catalog holds site keys ↔ ∀ k ∈ keys, k.expr.Scoped catalog holds site := by
  induction keys with
  | nil => simp [keysScoped]
  | cons k keys ih =>
    obtain ⟨e, ascending⟩ := k
    simp [keysScoped, ih]

theorem itemsScoped_items {leaves : List Leaf}
    (h : ∀ l ∈ leaves, l.scalar.expr.Scoped catalog holds site) :
    itemsScoped catalog holds site (Rows.items leaves) := by
  induction leaves with
  | nil => trivial
  | cons l leaves ih =>
    have hrest := ih fun l' hl' => h l' (List.mem_cons_of_mem _ hl')
    have hl := h l List.mem_cons_self
    show itemsScoped catalog holds site (Rows.item l.scalar.expr l.name :: Rows.items leaves)
    cases hexpr : l.scalar.expr <;> rw [hexpr] at hl <;> exact ⟨hl, hrest⟩

theorem joinsScoped_concat {before : List Table} {joins : List Join} {j : Join}
    (h : joinsScoped catalog holds site before joins) (htable : j.table.Scoped catalog holds site)
    (hcondition : optionScoped catalog holds
      (site.seeing (before ++ joins.map Join.table ++ [j.table])) j.condition) :
    joinsScoped catalog holds site before (joins ++ [j]) := by
  induction joins generalizing before with
  | nil =>
    rw [List.map_nil, List.append_nil] at hcondition
    obtain ⟨kind, table, condition⟩ := j
    exact ⟨htable, hcondition, trivial⟩
  | cons first joins ih =>
    obtain ⟨kind, table, condition⟩ := first
    obtain ⟨hfirst, hcondition', hrest⟩ := h
    refine ⟨hfirst, hcondition', ih hrest ?_⟩
    simpa using hcondition

theorem outputNames_items (leaves : List Leaf) :
    (Rows.items leaves).filterMap SelectItem.name? = leaves.map Leaf.name := by
  have name_item : ∀ (e : SqlExpr) (name : String), (Rows.item e name).name? = some name := by
    intro e name
    cases e with
    | column table n =>
      by_cases h : n = name
      · simp [Rows.item, SelectItem.name?, h]
      · simp [Rows.item, SelectItem.name?, h]
    | _ => rfl
  induction leaves with
  | nil => rfl
  | cons l leaves ih =>
    show (Rows.item l.scalar.expr l.name :: Rows.items leaves).filterMap _ = _
    rw [List.filterMap_cons_some (name_item _ _), ih, List.map_cons]

end Lists

namespace Binding

theorem Fits.asScalar {b : Binding} {s : Scalar} {node : Expr} (h : b.Fits env ns site p)
    (hs : b.asScalar node = .ok s) : s.expr.Fits env ns site p := by
  obtain rfl := asScalar_ok hs
  exact h

theorem Fits.column {label columnPrefix : String} {entity : Entity} {optional : Bool}
    (h : (Binding.record label entity columnPrefix optional).Fits env ns site p)
    {property : Property} (hp : property ∈ entity.properties) :
    (SqlExpr.columnOf label (columnPrefix ++ property.column)).Fits env ns site p := by
  obtain ⟨t, ht, hlabel, hoffers⟩ := h
  exact ⟨.column _ _, t, ht, congrArg some hlabel.symm, hoffers property hp⟩

mutual

theorem Fits.leaves? : ∀ {b : Binding} {path : String} {ls : List Leaf},
    b.leaves? path = some ls → b.Fits env ns site p → ∀ l ∈ ls, l.scalar.expr.Fits env ns site p
  | .record .., _, _, h, hb, l, hl => by
    cases h
    obtain ⟨property, hp, rfl⟩ := List.mem_map.1 hl
    exact hb.column hp
  | .object fields, _, _, h, hb, l, hl => fits_fieldLeaves? h hb l hl
  | .scalar s, _, _, h, hb, l, hl => by
    cases h
    rw [List.mem_singleton.1 hl]
    exact hb
  | .group .., _, _, h, _, _, _ => nomatch h

theorem fits_fieldLeaves? : ∀ {fields : List (String × Binding)} {path : String}
    {ls : List Leaf}, fieldLeaves? path fields = some ls → fieldsFit env ns site p fields →
      ∀ l ∈ ls, l.scalar.expr.Fits env ns site p
  | [], _, _, h, _, l, hl => by
    cases h
    cases hl
  | (name, b) :: rest, path, ls, h, ⟨hb, hrest⟩, l, hl => by
    obtain ⟨first, hfirst, h⟩ := Option.bind_eq_some_iff.1 h
    obtain ⟨others, hothers, h⟩ := Option.bind_eq_some_iff.1 h
    rw [← Option.some.inj h] at hl
    rcases List.mem_append.1 hl with hl | hl
    · exact Fits.leaves? hfirst hb l hl
    · exact fits_fieldLeaves? hothers hrest l hl

end

theorem Fits.scalars {b : Binding} {ss : List Scalar} {node : Expr} (h : b.Fits env ns site p)
    (hs : b.scalars node = .ok ss) : ∀ s ∈ ss, s.expr.Fits env ns site p := by
  obtain ⟨ls, hleaves, rfl⟩ := leaves_of_scalars hs
  intro s hs
  obtain ⟨l, hl, rfl⟩ := List.mem_map.1 hs
  exact h.leaves? hleaves l hl

theorem Fits.member {b found : Binding} {name : String} {node : Expr} (h : b.Fits env ns site p)
    (hm : b.member name node = .ok found) : found.Fits env ns site p := by
  cases member_ok hm with
  | column hp => exact h.column (Text.findNamed?_mem hp)
  | field hf => exact fieldsFit_iff.1 h _ (Text.findNamed?_mem hf)
  | key _ => exact h.1

mutual

theorem Fits.asOptional : ∀ {b : Binding}, b.Fits env ns site p → b.asOptional.Fits env ns site p
  | .record .., h => h
  | .object _, h => fit_fieldsAsOptional h
  | .scalar _, h => h
  | .group .., h => h

theorem fit_fieldsAsOptional : ∀ {fields : List (String × Binding)},
    fieldsFit env ns site p fields → fieldsFit env ns site p (fieldsAsOptional fields)
  | [], _ => trivial
  | (_, _) :: _, ⟨hb, hrest⟩ => ⟨Fits.asOptional hb, fit_fieldsAsOptional hrest⟩

end

section ReadFrom

variable {query : Select} {label : String}

mutual

theorem fits_readFrom (ht : Table.subquery query label ∈ site.visible) :
    ∀ {b : Binding} {path : String} {ls : List Leaf},
    b.leaves? path = some ls → (∀ l ∈ ls, l.name ∈ query.outputNames) →
      (b.readFrom label path).Fits env ns site p
  | .record _ entity columnPrefix optional, path, ls, h, hnames => by
    cases h
    refine ⟨_, ht, rfl, fun property hp => ?_⟩
    have hname := hnames _ (List.mem_map_of_mem hp)
    rw [subpath_eq] at hname
    exact hname
  | .object fields, path, ls, h, hnames => fit_readFieldsFrom ht h hnames
  | .scalar s, path, ls, h, hnames => by
    cases h
    exact ⟨.column _ _, _, ht, rfl, hnames _ List.mem_cons_self⟩
  | .group .., _, _, h, _ => nomatch h

theorem fit_readFieldsFrom (ht : Table.subquery query label ∈ site.visible) :
    ∀ {fields : List (String × Binding)} {path : String} {ls : List Leaf},
    fieldLeaves? path fields = some ls →
      (∀ l ∈ ls, l.name ∈ query.outputNames) →
        fieldsFit env ns site p (readFieldsFrom label path fields)
  | [], _, _, _, _ => trivial
  | (name, b) :: rest, path, ls, h, hnames => by
    obtain ⟨first, hfirst, h⟩ := Option.bind_eq_some_iff.1 h
    obtain ⟨others, hothers, h⟩ := Option.bind_eq_some_iff.1 h
    rw [← Option.some.inj h, List.forall_mem_append] at hnames
    exact ⟨fits_readFrom ht hfirst hnames.1, fit_readFieldsFrom ht hothers hnames.2⟩

end

end ReadFrom

end Binding

structure Select.ClausesScoped (catalog : Catalog) (holds : SqlExpr → Prop) (site : Site)
    (s : Select) : Prop where
  labels : (s.tables.map Table.label).Nodup ∧ ∀ t ∈ s.tables, site.free t.label
  source : sourceScoped catalog holds (site.beside s.tables) s.source
  joins : joinsScoped catalog holds (site.beside s.tables) s.source.toList s.joins
  items : itemsScoped catalog holds (site.within s.tables) s.items
  filter : optionScoped catalog holds (site.within s.tables) s.filter
  groupBy : listScoped catalog holds (site.within s.tables) s.groupBy
  having : optionScoped catalog holds (site.within s.tables) s.having
  orderBy : keysScoped catalog holds (site.within s.tables) s.orderBy
  limit : optionScoped catalog holds (site.within s.tables) s.limit
  offset : optionScoped catalog holds (site.within s.tables) s.offset

theorem Select.scoped_iff {catalog : Catalog} {holds : SqlExpr → Prop} {s : Select} :
    s.Scoped catalog holds site ↔ s.ClausesScoped catalog holds site := by
  cases s
  constructor
  · rintro ⟨h1, h2, h3, h4, h5, h6, h7, h8, h9, h10⟩
    exact ⟨h1, h2, h3, h4, h5, h6, h7, h8, h9, h10⟩
  · rintro ⟨h1, h2, h3, h4, h5, h6, h7, h8, h9, h10⟩
    exact ⟨h1, h2, h3, h4, h5, h6, h7, h8, h9, h10⟩

theorem SqlExpr.fits_within {e : SqlExpr} {tables : List Table} :
    e.Fits env ns (site.within tables) p ↔
      e.Scoped env.catalog (SqlExpr.Written env ns p) ((site.upTo p).within tables) := by
  rw [Site.upTo_within]
  rfl

theorem fits_conjoin {condition : Option SqlExpr} {e : SqlExpr} (he : e.Fits env ns site p)
    (hcondition : optionScoped env.catalog (SqlExpr.Written env ns p) (site.upTo p) condition) :
    (SqlExpr.conjoin condition e).Fits env ns site p := by
  cases condition with
  | none => exact he
  | some first => exact ⟨.binary _ _ _, hcondition, he⟩

theorem Select.Fits.derived {s : Select} (h : s.Fits env ns site p) (hpq : p ≤ q)
    {label : String} (hlabel : p.GivesOut q label) (hfree : site.free label)
    (origin : Option Expr) :
    Select.Fits env ns site q
      { Select.ofTable (.subquery s label) with origin := origin } := by
  have hnew : Site.NewFrom p [.subquery s label] := by
    refine Progress.GivesOut.newFrom (q := q) fun t ht => ?_
    rw [List.mem_singleton.1 ht]
    exact hlabel
  obtain ⟨k, -, hk, rfl⟩ := hlabel
  refine ⟨⟨List.nodup_singleton _, fun t ht => ?_⟩, ?_, trivial, trivial, trivial, trivial, trivial,
    trivial, trivial, trivial⟩
  · rw [List.mem_singleton.1 ht]
    exact ⟨hfree, k, hk, rfl⟩
  · refine Select.Scoped.mono (SqlExpr.Written.mono hpq) ?_ h
    rw [Site.upTo_beside]
    exact Site.upTo_le_beside hnew hpq

theorem tables_joined (s : Select) (j : Join) :
    ({ s with joins := s.joins ++ [j] } : Select).tables = s.tables ++ [j.table] := by
  simp [Select.tables]

/-- A table joined to a statement sees nothing of the tables before it, its condition all of
them. -/
theorem Select.Fits.joined {s : Select} {j : Join} (h : s.Fits env ns site p) (hpq : p ≤ q)
    (hlabel : p.GivesOut q j.table.label) (hfree : site.free j.table.label)
    (htable : j.table.Scoped env.catalog (SqlExpr.Written env ns q)
      ((site.beside (s.tables ++ [j.table])).upTo q))
    (hcondition : optionScoped env.catalog (SqlExpr.Written env ns q)
      ((site.within (s.tables ++ [j.table])).upTo q) j.condition) :
    Select.Fits env ns site q { s with joins := s.joins ++ [j] } := by
  have hclauses := Select.scoped_iff.1 h
  have hwritten : SqlExpr.Written env ns p ≤ SqlExpr.Written env ns q := SqlExpr.Written.mono hpq
  have hnew : Site.NewFrom p [j.table] :=
    Progress.GivesOut.newFrom fun t ht => List.mem_singleton.1 ht ▸ hlabel
  have hbeside : (site.upTo p).beside s.tables ≤ (site.upTo q).beside (s.tables ++ [j.table]) := by
    rw [Site.upTo_beside, Site.upTo_beside]
    exact Site.beside_append_ge hnew hpq
  have hwithin : (site.upTo p).within s.tables ≤ (site.upTo q).within (s.tables ++ [j.table]) := by
    rw [Site.upTo_within, Site.upTo_within]
    exact Site.within_append_ge hnew hpq
  rw [← Site.upTo_beside] at htable
  rw [← Site.upTo_within] at hcondition
  obtain ⟨hnodup, hlabels⟩ := hclauses.labels
  obtain ⟨k, hk, hk', hlabel⟩ := hlabel
  have hfresh : j.table.label ∉ s.tables.map Table.label := by
    intro hmem
    obtain ⟨t, ht, hsame⟩ := List.mem_map.1 hmem
    obtain ⟨-, i, hi, hlabel'⟩ := hlabels t ht
    have := labelAt_inj (hlabel'.symm.trans (hsame.trans hlabel))
    omega
  refine Select.scoped_iff.2 ⟨?_, ?_, ?_, ?_, ?_, ?_, ?_, ?_, ?_, ?_⟩ <;> rw [tables_joined]
  · refine ⟨?_, fun t ht => ?_⟩
    · simpa [List.nodup_append] using ⟨hnodup, fun t ht hsame => hfresh
        (List.mem_map.2 ⟨t, ht, hsame⟩)⟩
    · rcases List.mem_append.1 ht with ht | ht
      · exact (Site.upTo_mono le_rfl hpq).2 _ (hlabels t ht)
      · rw [List.mem_singleton.1 ht]
        exact ⟨hfree, k, hk', hlabel⟩
  · exact sourceScoped_mono hwritten hbeside hclauses.source
  · exact joinsScoped_concat (joinsScoped_mono hwritten hbeside hclauses.joins) htable hcondition
  · exact itemsScoped_mono hwritten hwithin hclauses.items
  · exact optionScoped_mono hwritten hwithin hclauses.filter
  · exact listScoped_mono hwritten hwithin hclauses.groupBy
  · exact optionScoped_mono hwritten hwithin hclauses.having
  · exact keysScoped_mono hwritten hwithin hclauses.orderBy
  · exact optionScoped_mono hwritten hwithin hclauses.limit
  · exact optionScoped_mono hwritten hwithin hclauses.offset

namespace Rows

variable {rows : Rows} {e : SqlExpr}

theorem Fits.mono (h : rows.Fits env ns site p start) (hpq : p ≤ q) :
    rows.Fits env ns site q start where
  items := h.items
  select := Select.Scoped.mono (SqlExpr.Written.mono hpq) (Site.upTo_mono le_rfl hpq) h.select
  labels t ht := (h.labels t ht).mono le_rfl hpq
  row := h.row.later hpq

theorem Fits.clauses (h : rows.Fits env ns site p start) :
    rows.select.ClausesScoped env.catalog (SqlExpr.Written env ns p) (site.upTo p) :=
  Select.scoped_iff.1 h.select

theorem Fits.withLimit (h : rows.Fits env ns site p start)
    (he : e.Fits env ns (site.within rows.select.tables) p) :
    (rows.withLimit e).Fits env ns site p start :=
  { h with select := Select.scoped_iff.2 { h.clauses with limit := SqlExpr.fits_within.1 he } }

theorem Fits.withOffset (h : rows.Fits env ns site p start)
    (he : e.Fits env ns (site.within rows.select.tables) p) :
    (rows.withOffset e).Fits env ns site p start :=
  { h with select := Select.scoped_iff.2 { h.clauses with offset := SqlExpr.fits_within.1 he } }

theorem Fits.withOrigin (h : rows.Fits env ns site p start) (origin : Expr) :
    (rows.withOrigin origin).Fits env ns site p start :=
  { h with select := Select.scoped_iff.2 { h.clauses with } }

theorem Fits.filterBy (h : rows.Fits env ns site p start)
    (he : e.Fits env ns (site.within rows.select.tables) p) :
    Rows.Fits env ns site p start { rows with select := rows.select.filterBy e } := by
  have hfilter := h.clauses.filter
  rw [Site.upTo_within] at hfilter
  have hall := SqlExpr.fits_within.1 (fits_conjoin he hfilter)
  exact { h with select := Select.scoped_iff.2 { h.clauses with filter := hall } }

theorem Fits.havingBy (h : rows.Fits env ns site p start)
    (he : e.Fits env ns (site.within rows.select.tables) p) :
    Rows.Fits env ns site p start { rows with select := rows.select.havingBy e } := by
  have hhaving := h.clauses.having
  rw [Site.upTo_within] at hhaving
  have hall := SqlExpr.fits_within.1 (fits_conjoin he hhaving)
  exact { h with select := Select.scoped_iff.2 { h.clauses with having := hall } }

theorem Fits.asDistinct (h : rows.Fits env ns site p start) :
    Rows.Fits env ns site p start
      { rows with select := { rows.select with distinct := true } } :=
  { h with select := Select.scoped_iff.2 { h.clauses with } }

theorem Fits.unordered (h : rows.Fits env ns site p start) :
    Rows.Fits env ns site p start { rows with select := { rows.select with orderBy := [] } } :=
  { h with select := Select.scoped_iff.2 { h.clauses with orderBy := trivial } }

theorem Fits.orderedBy (h : rows.Fits env ns site p start) {keys : List SortKey}
    (hkeys : ∀ k ∈ keys, k ∈ rows.select.orderBy ∨
      k.expr.Fits env ns (site.within rows.select.tables) p) :
    Rows.Fits env ns site p start { rows with select := { rows.select with orderBy := keys } } := by
  have hall := keysScoped_iff.2 fun k hk => (hkeys k hk).elim
    (keysScoped_iff.1 h.clauses.orderBy k) SqlExpr.fits_within.1
  exact { h with select := Select.scoped_iff.2 { h.clauses with orderBy := hall } }

theorem Fits.groupedBy (h : rows.Fits env ns site p start) {keys : List SqlExpr} {row : Binding}
    (hkeys : ∀ k ∈ keys, k.Fits env ns (site.within rows.select.tables) p)
    (hrow : row.Fits env ns (site.within rows.select.tables) p) :
    Rows.Fits env ns site p start ⟨{ rows.select with groupBy := keys }, row⟩ := by
  have hall := listScoped_iff.2 fun k hk => SqlExpr.fits_within.1 (hkeys k hk)
  exact { h with row := hrow, select := Select.scoped_iff.2 { h.clauses with groupBy := hall } }

theorem Fits.orderedOnlyIfPaged (h : rows.Fits env ns site p start) :
    rows.orderedOnlyIfPaged.Fits env ns site p start := by
  rw [Rows.orderedOnlyIfPaged]
  split
  · exact h
  · exact h.unordered

theorem tables_orderedOnlyIfPaged (rows : Rows) :
    rows.orderedOnlyIfPaged.select.tables = rows.select.tables := by
  rw [Rows.orderedOnlyIfPaged]
  split <;> rfl

theorem Fits.selecting (h : rows.Fits env ns site p start)
    (he : e.Fits env ns (site.within rows.select.tables) p) :
    (rows.selecting e).Fits env ns site p := by
  have hitems : itemsScoped env.catalog (SqlExpr.Written env ns p)
      ((site.upTo p).within rows.select.tables) [.expr e none] :=
    ⟨SqlExpr.fits_within.1 he, trivial⟩
  exact Select.scoped_iff.2 { h.clauses with items := hitems }

theorem Fits.project (h : rows.Fits env ns site p start) {node : Expr} {s : Select}
    (hs : rows.project node = .ok s) : s.Fits env ns site p ∧
      ∃ ls, rows.row.leaves? "" = some ls ∧ s = { rows.select with items := Rows.items ls } := by
  rw [Rows.project] at hs
  cases hcolumns : rows.row.columns node with
  | error e => rw [hcolumns] at hs; cases hs
  | ok ls =>
    rw [hcolumns] at hs
    cases hs
    obtain ⟨hleaves, -⟩ := Binding.leaves_of_columns hcolumns
    have hitems := itemsScoped_items fun l hl =>
      SqlExpr.fits_within.1 (h.row.leaves? hleaves l hl)
    exact ⟨Select.scoped_iff.2 { h.clauses with items := hitems }, ls, hleaves, rfl⟩

def Keeps (site : Site) (p q : Progress) (rows rows' : Rows) : Prop :=
  (site.beside rows.select.tables).upTo p ≤ (site.within rows'.select.tables).upTo q

theorem Fits.wrap (h : rows.Fits env ns site p start) (hopen : site.Open start) (hp : start ≤ p)
    (node : Expr) : Builds p (rows.wrap node) fun q rows' =>
      rows'.Fits env ns site q start ∧ rows.Keeps site p q rows' := by
  refine Builds.check fun s hs => ?_
  obtain ⟨hselect, ls, hleaves, rfl⟩ := h.project hs
  refine Builds.freshLabel.bind fun q label hpq hlabel => .pure ?_
  obtain ⟨rfl, hq⟩ := hlabel
  have hgiven : p.GivesOut q (labelAt p.nextLabel) := ⟨_, Nat.le_refl _, by omega, rfl⟩
  have hfree : site.free (labelAt p.nextLabel) := hopen _ hp.1
  generalize hderived : Table.subquery { rows.select with items := Rows.items ls }
    (labelAt p.nextLabel) = derived at *
  have hnew : Site.NewFrom p [derived] := by
    intro t ht
    rw [List.mem_singleton.1 ht, ← hderived]
    exact ⟨_, Nat.le_refl _, rfl⟩
  have hbeside : (site.beside rows.select.tables).upTo p ≤ site.upTo p :=
    Site.upTo_mono ⟨List.Subset.refl _, fun _ hl => hl.1⟩ le_rfl
  refine ⟨⟨rfl, ?_, ?_, ?_⟩, hbeside.trans (Site.upTo_le_within hnew hpq)⟩
  · rw [← hderived]
    exact hselect.derived hpq hgiven hfree _
  · intro t ht
    rw [List.mem_singleton.1 ht, ← hderived]
    exact ⟨_, hp.1, by omega, rfl⟩
  · rw [← hderived]
    refine Binding.fits_readFrom List.mem_cons_self hleaves fun l hl => ?_
    rw [Select.outputNames, outputNames_items]
    exact List.mem_map_of_mem hl

theorem Fits.wrapIf (h : rows.Fits env ns site p start) (hopen : site.Open start) (hp : start ≤ p)
    (condition : Bool) (node : Expr) : Builds p (rows.wrapIf condition node) fun q rows' =>
      rows'.Fits env ns site q start ∧ rows.Keeps site p q rows' := by
  cases condition with
  | false => exact .pure ⟨h, List.subset_append_right _ _, le_rfl⟩
  | true => exact h.wrap hopen hp node

theorem Fits.forAggregate (h : rows.Fits env ns site p start) (hopen : site.Open start)
    (hp : start ≤ p) (node : Expr) : Builds p (rows.forAggregate node) fun q rows' =>
      rows'.Fits env ns site q start := by
  rw [Rows.forAggregate]
  split
  · exact .refused _ _
  · exact (h.wrapIf hopen hp _ node).bind fun q rows' _ h' => .pure h'.1.unordered

end Rows

end SequenceQuery
