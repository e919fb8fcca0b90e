import SequenceQuery.Proofs.Candidates
import SequenceQuery.Proofs.Scoping

namespace SequenceQuery

theorem keepFirst_congr {α : Type} {same same' : α → α → Bool} {xs : List α}
    (h : ∀ x ∈ xs, ∀ y ∈ xs, same x y = same' x y) : keepFirst same xs = keepFirst same' xs := by
  induction xs with
  | nil => rfl
  | cons x xs ih =>
    have hrest : keepFirst same xs = keepFirst same' xs :=
      ih fun y hy z hz => h y (List.mem_cons_of_mem _ hy) z (List.mem_cons_of_mem _ hz)
    rw [keepFirst, keepFirst, hrest]
    congr 1
    refine List.filter_congr fun y hy => ?_
    have hmem : y ∈ xs := (keepFirst_sublist same' xs).subset hy
    rw [h x List.mem_cons_self y (List.mem_cons_of_mem _ hmem)]

namespace Engine

variable {engine : Engine} {key key' : Env → List Cell} {rows : List Env}

theorem groups_map (f : Env → Env) (key : Env → List Cell) (rows : List Env) :
    engine.groups key (rows.map f) =
      (engine.groups (fun row => key (f row)) rows).map fun g => (g.1.map f, f g.2) := by
  rw [groups, groups, keepFirst_map, List.map_map, List.map_map]
  refine List.map_congr_left fun row _ => ?_
  simp only [Function.comp_apply, List.filter_map]
  rfl

theorem groups_congr (h : ∀ row ∈ rows, key row = key' row) :
    engine.groups key rows = engine.groups key' rows := by
  rw [groups, groups]
  have hsame : ∀ x ∈ rows, ∀ y ∈ rows, engine.sameCells (key x) (key y) =
      engine.sameCells (key' x) (key' y) := fun x hx y hy => by rw [h x hx, h y hy]
  rw [keepFirst_congr hsame]
  refine List.map_congr_left fun row hrow => ?_
  have hmem : row ∈ rows := (keepFirst_sublist _ rows).subset hrow
  rw [List.filter_congr fun y hy => hsame row hmem y hy]

theorem mem_of_groups {g : List Env × Env} (hg : g ∈ engine.groups key rows) :
    g.2 ∈ rows ∧ ∀ row ∈ g.1, row ∈ rows := by
  obtain ⟨row, hrow, rfl⟩ := List.mem_map.1 hg
  exact ⟨(keepFirst_sublist _ rows).subset hrow, fun row h => List.mem_of_mem_filter h⟩

end Engine

/-- Nothing that is seen or free at the site is told apart in the two scopes. -/
def Site.Agrees (site : Site) (a b : Env) : Prop :=
  ∀ l, (∃ t ∈ site.visible, t.label = l) ∨ site.free l → a.lookup l = b.lookup l

namespace Site.Agrees

variable {site : Site} {a b own : Env} {tables : List Table}

theorem beside (h : site.Agrees a b) (tables : List Table) : (site.beside tables).Agrees a b :=
  fun l hl => h l (hl.imp_right And.left)

theorem seeing (h : site.Agrees a b)
    (hown : own.map Prod.fst = (tables.map Table.label).reverse) :
    (site.seeing tables).Agrees (own ++ a) (own ++ b) := by
  intro l hl
  rw [List.lookup_append, List.lookup_append]
  cases hlookup : own.lookup l with
  | some r => rfl
  | none =>
    rw [Option.none_or, Option.none_or]
    refine h l (hl.imp_left ?_)
    rintro ⟨t, ht, rfl⟩
    rcases List.mem_append.1 ht with ht | ht
    · have hmem : t.label ∈ own.map Prod.fst := by
        rw [hown]
        exact List.mem_reverse.2 (List.mem_map_of_mem ht)
      obtain ⟨entry, hentry, hlabel⟩ := List.mem_map.1 hmem
      have hne := List.lookup_eq_none_iff.1 hlookup entry hentry
      rw [hlabel] at hne
      simp at hne
    · exact ⟨t, ht, rfl⟩

theorem within (h : site.Agrees a b)
    (hown : own.map Prod.fst = (tables.map Table.label).reverse) :
    (site.within tables).Agrees (own ++ a) (own ++ b) :=
  (h.beside tables).seeing hown

/-- Without a row of its tables, a statement finds their labels free. -/
theorem within_of_free (h : site.Agrees a b) (hfree : ∀ t ∈ tables, site.free t.label) :
    (site.within tables).Agrees a b := by
  rintro l (⟨t, ht, rfl⟩ | hl)
  · rcases List.mem_append.1 ht with ht | ht
    · exact h _ (.inr (hfree t ht))
    · exact h _ (.inl ⟨t, ht, rfl⟩)
  · exact h l (.inr hl.1)

end Site.Agrees

section

variable (engine : Engine) (db : Database) (x y : Arguments) (a b : Env)

/-- What a statement does with rows of its own in front of two scopes is the same. -/
structure Select.Unmoved (s : Select) (own : Env → Prop) : Prop where
  empty : own []
  rows : ∃ owns : List Env, (∀ o ∈ owns, own o) ∧
    joinedRows engine db x a s.joins (sourceRows engine db x a s.source) = owns.map (· ++ a) ∧
    joinedRows engine db y b s.joins (sourceRows engine db y b s.source) = owns.map (· ++ b)
  filter : ∀ o, own o → conditionHolds engine db x s.filter [o ++ a] (o ++ a) =
    conditionHolds engine db y s.filter [o ++ b] (o ++ b)
  groupBy : ∀ o, own o → listCells engine db x s.groupBy [o ++ a] (o ++ a) =
    listCells engine db y s.groupBy [o ++ b] (o ++ b)
  having : ∀ (os : List Env) o, (∀ o ∈ os, own o) → own o →
    conditionHolds engine db x s.having (os.map (· ++ a)) (o ++ a) =
      conditionHolds engine db y s.having (os.map (· ++ b)) (o ++ b)
  items : ∀ (os : List Env) o, (∀ o ∈ os, own o) → own o →
    itemRecord engine db x o s.items (os.map (· ++ a)) (o ++ a) =
      itemRecord engine db y o s.items (os.map (· ++ b)) (o ++ b)
  orderBy : ∀ (os : List Env) o, (∀ o ∈ os, own o) → own o →
    sortKeys engine db x s.orderBy (os.map (· ++ a)) (o ++ a) =
      sortKeys engine db y s.orderBy (os.map (· ++ b)) (o ++ b)
  limit : optionCell engine db x s.limit [a] a = optionCell engine db y s.limit [b] b
  offset : optionCell engine db x s.offset [a] a = optionCell engine db y s.offset [b] b

def before (a : Env) (g : List Env × Env) : List Env × Env := (g.1.map (· ++ a), g.2 ++ a)

variable {engine db x y a b} {s : Select} {own : Env → Prop}

namespace Select.Unmoved

theorem kept (h : s.Unmoved engine db x y a b own) : ∃ owns : List Env, (∀ o ∈ owns, own o) ∧
    s.kept engine db x a = owns.map (· ++ a) ∧ s.kept engine db y b = owns.map (· ++ b) := by
  obtain ⟨owns, hown, hx, hy⟩ := h.rows
  refine ⟨owns.filter fun o => conditionHolds engine db x s.filter [o ++ a] (o ++ a),
    fun o ho => hown o (List.mem_of_mem_filter ho), ?_, ?_⟩
  · rw [Select.kept, hx, List.filter_map]
    rfl
  · rw [Select.kept, hy, List.filter_map]
    refine congrArg _ (List.filter_congr fun o ho => ?_)
    exact (h.filter o (hown o ho)).symm

theorem having_filter (h : s.Unmoved engine db x y a b own) {gs : List (List Env × Env)}
    (hgs : ∀ g ∈ gs, (∀ o ∈ g.1, own o) ∧ own g.2) :
    ∃ gs' : List (List Env × Env), (∀ g ∈ gs', (∀ o ∈ g.1, own o) ∧ own g.2) ∧
      ((gs.map (before a)).filter fun g => conditionHolds engine db x s.having g.1 g.2) =
        gs'.map (before a) ∧
      ((gs.map (before b)).filter fun g => conditionHolds engine db y s.having g.1 g.2) =
        gs'.map (before b) := by
  refine ⟨gs.filter fun g => conditionHolds engine db x s.having (g.1.map (· ++ a)) (g.2 ++ a),
    fun g hg => hgs g (List.mem_of_mem_filter hg), ?_, ?_⟩
  · rw [List.filter_map]
    rfl
  · rw [List.filter_map]
    refine congrArg _ (List.filter_congr fun g hg => ?_)
    obtain ⟨hgroup, hrow⟩ := hgs g hg
    exact (h.having g.1 g.2 hgroup hrow).symm

theorem gathered (h : s.Unmoved engine db x y a b own) :
    ∃ gs : List (List Env × Env), (∀ g ∈ gs, (∀ o ∈ g.1, own o) ∧ own g.2) ∧
      s.gathered engine db x a = gs.map (before a) ∧
      s.gathered engine db y b = gs.map (before b) := by
  obtain ⟨owns, howns, hx, hy⟩ := h.kept
  rw [Select.gathered, Select.gathered, Select.candidates, Select.candidates, hx, hy]
  cases s.aggregatesAll with
  | true =>
    have hhead : ∀ c : Env, (owns.map (· ++ c), (owns.map (· ++ c)).headD c) =
        before c (owns, owns.headD []) := by
      intro c
      cases owns <;> rfl
    have hone : ∀ g ∈ [(owns, owns.headD [])], (∀ o ∈ g.1, own o) ∧ own g.2 := by
      refine List.forall_mem_singleton.2 ⟨howns, ?_⟩
      cases owns with
      | nil => exact h.empty
      | cons o owns => exact howns o List.mem_cons_self
    simp only [if_true, hhead]
    exact h.having_filter hone
  | false =>
    simp only [Bool.false_eq_true, if_false]
    cases s.hasGroups with
    | true =>
      have hkeys : ∀ o ∈ owns, listCells engine db x s.groupBy [o ++ a] (o ++ a) =
          listCells engine db y s.groupBy [o ++ b] (o ++ b) := fun o ho => h.groupBy o (howns o ho)
      simp only [if_true, Engine.groups_map]
      rw [Engine.groups_congr hkeys]
      refine h.having_filter fun g hg => ?_
      obtain ⟨hrow, hgroup⟩ := Engine.mem_of_groups hg
      exact ⟨fun o ho => howns o (hgroup o ho), howns g.2 hrow⟩
    | false =>
      have hsingle : ∀ c : Env, ((owns.map (· ++ c)).map fun row => ([row], row)) =
          (owns.map fun o => ([o], o)).map (before c) := by
        intro c
        rw [List.map_map, List.map_map]
        rfl
      simp only [Bool.false_eq_true, if_false, hsingle]
      refine h.having_filter fun g hg => ?_
      obtain ⟨o, ho, rfl⟩ := List.mem_map.1 hg
      exact ⟨List.forall_mem_singleton.2 (howns o ho), howns o ho⟩

theorem entry_eq (h : s.Unmoved engine db x y a b own) {g : List Env × Env}
    (hgroup : ∀ o ∈ g.1, own o) (hrow : own g.2) :
    s.entry engine db x a (before a g) = s.entry engine db y b (before b g) := by
  have hown : ∀ c : Env, (before c g).2.take ((before c g).2.length - c.length) = g.2 := by
    intro c
    rw [before, List.length_append, Nat.add_sub_cancel, List.take_left]
  rw [entry, entry, hown, hown]
  exact Prod.ext (h.items g.1 g.2 hgroup hrow) (h.orderBy g.1 g.2 hgroup hrow)

theorem records (h : s.Unmoved engine db x y a b own) :
    s.records engine db x a = s.records engine db y b := by
  obtain ⟨gs, hgs, hx, hy⟩ := h.gathered
  have hmade : (s.gathered engine db x a).map (s.entry engine db x a) =
      (s.gathered engine db y b).map (s.entry engine db y b) := by
    rw [hx, hy, List.map_map, List.map_map]
    refine List.map_congr_left fun g hg => ?_
    obtain ⟨hgroup, hrow⟩ := hgs g hg
    exact h.entry_eq hgroup hrow
  rw [Select.records_eq, Select.records_eq, Select.entries, Select.entries, hmade, Select.limited,
    Select.limited, Select.skipped, Select.skipped, h.limit, h.offset]

end Select.Unmoved

end

/-- A row with its partners in a join, among records that are given with what they have to satisfy. -/
def JoinKind.extend (kind : JoinKind) (label : String) (rs : List Record) (satisfies : Env → Bool)
    (row : Env) : List Env :=
  let partners := (rs.map fun r => (label, r) :: row).filter satisfies
  match kind with
  | .inner => partners
  | .left => if partners.isEmpty then [(label, []) :: row] else partners

theorem joinedRows_cons (engine : Engine) (db : Database) (arguments : Arguments) (outer : Env)
    (kind : JoinKind) (table : Table) (condition : Option SqlExpr) (rest : List Join)
    (rows : List Env) :
    joinedRows engine db arguments outer (⟨kind, table, condition⟩ :: rest) rows =
      joinedRows engine db arguments outer rest (rows.flatMap
        (kind.extend table.label (table.records engine db arguments outer) fun row =>
          conditionHolds engine db arguments condition [row] row)) := by
  cases kind <;> rfl

namespace JoinKind

variable (kind : JoinKind) (label : String) (rs : List Record) {satisfies satisfies' : Env → Bool}

theorem extend_append (satisfies : Env → Bool) (own a : Env) :
    kind.extend label rs satisfies (own ++ a) =
      (kind.extend label rs (fun o => satisfies (o ++ a)) own).map (· ++ a) := by
  have hpartners : (rs.map fun r => (label, r) :: (own ++ a)).filter satisfies =
      ((rs.map fun r => (label, r) :: own).filter fun o => satisfies (o ++ a)).map (· ++ a) := by
    rw [List.filter_map, List.filter_map, List.map_map]
    rfl
  cases kind with
  | inner => exact hpartners
  | left =>
    simp only [extend, hpartners, List.isEmpty_map]
    split <;> rfl

theorem extend_congr {own : Env} (h : ∀ r ∈ rs, satisfies ((label, r) :: own) =
    satisfies' ((label, r) :: own)) :
    kind.extend label rs satisfies own = kind.extend label rs satisfies' own := by
  have hpartners : (rs.map fun r => (label, r) :: own).filter satisfies =
      (rs.map fun r => (label, r) :: own).filter satisfies' := by
    refine List.filter_congr fun o ho => ?_
    obtain ⟨r, hr, rfl⟩ := List.mem_map.1 ho
    exact h r hr
  simp only [extend, hpartners]

theorem mem_extend {own o : Env} (h : o ∈ kind.extend label rs satisfies own) :
    ∃ r, o = (label, r) :: own ∧ (r ∈ rs ∨ kind = .left ∧ r = []) := by
  have hpartner : ∀ o ∈ (rs.map fun r => (label, r) :: own).filter satisfies,
      ∃ r, o = (label, r) :: own ∧ (r ∈ rs ∨ kind = .left ∧ r = []) := by
    intro o ho
    obtain ⟨r, hr, rfl⟩ := List.mem_map.1 (List.mem_of_mem_filter ho)
    exact ⟨r, rfl, .inl hr⟩
  cases kind with
  | inner => exact hpartner o h
  | left =>
    dsimp only [extend] at h
    split at h
    · exact ⟨[], List.mem_singleton.1 h, .inr ⟨rfl, rfl⟩⟩
    · exact hpartner o h

end JoinKind

section

variable {engine : Engine} {db : Database} {x y : Arguments} {catalog : Catalog}
  {holds : SqlExpr → Prop} {site : Site} {a b : Env}

theorem conditionHolds_of_optionCell {e : Option SqlExpr} {g g' : List Env} {r r' : Env}
    (h : optionCell engine db x e g r = optionCell engine db y e g' r') :
    conditionHolds engine db x e g r = conditionHolds engine db y e g' r' := by
  cases e with
  | none => rfl
  | some e => exact congrArg Cell.isTrue h

theorem agree_before {os : List Env} (h : ∀ o ∈ os, site.Agrees (o ++ a) (o ++ b)) :
    List.Forall₂ site.Agrees (os.map (· ++ a)) (os.map (· ++ b)) := by
  induction os with
  | nil => exact .nil
  | cons o os ih =>
    obtain ⟨ho, hos⟩ := List.forall_mem_cons.1 h
    exact .cons ho (ih hos)

theorem map_eq_of_forall₂ {α β γ : Type} {R : α → β → Prop} {f : α → γ} {g : β → γ}
    {xs : List α} {ys : List β} (h : List.Forall₂ R xs ys) (hfg : ∀ x y, R x y → f x = g y) :
    xs.map f = ys.map g := by
  induction h with
  | nil => rfl
  | cons hxy _ ih => rw [List.map_cons, List.map_cons, hfg _ _ hxy, ih]

def SameOwn (tables : List Table) (a b : Env) (rows rows' : List Env) : Prop :=
  ∃ owns : List Env, (∀ o ∈ owns, o.map Prod.fst = (tables.map Table.label).reverse) ∧
    rows = owns.map (· ++ a) ∧ rows' = owns.map (· ++ b)

theorem SameOwn.extend {tables : List Table} {rows rows' : List Env}
    (h : SameOwn tables a b rows rows') (kind : JoinKind) (table : Table) (rs : List Record)
    {f g : Env → Bool} (hfg : ∀ o : Env,
      o.map Prod.fst = ((tables ++ [table]).map Table.label).reverse → f (o ++ a) = g (o ++ b)) :
    SameOwn (tables ++ [table]) a b (rows.flatMap (kind.extend table.label rs f))
      (rows'.flatMap (kind.extend table.label rs g)) := by
  obtain ⟨owns, howns, rfl, rfl⟩ := h
  have hlabels : ∀ o ∈ owns, ∀ r, List.map Prod.fst ((table.label, r) :: o) =
      ((tables ++ [table]).map Table.label).reverse := by
    intro o ho r
    rw [List.map_cons, howns o ho, List.map_append, List.reverse_append]
    rfl
  refine ⟨owns.flatMap (kind.extend table.label rs fun o => f (o ++ a)), ?_, ?_, ?_⟩
  · intro o ho
    obtain ⟨own, hown, ho⟩ := List.mem_flatMap.1 ho
    obtain ⟨r, rfl, -⟩ := kind.mem_extend table.label rs ho
    exact hlabels own hown r
  · rw [List.flatMap_map, List.map_flatMap]
    exact List.flatMap_congr fun o _ => kind.extend_append table.label rs f o a
  · rw [List.flatMap_map, List.map_flatMap]
    refine List.flatMap_congr fun o ho => ?_
    rw [kind.extend_append, kind.extend_congr table.label rs fun r _ => ?_]
    exact (hfg _ (hlabels o ho r)).symm

mutual

/-- A scoped statement returns the same in scopes that agree. -/
theorem Select.Scoped.records_eq
    (hargs : ∀ source, holds (.param source) → x.resolve source = y.resolve source)
    {site : Site} {a b : Env} (hab : site.Agrees a b) :
    ∀ {s : Select}, s.Scoped catalog holds site →
      s.records engine db x a = s.records engine db y b
  | ⟨distinct, items, source, joins, filter, groupBy, having, orderBy, limit, offset, origin⟩,
    ⟨⟨_, hfree⟩, hsource, hjoins, hitems, hfilter, hgroups, hhaving, hkeys, hlimit, hoffset⟩ => by
    have hempty := hab.within_of_free hfree
    obtain ⟨owns, howns, hx, hy⟩ := joinsScoped_rows hargs (hab.beside _) hjoins
      (sourceScoped_rows hargs (hab.beside _) hsource)
    have h : Select.Unmoved engine db x y a b
        ⟨distinct, items, source, joins, filter, groupBy, having, orderBy, limit, offset, origin⟩
        fun o => (site.within (source.toList ++ joins.map Join.table)).Agrees (o ++ a) (o ++ b) :=
      { empty := hempty
        rows := ⟨owns, fun o ho => hab.within (howns o ho), hx, hy⟩
        filter := fun o ho => conditionHolds_of_optionCell
          (optionScoped_cell hargs (.cons ho .nil) ho hfilter)
        groupBy := fun o ho => listScoped_cells hargs (.cons ho .nil) ho hgroups
        having := fun os o hos ho => conditionHolds_of_optionCell
          (optionScoped_cell hargs (agree_before hos) ho hhaving)
        items := fun os o hos ho => itemsScoped_record hargs (agree_before hos) ho o hitems
        orderBy := fun os o hos ho => keysScoped_keys hargs (agree_before hos) ho hkeys
        limit := optionScoped_cell hargs (.cons hempty .nil) hempty hlimit
        offset := optionScoped_cell hargs (.cons hempty .nil) hempty hoffset }
    exact h.records

theorem Table.Scoped.records_eq
    (hargs : ∀ source, holds (.param source) → x.resolve source = y.resolve source)
    {site : Site} {a b : Env} (hab : site.Agrees a b) :
    ∀ {t : Table}, t.Scoped catalog holds site →
      t.records engine db x a = t.records engine db y b
  | .table .., _ => rfl
  | .subquery .., h => Select.Scoped.records_eq hargs hab h

theorem sourceScoped_rows
    (hargs : ∀ source, holds (.param source) → x.resolve source = y.resolve source)
    {site : Site} {a b : Env} (hab : site.Agrees a b) :
    ∀ {source : Option Table}, sourceScoped catalog holds site source →
      SameOwn source.toList a b (sourceRows engine db x a source) (sourceRows engine db y b source)
  | none, _ => ⟨[[]], List.forall_mem_singleton.2 rfl, rfl, rfl⟩
  | some table, h => by
    refine ⟨(table.records engine db x a).map fun r => [(table.label, r)], ?_, ?_, ?_⟩
    · intro o ho
      obtain ⟨r, -, rfl⟩ := List.mem_map.1 ho
      rfl
    · rw [sourceRows, List.map_map]
      rfl
    · rw [sourceRows, ← Table.Scoped.records_eq hargs hab h, List.map_map]
      rfl

theorem joinsScoped_rows
    (hargs : ∀ source, holds (.param source) → x.resolve source = y.resolve source)
    {site : Site} {a b : Env} (hab : site.Agrees a b) :
    ∀ {joins : List Join} {before : List Table} {rows rows' : List Env},
      joinsScoped catalog holds site before joins → SameOwn before a b rows rows' →
        SameOwn (before ++ joins.map Join.table) a b (joinedRows engine db x a joins rows)
          (joinedRows engine db y b joins rows')
  | [], before, _, _, _, h => by
    rw [List.map_nil, List.append_nil]
    exact h
  | ⟨kind, table, condition⟩ :: rest, before, _, _, ⟨htable, hcondition, hrest⟩, h => by
    rw [joinedRows_cons, joinedRows_cons, ← Table.Scoped.records_eq hargs hab htable]
    have hstep := h.extend (f := fun row => conditionHolds engine db x condition [row] row)
      (g := fun row => conditionHolds engine db y condition [row] row) kind table
      (table.records engine db x a) fun o ho => conditionHolds_of_optionCell
        (optionScoped_cell hargs (.cons (hab.seeing ho) .nil) (hab.seeing ho) hcondition)
    have hjoined := joinsScoped_rows hargs hab hrest hstep
    rwa [List.append_assoc] at hjoined

theorem itemsScoped_record
    (hargs : ∀ source, holds (.param source) → x.resolve source = y.resolve source)
    {site : Site} {g g' : List Env} {r r' : Env} (hg : List.Forall₂ site.Agrees g g')
    (hr : site.Agrees r r') (own : Env) :
    ∀ {items : List SelectItem}, itemsScoped catalog holds site items →
      itemRecord engine db x own items g r = itemRecord engine db y own items g' r'
  | [], _ => rfl
  | .wildcard :: _, h => nomatch h
  | [.expr e label], ⟨he, _⟩ => by
    rw [itemRecord, itemRecord, itemCells, itemCells, SqlExpr.Scoped.cell_eq hargs hg hr he]
  | .expr e label :: item :: rest, ⟨he, hrest⟩ => by
    have hcell := SqlExpr.Scoped.cell_eq hargs hg hr he
    have hrecord := itemsScoped_record hargs hg hr own hrest
    show (SelectItem.columnName e label, e.cell engine db x g r) ::
        itemRecord engine db x own (item :: rest) g r =
      (SelectItem.columnName e label, e.cell engine db y g' r') ::
        itemRecord engine db y own (item :: rest) g' r'
    rw [hcell, hrecord]

theorem keysScoped_keys
    (hargs : ∀ source, holds (.param source) → x.resolve source = y.resolve source)
    {site : Site} {g g' : List Env} {r r' : Env} (hg : List.Forall₂ site.Agrees g g')
    (hr : site.Agrees r r') :
    ∀ {keys : List SortKey}, keysScoped catalog holds site keys →
      sortKeys engine db x keys g r = sortKeys engine db y keys g' r'
  | [], _ => rfl
  | ⟨e, ascending⟩ :: rest, ⟨he, hrest⟩ => by
    rw [sortKeys, sortKeys, SqlExpr.Scoped.cell_eq hargs hg hr he,
      keysScoped_keys hargs hg hr hrest]

theorem optionScoped_cell
    (hargs : ∀ source, holds (.param source) → x.resolve source = y.resolve source)
    {site : Site} {g g' : List Env} {r r' : Env} (hg : List.Forall₂ site.Agrees g g')
    (hr : site.Agrees r r') :
    ∀ {e : Option SqlExpr}, optionScoped catalog holds site e →
      optionCell engine db x e g r = optionCell engine db y e g' r'
  | none, _ => rfl
  | some _, h => SqlExpr.Scoped.cell_eq hargs hg hr h

theorem listScoped_cells
    (hargs : ∀ source, holds (.param source) → x.resolve source = y.resolve source)
    {site : Site} {g g' : List Env} {r r' : Env} (hg : List.Forall₂ site.Agrees g g')
    (hr : site.Agrees r r') :
    ∀ {es : List SqlExpr}, listScoped catalog holds site es →
      listCells engine db x es g r = listCells engine db y es g' r'
  | [], _ => rfl
  | e :: rest, ⟨he, hrest⟩ => by
    rw [listCells, listCells, SqlExpr.Scoped.cell_eq hargs hg hr he,
      listScoped_cells hargs hg hr hrest]

theorem armsScoped_cell
    (hargs : ∀ source, holds (.param source) → x.resolve source = y.resolve source)
    {site : Site} {g g' : List Env} {r r' : Env} (hg : List.Forall₂ site.Agrees g g')
    (hr : site.Agrees r r') :
    ∀ {arms : List (SqlExpr × SqlExpr)}, armsScoped catalog holds site arms →
      armsCell engine db x arms g r = armsCell engine db y arms g' r'
  | [], _ => rfl
  | (test, value) :: rest, ⟨htest, hvalue, hrest⟩ => by
    rw [armsCell, armsCell, SqlExpr.Scoped.cell_eq hargs hg hr htest,
      SqlExpr.Scoped.cell_eq hargs hg hr hvalue, armsScoped_cell hargs hg hr hrest]

/-- A scoped expression has one value in scopes that agree. -/
theorem SqlExpr.Scoped.cell_eq
    (hargs : ∀ source, holds (.param source) → x.resolve source = y.resolve source)
    {site : Site} {g g' : List Env} {r r' : Env} (hg : List.Forall₂ site.Agrees g g')
    (hr : site.Agrees r r') :
    ∀ {e : SqlExpr}, e.Scoped catalog holds site →
      e.cell engine db x g r = e.cell engine db y g' r'
  | .column table name, ⟨_, t, ht, hlabel, _⟩ => by
    rw [hlabel, SqlExpr.cell, SqlExpr.cell, Env.cell, Env.cell, hr t.label (.inl ⟨t, ht, rfl⟩)]
  | .literal _, _ => rfl
  | .param source, h => by
    rw [SqlExpr.cell, SqlExpr.cell, hargs source h]
  | .binary op left right, ⟨_, hl, hright⟩ => by
    rw [SqlExpr.cell, SqlExpr.cell, SqlExpr.Scoped.cell_eq hargs hg hr hl,
      SqlExpr.Scoped.cell_eq hargs hg hr hright]
  | .unary op operand, ⟨_, ho⟩ => by
    cases op <;> rw [SqlExpr.cell, SqlExpr.cell, SqlExpr.Scoped.cell_eq hargs hg hr ho]
  | .isNull operand negated, ⟨_, ho⟩ => by
    rw [SqlExpr.cell, SqlExpr.cell, SqlExpr.Scoped.cell_eq hargs hg hr ho]
  | .nested operand, ⟨_, ho⟩ => by
    rw [SqlExpr.cell, SqlExpr.cell, SqlExpr.Scoped.cell_eq hargs hg hr ho]
  | .function name args, ⟨_, ha⟩ => by
    rw [SqlExpr.cell, SqlExpr.cell, listScoped_cells hargs hg hr ha]
  | .aggregate name args distinct, ⟨_, ha⟩ => by
    have hcells : (g.map fun row => (listCells engine db x args [row] row).headD .null) =
        g'.map fun row => (listCells engine db y args [row] row).headD .null := by
      refine map_eq_of_forall₂ hg fun row row' hrow => ?_
      rcases ha with rfl | ha
      · rfl
      · rw [listScoped_cells hargs (.cons hrow .nil) hrow ha]
    rw [SqlExpr.cell, SqlExpr.cell, hcells]
  | .cases arms otherwise, ⟨_, ha, ho⟩ => by
    rw [SqlExpr.cell, SqlExpr.cell, armsScoped_cell hargs hg hr ha,
      optionScoped_cell hargs hg hr ho]
  | .subquery query, ⟨_, hq⟩ => by
    rw [SqlExpr.cell, SqlExpr.cell, Select.Scoped.records_eq hargs hr hq]
  | .exist query negated, ⟨_, hq⟩ => by
    rw [SqlExpr.cell, SqlExpr.cell, Select.Scoped.records_eq hargs hr hq]
  | .isIn operand query negated, ⟨_, ho, hq⟩ => by
    rw [SqlExpr.cell, SqlExpr.cell, SqlExpr.Scoped.cell_eq hargs hg hr ho,
      Select.Scoped.records_eq hargs hr hq]

end

end

end SequenceQuery
