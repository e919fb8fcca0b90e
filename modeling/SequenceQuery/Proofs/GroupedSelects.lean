import SequenceQuery.Proofs.FormConstruction

namespace SequenceQuery

def SqlExpr.isAggregate : SqlExpr → Bool
  | .aggregate .. => true
  | _ => false

namespace Standard

def keyed (keys : List SqlExpr) : Standard :=
  ⟨fun place l => l ∈ place.tables, fun e => e.isAggregate = true ∨ e ∈ keys, fun _ _ => True⟩

def grouping (own : List String) (keys : List SqlExpr) : Standard :=
  ⟨fun place l => l ∈ own → l ∈ place.tables, fun e => e.isAggregate = true ∨ e ∈ keys,
    fun _ _ => True⟩

variable {keys more : List SqlExpr}

theorem spares_keyed : (keyed keys).Spares := fun _ _ _ => .inl rfl

theorem isUpheld_keyed {env : Surroundings} {ns : List Expr} :
    (keyed keys).IsUpheld env ns fun _ _ => True where
  monotone := ⟨fun hab hl => hab.1 hl, fun _ _ => trivial⟩
  enter _ _ _ := trivial
  column := id
  statement _ _ _ := trivial

end Standard

/-- Computed of the groups of a statement: columns of its own tables stand in aggregates or keys. -/
def SqlExpr.OfGroups (s : Select) (e : SqlExpr) : Prop :=
  e.Meets (.grouping s.labels s.groupBy) .outermost

theorem Select.hasGroups_eq_false {s : Select} : s.hasGroups = false ↔ s.groupBy = [] := by
  rw [hasGroups, Bool.not_eq_false', List.isEmpty_iff]

section Keyed

variable {place : Place} {keys more : List SqlExpr} {e : SqlExpr}

theorem SqlExpr.Meets.keyed_mono (h : e.Meets (.keyed keys) place) (hmore : keys ⊆ more) :
    e.Meets (.keyed more) place := by
  refine Standard.Meets.weaken h ?_ ?_ ?_
  · exact id
  · exact Or.imp_right fun he => hmore he
  · exact id

theorem SqlExpr.Meets.keyed_of_seen (h : e.Meets .seen place) : e.Meets (.keyed keys) place := by
  refine Standard.Meets.weaken h ?_ ?_ ?_
  · exact id
  · exact False.elim
  · exact id

theorem SqlExpr.Meets.ofGroups {s : Select} (h : e.Meets (.keyed s.groupBy) place)
    (hfresh : ∀ l ∈ s.labels, l ∉ place.tables) : e.OfGroups s := by
  refine Standard.Meets.imp (R := fun a b => ∀ l ∈ a.tables, l ∈ s.labels → l ∈ b.tables)
    ?_ ?_ ?_ ?_ h fun l hl hown => absurd hl (hfresh l hown)
  · intro a b hab labels grouped l hl hown
    exact List.mem_append.2 ((List.mem_append.1 hl).imp_right fun hl => hab l hl hown)
  · exact fun hab hl hown => hab _ hl hown
  · exact fun _ => id
  · exact fun _ => id

theorem Binding.Meets.keyed_of_seen {b : Binding} (h : b.Meets .seen place) :
    b.Meets (.keyed keys) place :=
  h.imp (fun _ => Standard.spares_keyed) fun he => he.keyed_of_seen

end Keyed

namespace Binding

inductive Shows : Binding → Binding → Prop
  | self (key element : Binding) : Shows (.group key element) key
  | field {fields : List (String × Binding)} {f : String × Binding} {key : Binding} (hf : f ∈ fields)
    (h : Shows f.2 key) : Shows (.object fields) key
  | key {outer element key : Binding} (h : Shows outer key) : Shows (.group outer element) key

variable {b key : Binding} {grouped : Nat → Prop} {value : Nat → SqlExpr → Prop}

theorem Shows.all (h : b.Shows key) (hb : b.All grouped value) :
    grouped 0 ∧ key.All grouped value := by
  induction h with
  | self =>
    cases hb with
    | group hgrouped hkey _ => exact ⟨hgrouped, hkey⟩
  | field hf _ ih =>
    cases hb with
    | object hfields => exact ih (hfields _ hf)
  | key _ ih =>
    cases hb with
    | group _ hkey _ => exact ih hkey

theorem not_shows_of_leaves? {path : String} {ls : List Leaf} (h : b.leaves? path = some ls) :
    ¬ b.Shows key := fun hshows =>
  have hall : b.All (fun _ => False) fun _ _ => True := all_of_leaves? h fun _ _ => trivial
  (hshows.all hall).1

theorem not_shows_readFrom {label path : String} {ls : List Leaf} (h : b.leaves? path = some ls) :
    ¬ (b.readFrom label path).Shows key := fun hshows =>
  have hall : (b.readFrom label path).All (fun _ => False) fun _ _ => True :=
    all_readFrom (fun _ => trivial) h
  (hshows.all hall).1

theorem exists_of_mem_fieldsAsOptional {f : String × Binding} :
    ∀ {fields : List (String × Binding)}, f ∈ fieldsAsOptional fields →
      ∃ g ∈ fields, f.2 = g.2.asOptional
  | (_, _) :: _, h => by
    rcases List.mem_cons.1 h with rfl | h
    · exact ⟨_, List.mem_cons_self, rfl⟩
    · obtain ⟨g, hg, heq⟩ := exists_of_mem_fieldsAsOptional h
      exact ⟨g, List.mem_cons_of_mem _ hg, heq⟩

theorem Shows.of_asOptional (h : b.asOptional.Shows key) : b.Shows key := by
  generalize hc : b.asOptional = c at h
  induction h generalizing b with
  | self =>
    cases b <;> cases hc
    exact .self _ _
  | field hf _ ih =>
    cases b <;> cases hc
    obtain ⟨g, hg, heq⟩ := exists_of_mem_fieldsAsOptional hf
    exact .field hg (ih heq.symm)
  | key h _ =>
    cases b <;> cases hc
    exact .key h

end Binding

def Binding.IsOf (keys : List SqlExpr) (key : Binding) : Prop :=
  key.All (fun _ => True) fun depth e => depth = 0 → e ∈ keys

theorem Binding.IsOf.mono {key : Binding} {keys more : List SqlExpr} (h : key.IsOf keys)
    (hmore : keys ⊆ more) : key.IsOf more :=
  h.imp (fun _ => id) fun _ _ he hdepth => hmore (he hdepth)

theorem Binding.IsOf.keyed {key : Binding} {keys : List SqlExpr} {place : Place}
    (h : key.IsOf keys) : key.Meets (.keyed keys) place := by
  refine h.imp (fun _ => id) fun n e he => ?_
  cases n with
  | zero => exact .exempt (.inr (he rfl))
  | succ n => exact .inl Standard.spares_keyed

section

variable (env : Surroundings) (ns : List Expr)

/-- A sort key of rows that a GroupBy in the query puts into groups, though it is not computed of
the groups. -/
def SortsUngrouped (k : SortKey) : Prop :=
  ∃ place ctx rows, Reached env ns place ctx ∧ CallMakes env ns .groupBy ctx rows ∧
    k ∈ rows.select.orderBy ∧ ¬ k.expr.OfGroups rows.select

structure Rows.Grouped (place : Place) (rows : Rows) : Prop where
  having : ∀ e ∈ rows.select.having, e.Meets (.keyed rows.select.groupBy) place
  row : rows.select.hasGroups = true → rows.row.Meets (.keyed rows.select.groupBy) place
  orderBy : rows.select.hasGroups = true → ∀ k ∈ rows.select.orderBy,
    k.expr.OfGroups rows.select ∨ SortsUngrouped env ns k

end

variable {env : Surroundings} {ns : List Expr} {place : Place} {ctx : List Binding} {x : Product}

namespace Made

/-- Where there is a group to read, it has been at hand. -/
theorem shows (hmade : Made env ns place ctx x) {key : Binding} : ∀ {b}, x = .binding b →
    b.Shows key → ∃ c ∈ ctx, c.Shows key := by
  induction hmade with
  | bound hb =>
    rintro _ ⟨⟩ hshows
    exact ⟨_, hb, hshows⟩
  | scalar => rintro _ ⟨⟩ ⟨⟩
  | object _ ih =>
    rintro _ ⟨⟩ hshows
    cases hshows with
    | field hf hshows => exact ih _ hf rfl hshows
  | field _ hf ih =>
    rintro _ ⟨⟩ hshows
    exact ih rfl (.field hf hshows)
  | key _ ih =>
    rintro _ ⟨⟩ hshows
    exact ih rfl (.key hshows)
  | _ => rintro _ ⟨⟩

theorem labels_fresh (hmade : Made env ns place ctx x) : ∀ {rows}, x = .rows rows →
    ∀ l ∈ rows.select.labels, l ∉ place.tables := by
  induction hmade with
  | table hlabel | wrap _ _ hlabel =>
    rintro _ ⟨⟩
    exact List.forall_mem_singleton.2 hlabel
  | withOrigin _ _ ih | withLimit _ _ ih _ | withOffset _ _ ih _ | unordered _ ih
  | filterBy _ _ _ ih _ | havingBy _ _ _ ih _ | withRow _ _ _ ih _ | orderedBy _ _ _ _ ih _
  | asDistinct _ _ ih | groupedBy _ _ _ _ _ _ ih _ _ =>
    rintro _ ⟨⟩
    have h := ih rfl
    exact h
  | joined _ _ _ _ htables _ _ _ _ ihouter ihinner _ _ =>
    rintro _ ⟨⟩
    rw [Select.labels_joined]
    refine List.forall_mem_append.2 ⟨ihouter rfl, List.forall_mem_singleton.2 ?_⟩
    exact ihinner rfl _ (by rw [Select.labels, htables]; exact List.mem_cons_self)
  | _ => rintro _ ⟨⟩

/-- Groups are grouped by all that their keys are made of, except those of statements around. -/
theorem keys_grouped (hmade : Made env ns place ctx x) {key : Binding} : ∀ {rows}, x = .rows rows →
    rows.row.Shows key →
      key.IsOf rows.select.groupBy ∨ ∃ c ∈ ctx, c.Shows key := by
  induction hmade with
  | table => rintro _ ⟨⟩ ⟨⟩
  | wrap _ hls =>
    rintro _ ⟨⟩ hshows
    exact absurd hshows (Binding.not_shows_readFrom hls)
  | withOrigin _ _ ih | withLimit _ _ ih _ | withOffset _ _ ih _ | unordered _ ih
  | filterBy _ _ _ ih _ | havingBy _ _ _ ih _ | orderedBy _ _ _ _ ih _ | asDistinct _ _ ih =>
    rintro _ ⟨⟩ hshows
    have h := ih rfl hshows
    exact h
  | withRow _ _ hrow ih _ =>
    rintro _ ⟨⟩ hshows
    obtain ⟨c, hc, hshows⟩ := hrow.shows rfl hshows
    rcases List.mem_cons.1 hc with rfl | hc
    · have h := ih rfl hshows
      exact h
    · exact .inr ⟨c, hc, hshows⟩
  | groupedBy _ _ _ _ hls =>
    rintro _ ⟨⟩ hshows
    cases hshows with
    | self => exact .inl (Binding.all_of_leaves? hls fun l hl _ => List.mem_map_of_mem hl)
    | key hshows => exact absurd hshows (Binding.not_shows_of_leaves? hls)
  | joined _ _ hungrouped _ _ hinnerGroups hinnerRow _ hrow ihouter ihinner _ _ =>
    rintro _ ⟨⟩ hshows
    -- neither side is grouped, so the keys that they show are made of nothing
    have side : ∀ {rows : Rows} {keys : List SqlExpr} {around : Prop},
        rows.select.hasGroups = false →
        key.IsOf rows.select.groupBy ∨ around →
          key.IsOf keys ∨ around := by
      intro rows keys around hgroups h
      rw [Select.hasGroups_eq_false.1 hgroups] at h
      exact h.imp_left fun hkey => hkey.mono (List.nil_subset _)
    obtain ⟨c, hc, hshows⟩ := hrow.shows rfl hshows
    rcases List.mem_cons.1 hc with rfl | hc
    · refine side hinnerGroups (ihinner rfl ?_)
      rcases hinnerRow with rfl | rfl
      · exact hshows
      · exact hshows.of_asOptional
    rcases List.mem_cons.1 hc with rfl | hc
    · exact side hinnerGroups (ihinner rfl hshows)
    rcases List.mem_cons.1 hc with rfl | hc
    · exact side hungrouped (ihouter rfl hshows)
    · exact .inr ⟨c, hc, hshows⟩
  | _ => rintro _ ⟨⟩

theorem keyed_of_isGroup {rows : Rows} (hmade : Made env ns place ctx (.rows rows))
    (hreached : Reached env ns place ctx) (hgroup : rows.row.isGroup = true) :
    rows.row.Meets (.keyed rows.select.groupBy) place := by
  obtain ⟨select, row⟩ := rows
  cases row with
  | group key element =>
    refine Binding.meets_group Standard.spares_keyed ?_ element
    rcases hmade.keys_grouped rfl (.self key element) with hkey | ⟨c, hc, hshows⟩
    · exact hkey.keyed
    · obtain ⟨-, hkey⟩ := hshows.all (hreached.seen c hc)
      exact Binding.Meets.keyed_of_seen hkey
  | _ => cases hgroup

theorem keyed {rows : Rows} {y : Product} (hrows : Made env ns place ctx (.rows rows))
    (hmade : Made env ns (place.inside rows.select) (rows.row :: ctx) y)
    (hreached : Reached env ns place ctx) {keys : List SqlExpr}
    (hrow : rows.row.Meets (.keyed keys) place) : y.Meets (.keyed keys) place :=
  hmade.meets Standard.isUpheld_keyed ⟨trivial, .inside hreached hrows,
    List.forall_mem_cons.2 ⟨hrow, fun b hb => (hreached.seen b hb).keyed_of_seen⟩⟩

theorem grouped (hmade : Made env ns place ctx x) : ∀ {rows}, x = .rows rows →
    Reached env ns place ctx → rows.Grouped env ns place := by
  induction hmade with
  | table | wrap =>
    rintro _ ⟨⟩ _
    exact ⟨nofun, nofun, nofun⟩
  | withOrigin _ _ ih | withLimit _ _ ih _ | withOffset _ _ ih _ | filterBy _ _ _ ih _
  | asDistinct _ _ ih =>
    rintro _ ⟨⟩ hreached
    have h := ih rfl hreached
    exact ⟨h.having, h.row, h.orderBy⟩
  | unordered _ ih =>
    rintro _ ⟨⟩ hreached
    have h := ih rfl hreached
    exact ⟨h.having, h.row, fun _ => nofun⟩
  | havingBy hrows hgroup he ih _ =>
    rintro _ ⟨⟩ hreached
    have h := ih rfl hreached
    have he := hrows.keyed he hreached (hrows.keyed_of_isGroup hreached hgroup)
    refine ⟨?_, h.row, h.orderBy⟩
    rintro _ ⟨⟩
    exact Select.forall_conjoin (P := fun e => e.Meets _ _) (fun _ _ ha hb => ha.and hb) h.having he
  | withRow hrows _ hrow ih _ =>
    rintro _ ⟨⟩ hreached
    have h := ih rfl hreached
    exact ⟨h.having, fun hgroups => hrows.keyed hrow hreached (h.row hgroups), h.orderBy⟩
  | orderedBy hrows _ hbefore hkeys ih _ =>
    rintro _ ⟨⟩ hreached
    have h := ih rfl hreached
    have hfresh := hrows.labels_fresh rfl
    refine ⟨h.having, h.row, fun hgroups => List.forall_mem_append.2 ⟨fun k hk => ?_, fun k hk => ?_⟩⟩
    · exact h.orderBy hgroups k (hbefore hk)
    · have hkey := hrows.keyed (hkeys k hk) hreached (h.row hgroups)
      exact .inl (SqlExpr.Meets.ofGroups hkey hfresh)
  | groupedBy _ hgroups _ _ hls hcall ih _ _ =>
    rintro _ ⟨⟩ hreached
    have h := ih rfl hreached
    refine ⟨fun e he => ?_, fun _ => ?_, fun _ k hk => ?_⟩
    · have hbefore := h.having e he
      rw [Select.hasGroups_eq_false.1 hgroups] at hbefore
      exact hbefore.keyed_mono (List.nil_subset _)
    · refine Binding.meets_group Standard.spares_keyed ?_ _
      exact Binding.all_of_leaves? hls fun l hl => .exempt (.inr (List.mem_map_of_mem hl))
    · exact or_iff_not_imp_left.2 fun hungrouped => ⟨_, _, _, hreached, hcall, hk, hungrouped⟩
  | joined _ _ hungrouped _ _ _ _ _ _ ihouter _ _ _ =>
    rintro _ ⟨⟩ hreached
    have h := ihouter rfl hreached
    exact ⟨h.having, fun hgroups => absurd hgroups (Bool.eq_false_iff.1 hungrouped),
      fun hgroups => absurd hgroups (Bool.eq_false_iff.1 hungrouped)⟩
  | _ => rintro _ ⟨⟩

theorem reads_groups (hmade : Made env ns place ctx x) {s : Select} (hs : x = .statement s)
    (hreached : Reached env ns place ctx) (hgroups : s.hasGroups = true) :
    (∀ e ∈ s.selected, e.OfGroups s) ∧ (∀ e ∈ s.having, e.OfGroups s) ∧
      ∀ k ∈ s.orderBy, k.expr.OfGroups s ∨ SortsUngrouped env ns k := by
  cases hmade with
  | project hrows hitems _ =>
    cases hs
    have h := hrows.grouped rfl hreached
    have hfresh := hrows.labels_fresh rfl
    refine ⟨fun e he => ?_, fun e he => SqlExpr.Meets.ofGroups (h.having e he) hfresh,
      h.orderBy hgroups⟩
    exact SqlExpr.Meets.ofGroups (hrows.keyed (hitems e he) hreached (h.row hgroups)) hfresh
  | count _ hungrouped _ | total _ hungrouped _ _ _ =>
    cases hs
    exact absurd hgroups (Bool.eq_false_iff.1 hungrouped)
  | item =>
    cases hs
    cases hgroups
  | _ => cases hs

end Made

namespace Form

variable {catalog : Catalog} {dialect : Dialect} {e : Expr} {f : Form}

/-- Every statement in a form that has groups selects what is computed of them, restricts them by
what is computed of them and is ordered by it, unless the rows were ordered by something else when
GroupBy was asked of them. -/
theorem reads_groups_of_hasGroups (h : ofExpr catalog dialect e = .ok f) :
    f.select.Meets (.each fun _ s => s.hasGroups = true →
      (∀ e ∈ s.selected, e.OfGroups s) ∧ (∀ e ∈ s.having, e.OfGroups s) ∧
        ∀ k ∈ s.orderBy, k.expr.OfGroups s ∨
          SortsUngrouped (.ofExpr catalog dialect e) e.nodes k) .outermost :=
  meets_each h fun _ hreached hmade hgroups => hmade.reads_groups rfl hreached hgroups

/-- `Person.GroupBy(p => p.City)`. -/
def byCity (people : Expr) : Expr :=
  .call 1 .groupBy [people, .lambda 2 ["p"] (.member 3 (.param 4 "p") "City")]

def countOfGroup : Expr := .lambda 5 ["g"] (.call 6 .count [.param 7 "g"])

/-- `Person.GroupBy(p => p.City).Where(g => g.Count() > 1).OrderBy(g => g.Max(p => p.Age))` with the
count of each group. -/
def sharedCities : Expr :=
  .call 0 .project [.call 8 .orderBy [.call 9 .filter [byCity (.entity 10 "Person"),
    .lambda 11 ["g"] (.binary 12 .greaterThan (.call 13 .count [.param 14 "g"])
      (.const 15 (.int 1)))],
    .lambda 16 ["g"] (.call 17 .max [.param 18 "g",
      .lambda 19 ["p"] (.member 20 (.param 21 "p") "Age")])], countOfGroup]

theorem reads_groups_sharedCities : ∃ f, ofExpr residents (Postgres.dialect false) sharedCities =
    .ok f ∧ f.select.hasGroups = true ∧ f.select.having.isSome = true ∧ f.select.orderBy ≠ [] ∧
      f.select.Meets (.each fun _ s => s.hasGroups = true →
        (∀ e ∈ s.selected, e.OfGroups s) ∧ (∀ e ∈ s.having, e.OfGroups s) ∧
          ∀ k ∈ s.orderBy, k.expr.OfGroups s ∨
            SortsUngrouped (.ofExpr residents (Postgres.dialect false) sharedCities)
              sharedCities.nodes k) .outermost := by
  obtain ⟨f, hf, hgroups, hhaving, horder⟩ : ∃ f, ofExpr residents (Postgres.dialect false)
      sharedCities = .ok f ∧ f.select.hasGroups = true ∧ f.select.having.isSome = true ∧
        f.select.orderBy = [⟨.aggregateOf "MAX" [.columnOf "t0" "age"], true⟩] :=
    ⟨_, rfl, rfl, rfl, rfl⟩
  exact ⟨f, hf, hgroups, hhaving, horder ▸ List.cons_ne_nil _ _, reads_groups_of_hasGroups hf⟩

/-- `Person.OrderBy(p => p.Name).GroupBy(p => p.City).Select(g => g.Count())`. -/
def namesByCity : Expr :=
  .call 0 .project [byCity (.call 8 .orderBy [.entity 9 "Person",
    .lambda 10 ["p"] (.member 11 (.param 12 "p") "Name")]), countOfGroup]

/-- `SELECT COUNT(*) AS value FROM people AS t0 GROUP BY t0.city ORDER BY t0.name`. -/
theorem not_reads_groups_namesByCity : ∃ f, ofExpr residents (Postgres.dialect false)
    namesByCity = .ok f ∧
      ¬ f.select.Meets (.each fun _ s => s.hasGroups = true →
        ∀ e ∈ s.resultExprs, e.OfGroups s) .outermost := by
  obtain ⟨f, hf, hgroups, hlabels, hkeys, horder⟩ : ∃ f, ofExpr residents (Postgres.dialect false)
      namesByCity = .ok f ∧ f.select.hasGroups = true ∧ f.select.labels = ["t0"] ∧
        f.select.groupBy = [.columnOf "t0" "city"] ∧
        f.select.orderBy = [⟨.columnOf "t0" "name", true⟩] := ⟨_, rfl, rfl, rfl, rfl, rfl⟩
  refine ⟨f, hf, fun h => ?_⟩
  cases h with
  | select hresults =>
    have hname : (SqlExpr.columnOf "t0" "name").OfGroups f.select := by
      obtain ⟨-, -, hsorted⟩ := Select.forall_resultExprs.1 (hresults hgroups)
      exact hsorted ⟨.columnOf "t0" "name", true⟩ (horder ▸ List.mem_cons_self)
    rw [SqlExpr.OfGroups, hlabels, hkeys] at hname
    cases hname with
    | exempt hexempt =>
      rcases hexempt with hexempt | hexempt
      · cases hexempt
      · exact absurd (SqlExpr.column.inj (List.mem_singleton.1 hexempt)).2 (by decide)
    | expr hcolumn _ _ =>
      obtain ⟨l, hl, hown⟩ := hcolumn (some "t0") "name" rfl
      cases hl
      exact absurd (hown List.mem_cons_self) List.not_mem_nil

end Form

end SequenceQuery
