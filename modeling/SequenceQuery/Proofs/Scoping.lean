import SequenceQuery.Catalog
import SequenceQuery.Select.Basic
import Mathlib.Order.Basic

namespace SequenceQuery

def SelectItem.name? : SelectItem → Option String
  | .expr _ (some label) => some label
  | .expr (.column _ name) none => some name
  | _ => none

namespace Select

def outputNames (s : Select) : List String := s.items.filterMap SelectItem.name?

def tables (s : Select) : List Table := s.source.toList ++ s.joins.map Join.table

end Select

/-- The table has a column of that name: one of the catalog, or an output of a derived table. -/
def Table.Offers (catalog : Catalog) : Table → String → Prop
  | .table schema name _, column => ∃ e ∈ catalog.entities, e.schema = schema ∧ e.table = name ∧
    ∃ p ∈ e.properties, p.column = column
  | .subquery query _, column => column ∈ query.outputNames

/-- What is seen where a part of a statement stands, and the labels that are not taken there. -/
structure Site where
  visible : List Table
  free : String → Prop

namespace Site

def outermost : Site := ⟨[], fun _ => True⟩

/-- Beside tables, which take their labels but are not seen. -/
def beside (site : Site) (tables : List Table) : Site :=
  ⟨site.visible, fun l => site.free l ∧ l ∉ tables.map Table.label⟩

def seeing (site : Site) (tables : List Table) : Site := ⟨tables ++ site.visible, site.free⟩

def within (site : Site) (tables : List Table) : Site := (site.beside tables).seeing tables

instance : LE Site := ⟨fun a b => a.visible ⊆ b.visible ∧ a.free ≤ b.free⟩

instance : Preorder Site where
  le_refl _ := ⟨List.Subset.refl _, le_rfl⟩
  le_trans _ _ _ h h' := ⟨List.Subset.trans h.1 h'.1, h.2.trans h'.2⟩

variable {a b : Site} (tables : List Table)

theorem beside_mono (h : a ≤ b) : a.beside tables ≤ b.beside tables :=
  ⟨h.1, fun l hl => ⟨h.2 l hl.1, hl.2⟩⟩

theorem seeing_mono (h : a ≤ b) : a.seeing tables ≤ b.seeing tables :=
  ⟨List.append_subset.2 ⟨List.subset_append_left _ _, List.subset_append_of_subset_right _ h.1⟩,
    h.2⟩

theorem within_mono (h : a ≤ b) : a.within tables ≤ b.within tables :=
  seeing_mono tables (beside_mono tables h)

end Site

section

variable (catalog : Catalog) (holds : SqlExpr → Prop)

mutual

/-- A statement is scoped when its tables have different labels, all of them free, when each column
belongs to a table that is seen where the column stands, and when `holds` is true of every
expression in it. -/
def Select.Scoped (site : Site) : Select → Prop
  | ⟨_, items, source, joins, filter, groupBy, having, orderBy, limit, offset, _⟩ =>
    let tables := source.toList ++ joins.map Join.table
    ((tables.map Table.label).Nodup ∧ ∀ t ∈ tables, site.free t.label) ∧
    sourceScoped (site.beside tables) source ∧
    joinsScoped (site.beside tables) source.toList joins ∧
    itemsScoped (site.within tables) items ∧
    optionScoped (site.within tables) filter ∧
    listScoped (site.within tables) groupBy ∧
    optionScoped (site.within tables) having ∧
    keysScoped (site.within tables) orderBy ∧
    optionScoped (site.within tables) limit ∧
    optionScoped (site.within tables) offset

def Table.Scoped (site : Site) : Table → Prop
  | .table .. => True
  | .subquery query _ => query.Scoped site

def sourceScoped (site : Site) : Option Table → Prop
  | none => True
  | some table => table.Scoped site

/-- A condition sees the tables joined before it and its own. -/
def joinsScoped (site : Site) (before : List Table) : List Join → Prop
  | [] => True
  | ⟨_, table, condition⟩ :: rest =>
    table.Scoped site ∧ optionScoped (site.seeing (before ++ [table])) condition ∧
      joinsScoped site (before ++ [table]) rest

def itemsScoped (site : Site) : List SelectItem → Prop
  | [] => True
  | .wildcard :: _ => False
  | .expr e _ :: rest => e.Scoped site ∧ itemsScoped site rest

def keysScoped (site : Site) : List SortKey → Prop
  | [] => True
  | ⟨e, _⟩ :: rest => e.Scoped site ∧ keysScoped site rest

def optionScoped (site : Site) : Option SqlExpr → Prop
  | none => True
  | some e => e.Scoped site

def listScoped (site : Site) : List SqlExpr → Prop
  | [] => True
  | e :: rest => e.Scoped site ∧ listScoped site rest

def armsScoped (site : Site) : List (SqlExpr × SqlExpr) → Prop
  | [] => True
  | (test, value) :: rest => test.Scoped site ∧ value.Scoped site ∧ armsScoped site rest

/-- A star stands only in a count of rows. -/
def SqlExpr.Scoped (site : Site) : SqlExpr → Prop
  | e@(.column table name) =>
    holds e ∧ ∃ t ∈ site.visible, table = some t.label ∧ t.Offers catalog name
  | e@(.literal _) | e@(.param _) => holds e
  | e@(.binary _ left right) => holds e ∧ left.Scoped site ∧ right.Scoped site
  | e@(.unary _ operand) | e@(.isNull operand _) | e@(.nested operand) =>
    holds e ∧ operand.Scoped site
  | e@(.function _ args) => holds e ∧ listScoped site args
  | e@(.aggregate _ args _) => holds e ∧ (args = [.wildcard] ∨ listScoped site args)
  | e@(.cases arms otherwise) => holds e ∧ armsScoped site arms ∧ optionScoped site otherwise
  | e@(.subquery query) | e@(.exist query _) => holds e ∧ query.Scoped site
  | e@(.isIn operand query _) => holds e ∧ operand.Scoped site ∧ query.Scoped site
  | .wildcard => False

end

end

section Mono

variable {catalog : Catalog} {holds holds' : SqlExpr → Prop}

mutual

/-- More may be seen and free than is needed. -/
theorem Select.Scoped.mono {site site' : Site} (hh : holds ≤ holds') (hs : site ≤ site') :
    ∀ {s : Select}, s.Scoped catalog holds site → s.Scoped catalog holds' site'
  | ⟨_, _, source, joins, _, _, _, _, _, _, _⟩,
    ⟨⟨hnodup, hfree⟩, hsource, hjoins, hitems, hfilter, hgroups, hhaving, hkeys, hlimit, hoffset⟩ =>
    let tables := source.toList ++ joins.map Join.table
    have beside := Site.beside_mono tables hs
    have within := Site.within_mono tables hs
    ⟨⟨hnodup, fun t ht => hs.2 _ (hfree t ht)⟩, sourceScoped_mono hh beside hsource,
      joinsScoped_mono hh beside hjoins, itemsScoped_mono hh within hitems,
      optionScoped_mono hh within hfilter, listScoped_mono hh within hgroups,
      optionScoped_mono hh within hhaving, keysScoped_mono hh within hkeys,
      optionScoped_mono hh within hlimit, optionScoped_mono hh within hoffset⟩

theorem Table.Scoped.mono {site site' : Site} (hh : holds ≤ holds') (hs : site ≤ site') :
    ∀ {t : Table}, t.Scoped catalog holds site → t.Scoped catalog holds' site'
  | .table .., _ => trivial
  | .subquery .., h => Select.Scoped.mono hh hs h

theorem sourceScoped_mono {site site' : Site} (hh : holds ≤ holds') (hs : site ≤ site') :
    ∀ {t : Option Table}, sourceScoped catalog holds site t → sourceScoped catalog holds' site' t
  | none, _ => trivial
  | some _, h => Table.Scoped.mono hh hs h

theorem joinsScoped_mono {site site' : Site} (hh : holds ≤ holds') (hs : site ≤ site')
    {before : List Table} :
    ∀ {joins : List Join}, joinsScoped catalog holds site before joins →
      joinsScoped catalog holds' site' before joins
  | [], _ => trivial
  | ⟨_, table, _⟩ :: _, ⟨htable, hcondition, hrest⟩ =>
    ⟨Table.Scoped.mono hh hs htable,
      optionScoped_mono hh (Site.seeing_mono (before ++ [table]) hs) hcondition,
      joinsScoped_mono hh hs hrest⟩

theorem itemsScoped_mono {site site' : Site} (hh : holds ≤ holds') (hs : site ≤ site') :
    ∀ {items : List SelectItem}, itemsScoped catalog holds site items →
      itemsScoped catalog holds' site' items
  | [], _ => trivial
  | .wildcard :: _, h => nomatch h
  | .expr .. :: _, ⟨he, hrest⟩ => ⟨SqlExpr.Scoped.mono hh hs he, itemsScoped_mono hh hs hrest⟩

theorem keysScoped_mono {site site' : Site} (hh : holds ≤ holds') (hs : site ≤ site') :
    ∀ {keys : List SortKey}, keysScoped catalog holds site keys →
      keysScoped catalog holds' site' keys
  | [], _ => trivial
  | ⟨_, _⟩ :: _, ⟨he, hrest⟩ => ⟨SqlExpr.Scoped.mono hh hs he, keysScoped_mono hh hs hrest⟩

theorem optionScoped_mono {site site' : Site} (hh : holds ≤ holds') (hs : site ≤ site') :
    ∀ {e : Option SqlExpr}, optionScoped catalog holds site e →
      optionScoped catalog holds' site' e
  | none, _ => trivial
  | some _, h => SqlExpr.Scoped.mono hh hs h

theorem listScoped_mono {site site' : Site} (hh : holds ≤ holds') (hs : site ≤ site') :
    ∀ {es : List SqlExpr}, listScoped catalog holds site es → listScoped catalog holds' site' es
  | [], _ => trivial
  | _ :: _, ⟨he, hrest⟩ => ⟨SqlExpr.Scoped.mono hh hs he, listScoped_mono hh hs hrest⟩

theorem armsScoped_mono {site site' : Site} (hh : holds ≤ holds') (hs : site ≤ site') :
    ∀ {arms : List (SqlExpr × SqlExpr)}, armsScoped catalog holds site arms →
      armsScoped catalog holds' site' arms
  | [], _ => trivial
  | (_, _) :: _, ⟨htest, hvalue, hrest⟩ =>
    ⟨SqlExpr.Scoped.mono hh hs htest, SqlExpr.Scoped.mono hh hs hvalue, armsScoped_mono hh hs hrest⟩

theorem SqlExpr.Scoped.mono {site site' : Site} (hh : holds ≤ holds') (hs : site ≤ site') :
    ∀ {e : SqlExpr}, e.Scoped catalog holds site → e.Scoped catalog holds' site'
  | .column .., ⟨h, t, ht, hname⟩ => ⟨hh _ h, t, hs.1 ht, hname⟩
  | .literal _, h | .param _, h => hh _ h
  | .binary .., ⟨h, hl, hr⟩ => ⟨hh _ h, SqlExpr.Scoped.mono hh hs hl, SqlExpr.Scoped.mono hh hs hr⟩
  | .unary .., ⟨h, ho⟩ | .isNull .., ⟨h, ho⟩ | .nested _, ⟨h, ho⟩ =>
    ⟨hh _ h, SqlExpr.Scoped.mono hh hs ho⟩
  | .function .., ⟨h, ha⟩ => ⟨hh _ h, listScoped_mono hh hs ha⟩
  | .aggregate .., ⟨h, ha⟩ => ⟨hh _ h, ha.imp_right (listScoped_mono hh hs)⟩
  | .cases .., ⟨h, ha, ho⟩ => ⟨hh _ h, armsScoped_mono hh hs ha, optionScoped_mono hh hs ho⟩
  | .subquery _, ⟨h, hq⟩ | .exist .., ⟨h, hq⟩ => ⟨hh _ h, Select.Scoped.mono hh hs hq⟩
  | .isIn .., ⟨h, ho, hq⟩ => ⟨hh _ h, SqlExpr.Scoped.mono hh hs ho, Select.Scoped.mono hh hs hq⟩

end

end Mono

end SequenceQuery
