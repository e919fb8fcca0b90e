import SequenceQuery.Proofs.ColumnNames
import SequenceQuery.Proofs.DisciplinedForms
import SequenceQuery.Proofs.FormConstruction
import SequenceQuery.Proofs.References

namespace SequenceQuery

namespace Expr

variable (catalog : Catalog)

def ownWords : Expr → List String
  | .entity _ name => (catalog.entity? name).toList.flatMap fun entity =>
    entity.properties.map Property.column
  | .object _ fields => fields.map Prod.fst
  | _ => []

/-- The words that the names of the columns in a query are made of. What has no name is a value. -/
def words (e : Expr) : List String := "value" :: e.nodes.flatMap (ownWords catalog)

/-- No two columns of an entity that is queried, and nothing below two fields of an object, have
names that differ in letter case alone. -/
structure KeepsCase (e : Expr) : Prop where
  columns : ∀ {i name entity}, .entity i name ∈ e.nodes → catalog.entity? name = some entity →
    Distinguishes (entity.properties.map Property.column)
  fields : ∀ {i fields}, .object i fields ∈ e.nodes →
    (fields.map Prod.fst).Pairwise (Apart (e.words catalog))

variable {catalog} {e : Expr}

theorem columns_subset_words {i : NodeId} {name : String} {entity : Entity}
    (hn : .entity i name ∈ e.nodes) (hentity : catalog.entity? name = some entity) :
    entity.properties.map Property.column ⊆ e.words catalog := by
  intro w hw
  refine List.mem_cons_of_mem _ (List.mem_flatMap.2 ⟨_, hn, ?_⟩)
  rw [ownWords, hentity]
  simpa using hw

theorem fields_subset_words {i : NodeId} {fields : List (String × Expr)}
    (hn : .object i fields ∈ e.nodes) : fields.map Prod.fst ⊆ e.words catalog :=
  fun _ hw => List.mem_cons_of_mem _ (List.mem_flatMap.2 ⟨_, hn, hw⟩)

/-- Words in lower case differ in more than their case, and so does what is made of them. -/
theorem keepsCase_of_lower (h : ∀ w ∈ e.words catalog, Text.lower w = w) : e.KeepsCase catalog where
  columns hn hentity := .of_lower fun _ hw => h _ (columns_subset_words hn hentity hw)
  fields {_ fields} hn := by
    refine List.Pairwise.imp_of_mem (fun {field other} hfield hother _ => ?_)
      (List.pairwise_of_forall (R := fun _ _ => True) fun _ _ => trivial)
    intro path n m hn' hm' hfold
    obtain ⟨rest, rfl, hrest⟩ := hn'.of_lower h
    obtain ⟨rest', rfl, hrest'⟩ := hm'.of_lower h
    have hlower : Text.lower field = field := h _ (fields_subset_words hn hfield)
    have hlower' : Text.lower other = other := h _ (fields_subset_words hn hother)
    rw [Binding.subpath_eq, Binding.subpath_eq, String.append_assoc, String.append_assoc] at hfold ⊢
    have hfold := Text.sameFold_iff.1 (Text.sameFold_append_left.1 hfold)
    rw [Text.lower_append, Text.lower_append, hlower, hlower', hrest, hrest'] at hfold
    rw [hfold]

end Expr

/-- The columns of a statement have different names, which stay different when they are folded as
long as the query keeps to one case. -/
def Select.ToldApart (catalog : Catalog) (e : Expr) (s : Select) : Prop :=
  s.outputNames.Nodup ∧ (e.KeepsCase catalog → Distinguishes s.outputNames)

def Expr.toldApart (catalog : Catalog) (e : Expr) : Demand where
  statement := Select.ToldApart catalog e
  clauses _ := True
  row b := e.KeepsCase catalog → b.Tidy (e.words catalog)
  value _ b := e.KeepsCase catalog → b.Tidy (e.words catalog)

theorem toldApart_items {catalog : Catalog} {e : Expr} {b : Binding} {ls : List Leaf} {s : Select}
    (hb : e.KeepsCase catalog → b.Tidy (e.words catalog)) (hls : b.leaves? "" = some ls)
    (hnodup : (ls.map Leaf.name).Nodup) (hitems : s.items = Rows.items ls) :
    s.ToldApart catalog e := by
  rw [Select.ToldApart, Select.outputNames, hitems, outputNames_items]
  exact ⟨hnodup, fun hcase => ((hb hcase).leaves? hls).2⟩

theorem toldApart_single {catalog : Catalog} {e : Expr} (value : SqlExpr) (s : Select) :
    Select.ToldApart catalog e { s with items := [.expr value none] } := by
  rw [Select.ToldApart, Select.outputNames, List.filterMap_cons]
  cases SelectItem.name? (.expr value none) with
  | none => exact ⟨.nil, fun _ => .nil⟩
  | some name => exact ⟨List.nodup_singleton _, fun _ => .singleton name⟩

theorem discipline_toldApart (catalog : Catalog) (dialect : Dialect) (e : Expr) :
    Discipline (.ofExpr catalog dialect e) e.nodes (e.toldApart catalog) where
  entity hn hentity label hcase :=
    .record false (fun _ hp => Expr.columns_subset_words hn hentity (List.mem_map_of_mem hp))
      (hcase.columns hn hentity) (.inl rfl)
  asOptional hb hcase := (hb hcase).asOptional
  readFrom _ hb _ hcase := (hb hcase).readFrom (.refl _ "")
  group hkey helement hcase := .group (hkey hcase) (helement hcase)
  element hgroup hcase := by
    cases hgroup hcase with
    | group _ helement => exact helement
  shaped _ _ _ hb := hb
  param hb := hb
  lambda hb := hb
  member hb hm hcase := (hb hcase).member hm
  object hn hnames hfields hcase := by
    refine .object (hnames ▸ Expr.fields_subset_words hn) (hnames ▸ hcase.fields hn) fun f hf => ?_
    obtain ⟨_, -, hfield⟩ := hfields f hf
    exact hfield hcase
  computed {_ s} hcomputed _ := by
    obtain ⟨value, nullable⟩ := s
    have hname : Binding.leafName "" value = "value" := by
      cases value with
      | column _ _ => cases hcomputed.computed
      | _ => exact if_pos rfl
    exact .scalar (hname ▸ Below.word List.mem_cons_self "")
  unpaged _ _ := trivial
  samePages _ _ _ := trivial
  paging _ _ := trivial
  projected hb hls hnodup _ := toldApart_items hb hls hnodup rfl
  limited _ _ _ hb hls hnodup _ := toldApart_items hb hls hnodup rfl
  single _ _ := toldApart_single _ _
  singleRow _ _ := toldApart_single _ _

namespace Form

variable {catalog : Catalog} {dialect : Dialect} {e : Expr} {f : Form}

/-- No statement in a form selects two columns of one name, and if the query keeps to one case none
selects two that are folded to one name: whatever is read from a derived table is then one column of
it, the one of exactly that name. -/
theorem columns_unambiguous (h : ofExpr catalog dialect e = .ok f) :
    f.select.Anywhere (fun s => s.outputNames.Nodup) ∧
    (e.KeepsCase catalog → f.select.Anywhere (fun s => (s.outputNames.map Text.lower).Nodup) ∧
      ∀ q label name, Fragment.Reads [] (.select f.select) (.subquery q label) name →
        q.outputNames.filter (Text.sameFold name) = [name]) := by
  have hapart := anywhere_ofExpr (discipline_toldApart catalog dialect e) h
  refine ⟨fun place => (hapart place).weaken id id And.left, fun hcase => ⟨fun place =>
    (hapart place).weaken id id fun hs => (hs.2 hcase).nodup_lower hs.1, ?_⟩⟩
  intro q label name hreads
  obtain ⟨hnodup, hfolded⟩ := hreads.statement (hapart .outermost) nofun q rfl
  have hname : name ∈ q.outputNames :=
    hreads.offers Site.Models.outermost (scoped_ofExpr catalog dialect h)
  have hsame : q.outputNames.filter (Text.sameFold name) = q.outputNames.filter (· == name) := by
    refine List.filter_congr fun m hm => Bool.eq_iff_iff.2 ⟨fun hfold => ?_, fun heq => ?_⟩
    · exact beq_iff_eq.2 (hfolded hcase name hname m hm hfold).symm
    · exact Text.sameFold_iff.2 (beq_iff_eq.1 heq ▸ rfl)
  rw [hsame, List.filter_beq, List.count_eq_one_of_mem hnodup hname, List.replicate_one]

/-- `Person.Select(p => new { who: p, f: p.Name }).Distinct().Where(x => x.who.City == x.f)`, where
`f` is the field. -/
def peopleWith (field : String) : Expr :=
  .call 0 .filter [.call 1 .distinct [.call 2 .project [.entity 3 "Person",
    .lambda 4 ["p"] (.object 5 [("who", .param 6 "p"), (field, .member 7 (.param 8 "p") "Name")])]],
    .lambda 9 ["x"] (.binary 10 .equal (.member 11 (.member 12 (.param 13 "x") "who") "City")
      (.member 14 (.param 15 "x") field))]

theorem columns_unambiguous_peopleWith_alias : (peopleWith "alias").KeepsCase residents ∧
    ∃ f, ofExpr residents (Postgres.dialect false) (peopleWith "alias") = .ok f ∧
      ∃ q, f.select.source = some (.subquery q "t1") ∧
        q.outputNames = ["who_name", "who_city", "who_age", "alias"] ∧
        (q.outputNames.map Text.lower).Nodup ∧
        q.outputNames.filter (Text.sameFold "who_city") = ["who_city"] := by
  have hcase : (peopleWith "alias").KeepsCase residents :=
    Expr.keepsCase_of_lower (by decide +kernel)
  obtain ⟨f, q, hf, hsource, hnames, hfilter⟩ : ∃ f q,
      ofExpr residents (Postgres.dialect false) (peopleWith "alias") = .ok f ∧
        f.select.source = some (.subquery q "t1") ∧
        q.outputNames = ["who_name", "who_city", "who_age", "alias"] ∧
        f.select.filter = some (.binary .eq (.columnOf "t1" "who_city") (.columnOf "t1" "alias")) :=
    ⟨_, _, rfl, rfl, rfl, rfl⟩
  obtain ⟨hexact, hfolded⟩ := columns_unambiguous hf
  obtain ⟨hall, hresolves⟩ := hfolded hcase
  have hderived : q ∈ f.select.derived :=
    List.mem_filterMap.2 ⟨.subquery q "t1", by simp [Select.tables, hsource], rfl⟩
  refine ⟨hcase, f, hf, q, hsource, hnames, ?_, hresolves q "t1" "who_city" ?_⟩
  · cases hall .outermost with
    | select _ hqueries =>
      cases hqueries q hderived with
      | select hstatement => exact hstatement
  · refine .clause (e := .binary .eq (.columnOf "t1" "who_city") (.columnOf "t1" "alias")) ?_
      (.part List.mem_cons_self (.column (t := .subquery q "t1") ?_ "who_city"))
    · simp [Select.rowExprs, hfilter]
    · simp [Select.tables, hsource]

/-- `SELECT ... FROM (SELECT DISTINCT t0.name AS who_name, t0.city AS who_city, t0.age AS who_age,
t0.name AS who_City FROM people AS t0) AS t1 WHERE t1.who_city = t1.who_City`. -/
theorem not_columns_unambiguous_peopleWith_whoCity :
    ∃ f, ofExpr residents (Postgres.dialect false) (peopleWith "who_City") = .ok f ∧
      ∃ q, f.select.source = some (.subquery q "t1") ∧ ¬(q.outputNames.map Text.lower).Nodup ∧
        Fragment.Reads [] (.select f.select) (.subquery q "t1") "who_city" ∧
        q.outputNames.filter (Text.sameFold "who_city") = ["who_city", "who_City"] := by
  obtain ⟨f, q, hf, hsource, hnames, hfilter⟩ : ∃ f q,
      ofExpr residents (Postgres.dialect false) (peopleWith "who_City") = .ok f ∧
        f.select.source = some (.subquery q "t1") ∧
        q.outputNames = ["who_name", "who_city", "who_age", "who_City"] ∧
        f.select.filter =
          some (.binary .eq (.columnOf "t1" "who_city") (.columnOf "t1" "who_City")) :=
    ⟨_, _, rfl, rfl, rfl, rfl⟩
  have hresolves : q.outputNames.filter (Text.sameFold "who_city") = ["who_city", "who_City"] := by
    rw [hnames, funext (Text.sameFold_eq _)]
    decide
  refine ⟨f, hf, q, hsource, fun hnodup => ?_, ?_, hresolves⟩
  · have hcity : "who_city" ∈ q.outputNames := hnames ▸ by decide
    have hCity : "who_City" ∈ q.outputNames ∧ Text.sameFold "who_city" "who_City" = true :=
      List.mem_filter.1 (hresolves ▸ by decide)
    exact absurd (List.inj_on_of_nodup_map hnodup hcity hCity.1 (Text.sameFold_iff.1 hCity.2))
      (by decide)
  · refine .clause (e := .binary .eq (.columnOf "t1" "who_city") (.columnOf "t1" "who_City")) ?_
      (.part List.mem_cons_self (.column (t := .subquery q "t1") ?_ "who_city"))
    · simp [Select.rowExprs, hfilter]
    · simp [Select.tables, hsource]

end Form

end SequenceQuery
