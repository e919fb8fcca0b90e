import SequenceQuery.Proofs.Clauses
import SequenceQuery.Proofs.Derived

namespace SequenceQuery

namespace Binding

mutual

def isGroupFree : Binding → Bool
  | .record .. | .scalar _ => true
  | .object fields => fieldsAreGroupFree fields
  | .group .. => false

def fieldsAreGroupFree : List (String × Binding) → Bool
  | [] => true
  | (_, b) :: rest => b.isGroupFree && fieldsAreGroupFree rest

end

mutual

theorem isSome_leaves? : ∀ (b : Binding) (path : String),
    (b.leaves? path).isSome = b.isGroupFree
  | .record .., _ | .scalar _, _ | .group .., _ => rfl
  | .object fields, path => isSome_fieldLeaves? fields path

theorem isSome_fieldLeaves? : ∀ (fields : List (String × Binding)) (path : String),
    (fieldLeaves? path fields).isSome = fieldsAreGroupFree fields
  | [], _ => rfl
  | (name, b) :: rest, path => by
    have hb := isSome_leaves? b (subpath path name)
    have hrest := isSome_fieldLeaves? rest path
    rw [fieldLeaves?, fieldsAreGroupFree, ← hb, ← hrest]
    cases b.leaves? (subpath path name) with
    | none => rfl
    | some first => cases fieldLeaves? path rest <;> rfl

end

theorem leaves?_of_isGroupFree {b : Binding} (hb : b.isGroupFree) (path : String) :
    ∃ ls, b.leaves? path = some ls :=
  Option.isSome_iff_exists.1 ((b.isSome_leaves? path).trans hb)

end Binding

namespace Rows

variable {rows base : Rows} {node : Expr} {p q : Progress} {query : Select} {label : String}
  {ls : List Leaf}

/-- The rows are those of a derived table: all that they hold are its output columns, in their
order, and each is called as it is called there. -/
structure ReadsDerived (rows : Rows) (query : Select) (label : String) : Prop where
  source : rows.select.source = some (.subquery query label)
  leaves : ∃ ls, rows.row.leaves? "" = some ls ∧ ls.map Leaf.name = query.outputNames
  columns : rows.row.composite.leaves = query.outputNames.map (.columnOf label)

/-- What prevents rows from being wrapped is that two of their columns have one name. -/
theorem exists_wrap_iff (node : Expr) (p : Progress) (hls : rows.row.leaves? "" = some ls) :
    (∃ base q, (rows.wrap node).run p = .ok (base, q)) ↔ (ls.map Leaf.name).Nodup := by
  constructor
  · rintro ⟨base, q, h⟩
    obtain ⟨s, hs, -, -⟩ := wrap_ok.1 h
    obtain ⟨found, hfound, -⟩ := project_ok.1 hs
    obtain ⟨hleaves, hnodup⟩ := Binding.leaves_of_columns hfound
    obtain rfl := Option.some.inj (hls.symm.trans hleaves)
    exact hnodup
  · intro hnodup
    have hcolumns : rows.row.columns node = .ok ls := Binding.columns_of_leaves hls hnodup
    exact ⟨_, _, wrap_ok.2 ⟨_, project_ok.2 ⟨ls, hcolumns, rfl⟩, rfl, rfl⟩⟩

/-- Wrapped rows read the derived table whole, by the names that their columns had before. -/
theorem wrap_readsDerived (h : (rows.wrap node).run p = .ok (base, q))
    (hls : rows.row.leaves? "" = some ls) :
    ∃ query label, base.ReadsDerived query label ∧ query.outputNames = ls.map Leaf.name := by
  obtain ⟨s, hs, -, rfl⟩ := wrap_ok.1 h
  obtain ⟨found, hfound, rfl⟩ := project_ok.1 hs
  obtain rfl := Option.some.inj (hls.symm.trans (Binding.leaves_of_columns hfound).1)
  have hnames := outputNames_items ls
  have hread := Binding.leaves?_readFrom (labelAt p.nextLabel) _ hls
  refine ⟨_, labelAt p.nextLabel, ⟨rfl, ⟨_, hread, ?_⟩, ?_⟩, hnames⟩
  · exact (Leaf.map_name_readBack _ ls).trans hnames.symm
  · have hcolumns := Binding.exprs_of_leaves? _ hread
    rw [List.map_map] at hcolumns
    rw [← hcolumns, Select.outputNames, hnames, List.map_map]
    rfl

/-- Rows of a derived table can be wrapped, and then read one with the same output columns. -/
theorem ReadsDerived.wrap (h : rows.ReadsDerived query label) (hnodup : query.outputNames.Nodup)
    (node : Expr) (p : Progress) :
    ∃ base q query' label', (rows.wrap node).run p = .ok (base, q) ∧
      base.ReadsDerived query' label' ∧ query'.outputNames = query.outputNames := by
  obtain ⟨ls, hls, hnames⟩ := h.leaves
  obtain ⟨base, q, hwrap⟩ := (exists_wrap_iff node p hls).2 (hnames ▸ hnodup)
  obtain ⟨query', label', hreads, hnames'⟩ := wrap_readsDerived hwrap hls
  exact ⟨base, q, query', label', hwrap, hreads, hnames'.trans hnames⟩

end Rows

/-- Read back under a label, a binding without a group has the leaves that it had, now columns of
that label. Rows of such a binding can be wrapped unless two leaves have one name; then they read
all output columns of the derived table and nothing else, and so they do when wrapped again. -/
theorem Binding.readFrom_leaves {b : Binding} (hb : b.isGroupFree) :
    (∀ path label, ∃ ls, b.leaves? path = some ls ∧
      (b.readFrom label path).leaves? path = some (ls.map (Leaf.readBack label))) ∧
    ∃ ls, b.leaves? "" = some ls ∧ ∀ select node p,
      match (Rows.wrap ⟨select, b⟩ node).run p with
      | .error _ => ¬(ls.map Leaf.name).Nodup
      | .ok (base, q) => ∃ query label, base.ReadsDerived query label ∧
        query.outputNames = ls.map Leaf.name ∧
        ∀ node', ∃ again r query' label', (base.wrap node').run q = .ok (again, r) ∧
          again.ReadsDerived query' label' ∧ query'.outputNames = ls.map Leaf.name := by
  refine ⟨fun path label => ?_, ?_⟩
  · obtain ⟨ls, hls⟩ := leaves?_of_isGroupFree hb path
    exact ⟨ls, hls, leaves?_readFrom label b hls⟩
  · obtain ⟨ls, hls⟩ := leaves?_of_isGroupFree hb ""
    refine ⟨ls, hls, fun select node p => ?_⟩
    have hrows : (⟨select, b⟩ : Rows).row.leaves? "" = some ls := hls
    have hwraps := Rows.exists_wrap_iff node p hrows
    cases h : (Rows.wrap ⟨select, b⟩ node).run p with
    | error failure =>
      intro hnodup
      obtain ⟨base, q, hok⟩ := hwraps.2 hnodup
      rw [h] at hok
      cases hok
    | ok result =>
      obtain ⟨base, q⟩ := result
      have hnodup := hwraps.1 ⟨base, q, h⟩
      obtain ⟨query, label, hreads, hnames⟩ := Rows.wrap_readsDerived h hls
      refine ⟨query, label, hreads, hnames, fun node' => ?_⟩
      obtain ⟨again, r, query', label', hagain, hreads', hnames'⟩ :=
        hreads.wrap (hnames ▸ hnodup) node' q
      exact ⟨again, r, query', label', hagain, hreads', hnames'.trans hnames⟩

/-- `{ who: p, "": { city: p.city, "": 2 } }`, where `p` is a person that may be missing from a
derived table with the columns of people below `x`. -/
def Binding.whoAndCity : Binding :=
  .object [
    ("who", .record "t0" ⟨"Person", "people", none,
      [⟨"Name", "name", .text, false, false⟩, ⟨"City", "city", .text, true, false⟩]⟩ "x_" true),
    ("", .object [("city", .scalar ⟨.columnOf "t0" "x_city", true⟩), ("", .scalar ⟨.int 2, false⟩)])]

theorem Binding.readFrom_leaves_whoAndCity : whoAndCity.isGroupFree ∧
    (whoAndCity.readFrom "t2" "row").leaves? "row" = some
      [⟨"row_who_name", ⟨.columnOf "t2" "row_who_name", true⟩⟩,
        ⟨"row_who_city", ⟨.columnOf "t2" "row_who_city", true⟩⟩,
        ⟨"row__city", ⟨.columnOf "t2" "row__city", true⟩⟩,
        ⟨"row__", ⟨.columnOf "t2" "row__", false⟩⟩] ∧
    ∃ base q query label, (Rows.wrap ⟨.ofTable (.table none "people" "t0"), whoAndCity⟩
        (.entity 0 "Person")).run ⟨1, false⟩ = .ok (base, q) ∧ base.ReadsDerived query label ∧
      query.outputNames = ["who_name", "who_city", "city", "value"] := by
  obtain ⟨hpath, ls, hls, hwrap⟩ := readFrom_leaves (b := whoAndCity) rfl
  have hwrapped := hwrap (.ofTable (.table none "people" "t0")) (.entity 0 "Person") ⟨1, false⟩
  refine ⟨rfl, ?_, ?_⟩
  · obtain ⟨below, hbelow, hread⟩ := hpath "row" "t2"
    rw [hread]
    cases hbelow
    rfl
  · cases hls
    obtain ⟨query, label, hreads, hnames, -⟩ := hwrapped
    exact ⟨_, _, query, label, rfl, hreads, hnames⟩

end SequenceQuery
