import SequenceQuery.Proofs.Restrictions

namespace SequenceQuery

def Leaf.readBack (label : String) (l : Leaf) : Leaf :=
  ⟨l.name, ⟨.columnOf label l.name, l.scalar.nullable⟩⟩

theorem Leaf.map_name_readBack (label : String) (ls : List Leaf) :
    (ls.map (Leaf.readBack label)).map Leaf.name = ls.map Leaf.name := List.map_map

namespace Binding

mutual

/-- Read back from a derived table, the leaves of a binding are the columns of their names. -/
theorem leaves?_readFrom (label : String) : ∀ (b : Binding) {path : String} {ls : List Leaf},
    b.leaves? path = some ls →
      (b.readFrom label path).leaves? path = some (ls.map (Leaf.readBack label))
  | .record _ entity columnPrefix optional, path, ls, h => by
    cases h
    refine congrArg some ?_
    rw [List.map_map]
    refine List.map_congr_left fun p _ => ?_
    simp only [Function.comp_apply, Leaf.readBack, subpath_eq]
  | .object fields, path, ls, h => fieldLeaves?_readFieldsFrom label fields h
  | .scalar s, path, ls, h => by
    cases h
    have hname : leafName path (.columnOf label (leafName path s.expr)) =
        leafName path s.expr := by
      by_cases hpath : path = ""
      · simp [leafName, hpath, SqlExpr.columnOf]
      · simp [leafName, hpath]
    simp only [readFrom, leaves?, hname, List.map_cons, List.map_nil, Leaf.readBack]
  | .group .., _, _, h => nomatch h

theorem fieldLeaves?_readFieldsFrom (label : String) : ∀ (fields : List (String × Binding))
    {path : String} {ls : List Leaf}, fieldLeaves? path fields = some ls →
      fieldLeaves? path (readFieldsFrom label path fields) =
        some (ls.map (Leaf.readBack label))
  | [], _, _, h => by
    cases h
    rfl
  | (name, b) :: rest, path, ls, h => by
    obtain ⟨first, hfirst, h⟩ := Option.bind_eq_some_iff.1 h
    obtain ⟨others, hothers, h⟩ := Option.bind_eq_some_iff.1 h
    rw [readFieldsFrom, fieldLeaves?, leaves?_readFrom label b hfirst,
      fieldLeaves?_readFieldsFrom label rest hothers, ← Option.some.inj h, List.map_append]
    rfl

end

end Binding

section

variable {engine : Engine} {db : Database} {arguments : Arguments} {outer : Env} {rows base : Rows}
  {node : Expr} {s : Select} {p q : Progress}

/-- A statement that only selects from one table returns something for each of its records. -/
theorem Select.records_ofTable (table : Table) (origin : Option Expr) {items : List SelectItem}
    (hitems : items.any SelectItem.hasAggregate = false) :
    ({ Select.ofTable table with items := items, origin := origin } : Select).records engine db
      arguments outer = (table.records engine db arguments outer).map fun r =>
        itemRecord engine db arguments [(table.label, r)] items [(table.label, r) :: outer]
          ((table.label, r) :: outer) := by
  generalize hs : ({ Select.ofTable table with items := items, origin := origin } : Select) = s
  have hall : s.aggregatesAll = false := by
    rw [← hs]
    show (true && (items.any _ || false)) = false
    rw [hitems]
    rfl
  have hcandidates : s.candidates engine db arguments outer =
      (table.records engine db arguments outer).map fun r =>
        ([(table.label, r) :: outer], (table.label, r) :: outer) := by
    rw [← hs]
    exact Select.candidates_ofTable table origin
  have hentry : ∀ r, s.entry engine db arguments outer
      ([(table.label, r) :: outer], (table.label, r) :: outer) = (itemRecord engine db arguments
        [(table.label, r)] items [(table.label, r) :: outer] ((table.label, r) :: outer), []) := by
    intro r
    have hown : ((table.label, r) :: outer).take
        (((table.label, r) :: outer).length - outer.length) = [(table.label, r)] := by
      rw [List.length_cons, Nat.add_sub_cancel_left]
      rfl
    rw [← hs, Select.entry, hown]
    rfl
  rw [Select.records_eq, Select.entries, Select.gathered_eq hall, hcandidates, List.map_map]
  simp only [Function.comp_def, hentry]
  rw [← hs]
  show page none 0 (List.map Prod.fst (List.insertionSort _ (List.map _ _))) = _
  rw [insertionSort_without_keys, List.map_map]
  rfl

/-- A record of a derived table is made again of its columns. -/
theorem itemRecord_readBack {label : String} {ls : List Leaf} {r : Record} {own : Env}
    {group : List Env} {row : Env} (hnodup : (ls.map Leaf.name).Nodup)
    (hr : r = itemRecord engine db arguments own (Rows.items ls) group row) :
    itemRecord engine db arguments [(label, r)] (Rows.items (ls.map (Leaf.readBack label)))
      [(label, r) :: outer] ((label, r) :: outer) = r := by
  cases ls with
  | nil => exact List.append_nil r
  | cons l ls =>
    rw [itemRecord_items (List.cons_ne_nil l ls)] at hr
    rw [itemRecord_items (by simp), List.map_map]
    refine (List.map_congr_left fun l' hl' => ?_).trans hr.symm
    have hlookup : Env.cell ((label, r) :: outer) label l'.name =
        l'.scalar.expr.cell engine db arguments group row := by
      rw [Env.cell, List.lookup_cons_self, Option.getD_some, Record.cell, hr,
        lookup_leaf hnodup (fun l => l.scalar.expr.cell engine db arguments group row) hl',
        Option.getD_some]
    exact congrArg (Prod.mk l'.name) hlookup

/-- Rows of a derived table have the columns that it selects, and what it returns is returned again
by the statement that selects them. -/
theorem Rows.project_wrap (h : (rows.wrap node).run p = .ok (base, q)) (node' : Expr) :
    ∃ s s', rows.project node' = .ok s ∧ base.project node' = .ok s' ∧
      ∀ engine db arguments outer, s'.records engine db arguments outer =
        s.records engine db arguments outer := by
  obtain ⟨s, hs, -, rfl⟩ := Rows.wrap_ok.1 h
  obtain ⟨ls, hls, hselect⟩ := Rows.project_ok.1 hs
  obtain ⟨hleaves, hnodup⟩ := Binding.leaves_of_columns hls
  have hread := Binding.leaves?_readFrom (labelAt p.nextLabel) _ hleaves
  have hplain := Binding.isPlain_readFrom (labelAt p.nextLabel) rows.row hleaves
  have hnodup' := (Leaf.map_name_readBack (labelAt p.nextLabel) ls).symm ▸ hnodup
  refine ⟨s, _, Rows.project_at hs node', Rows.project_ok.2
    ⟨_, Binding.columns_of_leaves hread hnodup', rfl⟩, ?_⟩
  intro engine db arguments outer
  refine (Select.records_ofTable _ _ (any_hasAggregate_items hplain hread)).trans ?_
  refine (List.map_congr_left fun r hr => ?_).trans (List.map_id _)
  obtain ⟨own, g, -, hmade⟩ := Select.mem_records hr
  rw [hselect] at hmade
  exact itemRecord_readBack hnodup hmade

end

end SequenceQuery
