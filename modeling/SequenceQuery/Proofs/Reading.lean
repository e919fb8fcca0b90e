import SequenceQuery.Proofs.Bodies
import SequenceQuery.Proofs.Paging

namespace SequenceQuery

namespace Composite

variable {α β : Type}

mutual

theorem leaves_map (f : α → β) : ∀ c : Composite α, (c.map f).leaves = c.leaves.map f
  | .one _ => rfl
  | .parts fields => leavesOfFields_map f fields

theorem leavesOfFields_map (f : α → β) : ∀ fields : List (String × Composite α),
    leavesOfFields (mapFields f fields) = (leavesOfFields fields).map f
  | [] => rfl
  | (_, c) :: rest => by
    rw [mapFields, leavesOfFields, leavesOfFields, List.map_append, leaves_map f c,
      leavesOfFields_map f rest]

end

mutual

theorem map_congr {f g : α → β} : ∀ c : Composite α, (∀ a ∈ c.leaves, f a = g a) →
    c.map f = c.map g
  | .one a, h => congrArg one (h a List.mem_cons_self)
  | .parts fields, h => congrArg parts (mapFields_congr fields h)

theorem mapFields_congr {f g : α → β} : ∀ fields : List (String × Composite α),
    (∀ a ∈ leavesOfFields fields, f a = g a) → mapFields f fields = mapFields g fields
  | [], _ => rfl
  | (_, c) :: rest, h => by
    obtain ⟨hc, hrest⟩ := List.forall_mem_append.1 h
    rw [mapFields, mapFields, map_congr c hc, mapFields_congr rest hrest]

end

end Composite

namespace Entity

theorem compose_congr {α : Type} {e : Entity} {f g : Property → α}
    (h : ∀ p ∈ e.properties, f p = g p) : e.compose f = e.compose g := by
  rw [compose, compose, List.map_congr_left fun p hp => by rw [h p hp]]

theorem leaves_compose {α : Type} (e : Entity) (f : Property → α) :
    (e.compose f).leaves = e.properties.map f := by
  rw [compose, Composite.leaves]
  induction e.properties with
  | nil => rfl
  | cons p ps ih => rw [List.map_cons, Composite.leavesOfFields, ih]; rfl

end Entity

namespace Binding

mutual

theorem exprs_of_leaves? : ∀ (b : Binding) {path : String} {ls : List Leaf},
    b.leaves? path = some ls → ls.map (fun l => l.scalar.expr) = b.composite.leaves
  | .record label entity columnPrefix optional, path, ls, h => by
    rw [← Option.some.inj h, composite, Entity.leaves_compose, List.map_map]
    rfl
  | .object fields, path, ls, h => exprs_of_fieldLeaves? fields h
  | .scalar s, path, ls, h => by
    rw [← Option.some.inj h]
    rfl
  | .group .., _, _, h => nomatch h

theorem exprs_of_fieldLeaves? : ∀ (fields : List (String × Binding)) {path : String}
    {ls : List Leaf}, fieldLeaves? path fields = some ls →
      ls.map (fun l => l.scalar.expr) = Composite.leavesOfFields (fieldComposites fields)
  | [], _, ls, h => by
    rw [← Option.some.inj h]
    rfl
  | (name, b) :: rest, path, ls, h => by
    obtain ⟨first, hfirst, h⟩ := Option.bind_eq_some_iff.1 h
    obtain ⟨others, hothers, h⟩ := Option.bind_eq_some_iff.1 h
    rw [← Option.some.inj h, List.map_append, exprs_of_leaves? b hfirst,
      exprs_of_fieldLeaves? rest hothers]
    rfl

end

mutual

theorem leaves?_of_isPlain : ∀ (b : Binding) (path : String), b.isPlain →
    ∃ ls, b.leaves? path = some ls
  | .record .., _, _ => ⟨_, rfl⟩
  | .object fields, path, h => fieldLeaves?_of_fieldsArePlain fields path h
  | .scalar _, _, _ => ⟨_, rfl⟩
  | .group .., _, h => nomatch h

theorem fieldLeaves?_of_fieldsArePlain : ∀ (fields : List (String × Binding)) (path : String),
    fieldsArePlain fields → ∃ ls, fieldLeaves? path fields = some ls
  | [], _, _ => ⟨[], rfl⟩
  | (name, b) :: rest, path, h => by
    obtain ⟨hb, hrest⟩ := (Bool.and_eq_true _ _).mp h
    obtain ⟨first, hfirst⟩ := leaves?_of_isPlain b (subpath path name) hb
    obtain ⟨others, hothers⟩ := fieldLeaves?_of_fieldsArePlain rest path hrest
    refine ⟨first ++ others, ?_⟩
    rw [fieldLeaves?, hfirst, hothers]
    rfl

end

mutual

theorem plain_of_leaves : ∀ b : Binding, b.isPlain →
    ∀ e ∈ b.composite.leaves, e.hasAggregate = false
  | .record label entity columnPrefix _, _, e, he => by
    rw [composite, Entity.leaves_compose] at he
    obtain ⟨p, -, rfl⟩ := List.mem_map.1 he
    rfl
  | .object fields, h, e, he => plain_of_fieldLeaves fields h e he
  | .scalar s, h, e, he => by
    rw [List.mem_singleton.1 he]
    simpa [isPlain] using h
  | .group .., h, _, _ => nomatch h

theorem plain_of_fieldLeaves : ∀ fields : List (String × Binding), fieldsArePlain fields →
    ∀ e ∈ Composite.leavesOfFields (fieldComposites fields), e.hasAggregate = false
  | [], _, _, he => nomatch he
  | (_, b) :: rest, h, e, he => by
    obtain ⟨hb, hrest⟩ := (Bool.and_eq_true _ _).mp h
    rcases List.mem_append.1 he with he | he
    · exact plain_of_leaves b hb e he
    · exact plain_of_fieldLeaves rest hrest e he

end

theorem nodup_of_firstRepeated? {seen names : List String}
    (h : firstRepeated? seen names = none) : names.Nodup ∧ ∀ name ∈ names, name ∉ seen := by
  induction names generalizing seen with
  | nil => exact ⟨.nil, nofun⟩
  | cons name names ih =>
    rw [firstRepeated?] at h
    split at h
    · cases h
    · obtain ⟨hnodup, hseen⟩ := ih h
      refine ⟨List.nodup_cons.2 ⟨fun hmem => hseen name hmem List.mem_cons_self, hnodup⟩, ?_⟩
      rintro other (_ | ⟨_, hmem⟩)
      · assumption
      · exact fun hother => hseen other hmem (List.mem_cons_of_mem _ hother)

theorem firstRepeated?_of_nodup {seen names : List String} (h : names.Nodup)
    (hseen : ∀ name ∈ names, name ∉ seen) : firstRepeated? seen names = none := by
  induction names generalizing seen with
  | nil => rfl
  | cons name names ih =>
    obtain ⟨hname, hnodup⟩ := List.nodup_cons.1 h
    obtain ⟨hfirst, hseen⟩ := List.forall_mem_cons.1 hseen
    rw [firstRepeated?, if_neg hfirst]
    refine ih hnodup fun other hother hmem => ?_
    rcases List.mem_cons.1 hmem with rfl | hmem
    · exact hname hother
    · exact hseen other hother hmem

theorem columns_of_leaves {b : Binding} {node : Expr} {ls : List Leaf} (h : b.leaves? "" = some ls)
    (hnodup : (ls.map Leaf.name).Nodup) : b.columns node = .ok ls := by
  rw [columns, leaves, h]
  dsimp only [bind, Except.bind]
  rw [firstRepeated?_of_nodup hnodup fun _ _ => List.not_mem_nil]
  rfl

theorem leaves_of_columns {b : Binding} {node : Expr} {ls : List Leaf}
    (h : b.columns node = .ok ls) : b.leaves? "" = some ls ∧ (ls.map Leaf.name).Nodup := by
  rw [columns, leaves] at h
  cases hleaves : b.leaves? "" with
  | none => rw [hleaves] at h; cases h
  | some found =>
    rw [hleaves] at h
    dsimp only [bind, Except.bind] at h
    cases hrepeated : firstRepeated? [] (found.map Leaf.name) with
    | some name => rw [hrepeated] at h; cases h
    | none =>
      rw [hrepeated] at h
      cases h
      exact ⟨rfl, (nodup_of_firstRepeated? hrepeated).1⟩

theorem leaves_of_scalars {b : Binding} {node : Expr} {ss : List Scalar}
    (h : b.scalars node = .ok ss) : ∃ ls, b.leaves? "" = some ls ∧ ss = ls.map Leaf.scalar := by
  rw [scalars, leaves] at h
  cases hleaves : b.leaves? "" with
  | none => rw [hleaves] at h; cases h
  | some ls =>
    rw [hleaves] at h
    cases h
    exact ⟨ls, rfl, rfl⟩

theorem subpath_eq (path name : String) :
    subpath path name = (if path = "" then "" else path ++ "_") ++ name := by
  rw [subpath]
  split
  · rw [String.empty_append]
  · rfl

section

variable (engine : Engine) (db : Database) (arguments : Arguments) (label : String) {r : Record}
  {f : SqlExpr → Cell}

theorem cellIn_columnOf (row : Env) (name : String) :
    SqlExpr.cellIn engine db arguments ((label, r) :: row) (.columnOf label name) =
      r.cell name := by
  show Env.cell ((label, r) :: row) label name = _
  rw [Env.cell, List.lookup_cons_self, Option.getD_some]

mutual

/-- A row that has the leaves of a binding under their names is read back as what they made up. -/
theorem element_readFrom : ∀ (b : Binding) {path : String} {ls : List Leaf},
    b.leaves? path = some ls → (∀ l ∈ ls, r.lookup l.name = some (f l.scalar.expr)) →
      (b.readFrom label path).element engine db arguments [(label, r)] = b.composite.map f
  | .record _ entity columnPrefix optional, path, ls, h, hr => by
    cases h
    rw [readFrom, element, composite, composite, Entity.map_compose, Entity.map_compose]
    refine Entity.compose_congr fun p hp => ?_
    have hlookup := hr _ (List.mem_map_of_mem hp)
    rw [cellIn_columnOf, Record.cell, ← subpath_eq, hlookup, Option.getD_some]
  | .object fields, path, ls, h, hr =>
    congrArg Composite.parts (elements_readFieldsFrom fields h hr)
  | .scalar s, path, ls, h, hr => by
    cases h
    have hlookup := hr _ List.mem_cons_self
    rw [readFrom, element, composite, composite, Composite.map, Composite.map, cellIn_columnOf,
      Record.cell, hlookup, Option.getD_some]
  | .group .., _, _, h, _ => nomatch h

theorem elements_readFieldsFrom : ∀ (fields : List (String × Binding)) {path : String}
    {ls : List Leaf}, fieldLeaves? path fields = some ls →
      (∀ l ∈ ls, r.lookup l.name = some (f l.scalar.expr)) →
        Composite.mapFields (SqlExpr.cellIn engine db arguments [(label, r)])
          (fieldComposites (readFieldsFrom label path fields)) =
            Composite.mapFields f (fieldComposites fields)
  | [], _, _, _, _ => rfl
  | (name, b) :: rest, path, ls, h, hr => by
    obtain ⟨first, hfirst, h⟩ := Option.bind_eq_some_iff.1 h
    obtain ⟨others, hothers, h⟩ := Option.bind_eq_some_iff.1 h
    rw [← Option.some.inj h, List.forall_mem_append] at hr
    rw [readFieldsFrom, fieldComposites, fieldComposites, Composite.mapFields,
      Composite.mapFields, elements_readFieldsFrom rest hothers hr.2]
    exact congrArg (fun x => (name, x) :: _) (element_readFrom b hfirst hr.1)

end

end

mutual

theorem type_readFrom (label : String) : ∀ (path : String) (b : Binding),
    (b.readFrom label path).type = b.type
  | path, .record _ entity columnPrefix optional => by
    rw [readFrom, type, type, composite, composite, Entity.map_compose, Entity.map_compose]
  | path, .object fields => congrArg Composite.parts (types_readFieldsFrom label path fields)
  | _, .scalar _ | _, .group .. => rfl

theorem types_readFieldsFrom (label : String) : ∀ (path : String)
    (fields : List (String × Binding)),
    Composite.mapFields (fun _ => ()) (fieldComposites (readFieldsFrom label path fields)) =
      Composite.mapFields (fun _ => ()) (fieldComposites fields)
  | _, [] => rfl
  | path, (name, b) :: rest => by
    rw [readFieldsFrom, fieldComposites, fieldComposites, Composite.mapFields,
      Composite.mapFields, types_readFieldsFrom label path rest]
    exact congrArg (fun x => (name, x) :: _) (type_readFrom label (subpath path name) b)

end

mutual

theorem isPlain_readFrom (label : String) : ∀ (b : Binding) {path : String} {ls : List Leaf},
    b.leaves? path = some ls → (b.readFrom label path).isPlain
  | .record .., _, _, _ | .scalar _, _, _, _ => rfl
  | .object fields, _, _, h => fieldsArePlain_readFieldsFrom label fields h
  | .group .., _, _, h => nomatch h

theorem fieldsArePlain_readFieldsFrom (label : String) : ∀ (fields : List (String × Binding))
    {path : String} {ls : List Leaf}, fieldLeaves? path fields = some ls →
      fieldsArePlain (readFieldsFrom label path fields)
  | [], _, _, _ => rfl
  | (name, b) :: rest, path, ls, h => by
    obtain ⟨first, hfirst, h⟩ := Option.bind_eq_some_iff.1 h
    obtain ⟨others, hothers, -⟩ := Option.bind_eq_some_iff.1 h
    rw [readFieldsFrom, fieldsArePlain, isPlain_readFrom label b hfirst,
      fieldsArePlain_readFieldsFrom label rest hothers]
    rfl

end

end Binding

section

variable (engine : Engine) (db : Database) (arguments : Arguments)

namespace Rows

def kept (rows : Rows) : List Env :=
  (sourceRows engine db arguments [] rows.select.source).filter fun row =>
    conditionHolds engine db arguments rows.select.filter [row] row

def returned (rows : Rows) : List Env :=
  page (optionCell engine db arguments rows.select.limit [[]] []).count?
    ((optionCell engine db arguments rows.select.offset [[]] []).count?.getD 0)
    (if rows.select.distinct then
      keepFirst (fun a b => engine.sameCells (rows.row.element engine db arguments a).leaves
        (rows.row.element engine db arguments b).leaves) (rows.kept engine db arguments)
    else rows.kept engine db arguments)

def leafRecord (ls : List Leaf) (row : Env) : Record :=
  ls.map fun l => (l.name, l.scalar.expr.cellIn engine db arguments row)

/-- Each row of the one table read from is returned for itself, and has a column. -/
structure IsPlain (rows : Rows) : Prop where
  joins : rows.select.joins = []
  groupBy : rows.select.groupBy = []
  having : rows.select.having = none
  orderBy : rows.select.orderBy = []
  row : rows.row.isPlain
  columns : rows.row.type.leaves ≠ []

end Rows

variable {engine db arguments}

theorem insertionSort_without_keys {α : Type} (xs : List α) (f : α → Record) :
    (xs.map fun x => (f x, ([] : List (Cell × Bool)))).insertionSort
      (fun a b => engine.keysNotAfter a.2 b.2) = xs.map fun x => (f x, []) := by
  refine List.Pairwise.insertionSort_eq (List.pairwise_map.2 ?_)
  exact List.pairwise_of_forall fun _ _ => rfl

theorem Rows.IsPlain.records {rows : Rows} (h : rows.IsPlain) {items : List SelectItem}
    (hitems : items.any SelectItem.hasAggregate = false)
    (hcells : ∀ row, (itemRecord engine db arguments row items [row] row).cells =
      (rows.row.element engine db arguments row).leaves) :
    { rows.select with items := items }.records engine db arguments [] =
      (rows.returned engine db arguments).map fun row =>
        itemRecord engine db arguments row items [row] row := by
  obtain ⟨⟨distinct, _, source, joins, filter, groupBy, having, orderBy, limit, offset, origin⟩,
    row⟩ := rows
  obtain ⟨rfl, rfl, rfl, rfl, -, -⟩ := h
  simp only [Select.records, joinedRows, List.isEmpty_nil, hitems,
    Option.isSome_none, Bool.not_true, Bool.or_false, Bool.false_eq_true, if_false, conditionHolds,
    sortKeys]
  have hselected : ∀ xs : List Env, ((xs.map fun env => ([env], env)).filter fun _ => true).map
      (fun g => (itemRecord engine db arguments (g.2.take (g.2.length - ([] : Env).length)) items
        g.1 g.2, ([] : List (Cell × Bool)))) =
      xs.map fun env => (itemRecord engine db arguments env items [env] env, []) := by
    intro xs
    rw [List.filter_eq_self.2 fun _ _ => rfl, List.map_map]
    refine List.map_congr_left fun env _ => ?_
    rw [Function.comp_apply, List.length_nil, Nat.sub_zero, List.take_length]
  rw [hselected, returned]
  cases distinct with
  | true =>
    simp only [if_true]
    rw [keepFirst_map]
    simp only [hcells]
    rw [insertionSort_without_keys, List.map_map, ← page_map]
    rfl
  | false =>
    simp only [Bool.false_eq_true, if_false]
    rw [insertionSort_without_keys, List.map_map, ← page_map]
    rfl

theorem itemCells_item (own : Env) (e : SqlExpr) (name : String) (group : List Env) (row : Env) :
    itemCells engine db arguments own (Rows.item e name) group row =
      [(name, e.cell engine db arguments group row)] := by
  cases e with
  | column table n =>
    by_cases hn : n = name
    · rw [Rows.item, if_pos hn, ← hn]
      rfl
    · rw [Rows.item, if_neg hn]
      rfl
  | _ => rfl

theorem itemRecord_items {ls : List Leaf} (hne : ls ≠ []) (own : Env) (group : List Env)
    (row : Env) : itemRecord engine db arguments own (Rows.items ls) group row =
      ls.map fun l => (l.name, l.scalar.expr.cell engine db arguments group row) := by
  induction ls with
  | nil => exact absurd rfl hne
  | cons l ls ih =>
    cases ls with
    | nil => exact itemCells_item own l.scalar.expr l.name group row
    | cons l' ls =>
      have hrest := ih (by simp)
      have hsplit : itemRecord engine db arguments own (Rows.items (l :: l' :: ls)) group row =
          itemCells engine db arguments own (Rows.item l.scalar.expr l.name) group row ++
            itemRecord engine db arguments own (Rows.items (l' :: ls)) group row := rfl
      rw [hsplit, hrest, itemCells_item]
      rfl

theorem hasAggregate_item (e : SqlExpr) (name : String) :
    (Rows.item e name).hasAggregate = e.hasAggregate := by
  cases e <;> rfl

theorem any_hasAggregate_items {b : Binding} (hb : b.isPlain) {path : String} {ls : List Leaf}
    (h : b.leaves? path = some ls) : (Rows.items ls).any SelectItem.hasAggregate = false := by
  rw [List.any_eq_false]
  intro item hitem
  obtain ⟨l, hl, rfl⟩ := List.mem_map.1 hitem
  have hmem : l.scalar.expr ∈ b.composite.leaves :=
    b.exprs_of_leaves? h ▸ List.mem_map_of_mem (f := fun l => l.scalar.expr) hl
  rw [hasAggregate_item, b.plain_of_leaves hb _ hmem]
  exact Bool.false_ne_true

theorem cells_leafRecord {b : Binding} {ls : List Leaf} (h : b.leaves? "" = some ls) (row : Env) :
    (Rows.leafRecord engine db arguments ls row).cells =
      (b.element engine db arguments row).leaves := by
  rw [Binding.element, Composite.leaves_map, ← b.exprs_of_leaves? h, List.map_map, Record.cells,
    Rows.leafRecord, List.map_map]
  rfl

variable (engine db arguments) in
/-- A plain statement that selects the columns of its rows returns their leaves. -/
theorem Rows.IsPlain.project {rows : Rows} (h : rows.IsPlain) {node : Expr} {s : Select}
    (hs : rows.project node = .ok s) :
    ∃ ls, rows.row.leaves? "" = some ls ∧ (ls.map Leaf.name).Nodup ∧
      s.records engine db arguments [] =
        (rows.returned engine db arguments).map (leafRecord engine db arguments ls) := by
  rw [Rows.project] at hs
  cases hcolumns : rows.row.columns node with
  | error e => rw [hcolumns] at hs; cases hs
  | ok ls =>
    rw [hcolumns] at hs
    cases hs
    obtain ⟨hleaves, hnodup⟩ := Binding.leaves_of_columns hcolumns
    have hexprs := rows.row.exprs_of_leaves? hleaves
    have hne : ls ≠ [] := by
      rintro rfl
      refine h.columns ?_
      rw [Binding.type, Composite.leaves_map, ← hexprs]
      rfl
    have hplain := any_hasAggregate_items h.row hleaves
    have hrecord : ∀ own row, itemRecord engine db arguments own (items ls) [row] row =
        leafRecord engine db arguments ls row := fun own row => itemRecord_items hne own [row] row
    refine ⟨ls, hleaves, hnodup, (h.records hplain fun row => ?_).trans ?_⟩
    · rw [hrecord, cells_leafRecord hleaves]
    · exact List.map_congr_left fun row _ => hrecord row row

/-- A cell that a record has for a leaf is found under the name of the leaf. -/
theorem lookup_leaf {ls : List Leaf} (h : (ls.map Leaf.name).Nodup) (f : Leaf → Cell) {l : Leaf}
    (hl : l ∈ ls) : (ls.map fun l => (l.name, f l)).lookup l.name = some (f l) := by
  induction ls with
  | nil => cases hl
  | cons first ls ih =>
    obtain ⟨hfirst, hrest⟩ := List.nodup_cons.1 h
    rw [List.map_cons, List.lookup_cons]
    cases hl with
    | head => rw [beq_self_eq_true]
    | tail _ hl =>
      have hne : (l.name == first.name) = false :=
        beq_eq_false_iff_ne.2 fun heq => hfirst (heq ▸ List.mem_map_of_mem hl)
      rw [hne]
      exact ih hrest hl

variable (engine db arguments) in
structure Rows.Reads (t : ElementType) (xs : List Element) (rows : Rows) : Prop where
  plain : rows.IsPlain
  type : rows.row.type = t
  elements : (rows.returned engine db arguments).map (rows.row.element engine db arguments) = xs

structure Select.IsOpen (s : Select) : Prop where
  distinct : s.distinct = false
  limit : s.limit = none
  offset : s.offset = none

variable {t : ElementType} {xs : List Element} {rows : Rows} {u : Prop}

theorem Rows.Reads.wrap (h : rows.Reads engine db arguments t xs) (node : Expr) :
    Yields u (rows.wrap node)
      (fun rows => rows.Reads engine db arguments t xs ∧ rows.select.IsOpen) u := by
  refine .bind (.lift fun s hs => hs) fun s hs => .bind .freshLabel fun label _ => ?_
  obtain ⟨ls, hleaves, hnodup, hrecords⟩ := h.plain.project engine db arguments hs
  refine .pure ⟨⟨⟨rfl, rfl, rfl, rfl, ?_, ?_⟩, ?_, ?_⟩, rfl, rfl, rfl⟩
  · exact Binding.isPlain_readFrom label _ hleaves
  · rw [Binding.type_readFrom]
    exact h.plain.columns
  · rw [Binding.type_readFrom, h.type]
  · have hreturned : ((s.records engine db arguments []).map fun r => [(label, r)]).filter
        (fun _ => true) = (s.records engine db arguments []).map fun r => [(label, r)] :=
      List.filter_eq_self.2 fun _ _ => rfl
    refine (congrArg (List.map _) hreturned).trans ?_
    rw [hrecords, List.map_map, List.map_map, ← h.elements]
    refine List.map_congr_left fun row _ => ?_
    exact Binding.element_readFrom engine db arguments label rows.row hleaves
      fun l hl => lookup_leaf hnodup (fun l => l.scalar.expr.cellIn engine db arguments row) hl

/-- A statement that is wrapped where it has to be reads the same and is as it has to be. -/
theorem Rows.Reads.wrapIf (h : rows.Reads engine db arguments t xs) {condition : Bool}
    {Q : Select → Prop} (hopen : ∀ s : Select, s.IsOpen → Q s)
    (hstays : condition = false → Q rows.select) (node : Expr) :
    Yields u (rows.wrapIf condition node)
      (fun rows => rows.Reads engine db arguments t xs ∧ Q rows.select) u := by
  rw [Rows.wrapIf]
  cases condition with
  | true => exact (h.wrap node).imp fun rows hrows => ⟨hrows.1, hopen _ hrows.2⟩
  | false => exact .pure ⟨h, hstays rfl⟩

theorem Rows.Reads.withOrigin (h : rows.Reads engine db arguments t xs) (origin : Expr) :
    (rows.withOrigin origin).Reads engine db arguments t xs := by
  obtain ⟨⟨hjoins, hgroupBy, hhaving, horderBy, hrow, hcolumns⟩, htype, helements⟩ := h
  exact ⟨⟨hjoins, hgroupBy, hhaving, horderBy, hrow, hcolumns⟩, htype, helements⟩

theorem Cell.isTrue_both (a b : Cell) : (a.both b).isTrue = (a.isTrue && b.isTrue) := by
  unfold Cell.both Cell.isTrue
  rcases a.truth with _ | _ | _ <;> rcases b.truth with _ | _ | _ <;> rfl

theorem conditionHolds_conjoin (existing : Option SqlExpr) (e : SqlExpr) (group : List Env)
    (row : Env) :
    conditionHolds engine db arguments (some (SqlExpr.conjoin existing e)) group row =
      (conditionHolds engine db arguments existing group row &&
        (e.cell engine db arguments group row).isTrue) := by
  cases existing with
  | none => rfl
  | some existing => exact Cell.isTrue_both _ _

theorem Rows.returned_of_isOpen (h : rows.select.IsOpen) :
    rows.returned engine db arguments = rows.kept engine db arguments := by
  rw [returned, h.distinct, h.limit, h.offset]
  rfl

/-- A filter on rows that are all returned is a filter on what they are read as. -/
theorem Rows.Reads.filterBy (h : rows.Reads engine db arguments t xs) (hopen : rows.select.IsOpen)
    {e : SqlExpr} {accepts : Element → Bool}
    (he : ∀ row, (e.cellIn engine db arguments row).isTrue =
      accepts (rows.row.element engine db arguments row)) :
    Rows.Reads engine db arguments t (xs.filter accepts)
      { rows with select := rows.select.filterBy e } := by
  obtain ⟨⟨hjoins, hgroupBy, hhaving, horderBy, hrow, hcolumns⟩, htype, helements⟩ := h
  refine ⟨⟨hjoins, hgroupBy, hhaving, horderBy, hrow, hcolumns⟩, htype, ?_⟩
  have hfiltered : (Rows.mk (rows.select.filterBy e) rows.row).select.IsOpen :=
    ⟨hopen.distinct, hopen.limit, hopen.offset⟩
  rw [returned_of_isOpen hfiltered, ← helements, returned_of_isOpen hopen, kept, kept,
    List.filter_map, List.filter_filter]
  refine congrArg _ (List.filter_congr fun row _ => ?_)
  have hcell : (e.cell engine db arguments [row] row).isTrue = _ := he row
  rw [Select.filterBy, conditionHolds_conjoin, hcell, Bool.and_comm]
  rfl

theorem Rows.Reads.withRow (h : rows.Reads engine db arguments t xs)
    (hdistinct : rows.select.distinct = false) {b : Binding} {t' : ElementType}
    {f : Element → Element} (hplain : b.isPlain) (htype : b.type = t') (hcolumns : t'.leaves ≠ [])
    (hb : ∀ row, b.element engine db arguments row =
      f (rows.row.element engine db arguments row)) :
    Rows.Reads engine db arguments t' (xs.map f) { rows with row := b } := by
  obtain ⟨⟨hjoins, hgroupBy, hhaving, horderBy, -, -⟩, -, helements⟩ := h
  refine ⟨⟨hjoins, hgroupBy, hhaving, horderBy, hplain, ?_⟩, htype, ?_⟩
  · rw [htype]
    exact hcolumns
  · have hreturned : Rows.returned engine db arguments { rows with row := b } =
        rows.returned engine db arguments := by
      rw [returned, returned, hdistinct]
      rfl
    rw [hreturned, ← helements, List.map_map]
    exact List.map_congr_left fun row _ => hb row

theorem Rows.Reads.asDistinct (h : rows.Reads engine db arguments t xs)
    (hpaging : rows.select.limit = none ∧ rows.select.offset = none) :
    Rows.Reads engine db arguments t
      (keepFirst (fun x y => engine.sameCells x.leaves y.leaves) xs)
      { rows with select := { rows.select with distinct := true } } := by
  obtain ⟨⟨hjoins, hgroupBy, hhaving, horderBy, hrow, hcolumns⟩, htype, helements⟩ := h
  refine ⟨⟨hjoins, hgroupBy, hhaving, horderBy, hrow, hcolumns⟩, htype, ?_⟩
  rw [← helements, keepFirst_map]
  refine congrArg _ ?_
  rw [returned, returned, hpaging.1, hpaging.2]
  cases rows.select.distinct with
  | true => exact (keepFirst_keepFirst _ _).symm
  | false => rfl

theorem Rows.Reads.withLimit (h : rows.Reads engine db arguments t xs)
    (hlimit : rows.select.limit = none) (limit : SqlExpr) :
    Rows.Reads engine db arguments t
      (page (limit.cellIn engine db arguments []).count? 0 xs) (rows.withLimit limit) := by
  obtain ⟨⟨hjoins, hgroupBy, hhaving, horderBy, hrow, hcolumns⟩, htype, helements⟩ := h
  refine ⟨⟨hjoins, hgroupBy, hhaving, horderBy, hrow, hcolumns⟩, htype, ?_⟩
  rw [← helements, page_map]
  refine congrArg _ ?_
  rw [returned, returned, hlimit]
  exact (page_page _ _ _).symm

theorem Rows.Reads.withOffset (h : rows.Reads engine db arguments t xs)
    (hpaging : rows.select.limit = none ∧ rows.select.offset = none) (offset : SqlExpr) :
    Rows.Reads engine db arguments t
      (page none ((offset.cellIn engine db arguments []).count?.getD 0) xs)
      (rows.withOffset offset) := by
  obtain ⟨⟨hjoins, hgroupBy, hhaving, horderBy, hrow, hcolumns⟩, htype, helements⟩ := h
  refine ⟨⟨hjoins, hgroupBy, hhaving, horderBy, hrow, hcolumns⟩, htype, ?_⟩
  rw [← helements, page_map]
  refine congrArg _ ?_
  rw [returned, returned, hpaging.1, hpaging.2]
  show page (optionCell engine db arguments rows.select.limit [[]] []).count? _ _ = _
  rw [hpaging.1]
  rfl

end

end SequenceQuery
