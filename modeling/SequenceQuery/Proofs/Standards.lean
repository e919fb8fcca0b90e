import SequenceQuery.Form.Binding
import SequenceQuery.Proofs.Scoping

namespace SequenceQuery

namespace SqlExpr

def parts : SqlExpr → List SqlExpr
  | .column .. | .literal _ | .param _ | .subquery _ | .exist .. | .wildcard => []
  | .binary _ left right => [left, right]
  | .unary _ e | .isNull e _ | .nested e | .isIn e _ _ => [e]
  | .function _ args | .aggregate _ args _ => args
  | .cases arms otherwise => arms.flatMap (fun arm => [arm.1, arm.2]) ++ otherwise.toList

def queries : SqlExpr → List Select
  | .subquery query | .exist query _ | .isIn _ query _ => [query]
  | _ => []

def isComposed : SqlExpr → Bool
  | .column .. | .aggregate .. | .wildcard => false
  | _ => true

inductive Has : SqlExpr → SqlExpr → Prop
  | self (e : SqlExpr) : Has e e
  | part {e part found : SqlExpr} (hpart : part ∈ e.parts) (h : Has part found) : Has e found

end SqlExpr

def SelectItem.expr? : SelectItem → Option SqlExpr
  | .wildcard => none
  | .expr e _ => some e

def Table.query? : Table → Option Select
  | .table .. => none
  | .subquery query _ => some query

namespace Select

def labels (s : Select) : List String := s.tables.map Table.label

def derived (s : Select) : List Select := s.tables.filterMap Table.query?

def selected (s : Select) : List SqlExpr := s.items.filterMap SelectItem.expr?

/-- What decides which rows are joined, kept, put together and returned. -/
def rowExprs (s : Select) : List SqlExpr :=
  s.joins.filterMap Join.condition ++ s.filter.toList ++ s.groupBy ++ s.limit.toList ++
    s.offset.toList

/-- What is computed of each row that is returned, or of each group. -/
def resultExprs (s : Select) : List SqlExpr :=
  s.selected ++ s.having.toList ++ s.orderBy.map SortKey.expr

section

variable {s : Select} {P : SqlExpr → Prop}

theorem forall_rowExprs : (∀ e ∈ s.rowExprs, P e) ↔
    (∀ j ∈ s.joins, ∀ e ∈ j.condition, P e) ∧ (∀ e ∈ s.filter, P e) ∧ (∀ e ∈ s.groupBy, P e) ∧
      (∀ e ∈ s.limit, P e) ∧ ∀ e ∈ s.offset, P e := by
  simp only [rowExprs, List.forall_mem_append, List.mem_filterMap, Option.mem_toList, and_assoc]
  refine and_congr_left fun _ => ?_
  exact ⟨fun h j hj e he => h e ⟨j, hj, he⟩, fun h e ⟨j, hj, he⟩ => h j hj e he⟩

theorem forall_resultExprs : (∀ e ∈ s.resultExprs, P e) ↔
    (∀ e ∈ s.selected, P e) ∧ (∀ e ∈ s.having, P e) ∧ ∀ k ∈ s.orderBy, P k.expr := by
  simp only [resultExprs, List.forall_mem_append, List.forall_mem_map, Option.mem_toList, and_assoc]
  exact Iff.rfl

theorem forall_conjoin (hand : ∀ a b, P a → P b → P (.and a b)) {condition : Option SqlExpr}
    {e : SqlExpr} (hcondition : ∀ e ∈ condition, P e) (he : P e) :
    P (SqlExpr.conjoin condition e) := by
  cases condition with
  | none => exact he
  | some first => exact hand _ _ (hcondition first rfl) he

end

end Select

/-- What is known where a part of a statement stands: the labels of the tables that are seen, and
whether what stands there is computed of a group. -/
structure Place where
  tables : List String
  grouped : Bool

namespace Place

def outermost : Place := ⟨[], false⟩

def enter (place : Place) (labels : List String) (grouped : Bool) : Place :=
  ⟨labels ++ place.tables, place.grouped || grouped⟩

def within (place : Place) (s : Select) : Place := place.enter s.labels false

def inside (place : Place) (s : Select) : Place := place.enter s.labels s.hasGroups

instance : LE Place :=
  ⟨fun a b => a.tables ⊆ b.tables ∧ (a.grouped = true → b.grouped = true)⟩

instance : Preorder Place where
  le_refl _ := ⟨List.Subset.refl _, id⟩
  le_trans _ _ _ h h' := ⟨List.Subset.trans h.1 h'.1, fun hg => h'.2 (h.2 hg)⟩

variable {a b : Place} {labels more : List String} {grouped more' : Bool}

theorem le_enter (place : Place) (labels : List String) (grouped : Bool) :
    place ≤ place.enter labels grouped :=
  ⟨List.subset_append_right _ _, fun h => by simp [enter, h]⟩

theorem enter_mono (h : a ≤ b) (hlabels : labels ⊆ more) (hgrouped : grouped = true → more' = true) :
    a.enter labels grouped ≤ b.enter more more' := by
  refine ⟨List.append_subset.2 ⟨List.subset_append_of_subset_left _ hlabels,
    List.subset_append_of_subset_right _ h.1⟩, fun hany => ?_⟩
  rcases (Bool.or_eq_true _ _).mp hany with ha | hg
  · exact (Bool.or_eq_true _ _).mpr (.inl (h.2 ha))
  · exact (Bool.or_eq_true _ _).mpr (.inr (hgrouped hg))

end Place

/-- What is asked of columns and of statements where they stand. Nothing is asked of what stands in
an expression that is exempt. -/
structure Standard where
  column : Place → String → Prop
  exempt : SqlExpr → Prop
  statement : Place → Select → Prop

inductive Fragment
  | expr (e : SqlExpr)
  | select (s : Select)

/-- Every column in a fragment is allowed where it stands, and so is every statement: the fragment
itself, those nested in it and derived tables, at any depth. -/
inductive Standard.Meets (std : Standard) : Place → Fragment → Prop
  | exempt {place : Place} {e : SqlExpr} (h : std.exempt e) : Meets std place (.expr e)
  | expr {place : Place} {e : SqlExpr}
    (hcolumn : ∀ table name, e = .column table name → ∃ l, table = some l ∧ std.column place l)
    (hparts : ∀ part ∈ e.parts, Meets std place (.expr part))
    (hqueries : ∀ q ∈ e.queries, Meets std place (.select q)) : Meets std place (.expr e)
  | select {place : Place} {s : Select} (hstatement : std.statement place s)
    (hderived : ∀ q ∈ s.derived, Meets std place (.select q))
    (hrows : ∀ e ∈ s.rowExprs, Meets std (place.within s) (.expr e))
    (hresults : ∀ e ∈ s.resultExprs, Meets std (place.inside s) (.expr e)) :
    Meets std place (.select s)

abbrev SqlExpr.Meets (std : Standard) (place : Place) (e : SqlExpr) : Prop :=
  std.Meets place (.expr e)

abbrev Select.Meets (std : Standard) (place : Place) (s : Select) : Prop :=
  std.Meets place (.select s)

namespace Standard

def each (statement : Place → Select → Prop) : Standard := ⟨fun _ _ => True, fun _ => False, statement⟩

def seen : Standard := ⟨fun place l => l ∈ place.tables, fun _ => False, fun _ _ => True⟩

def Spares (std : Standard) : Prop := ∀ name args distinct, std.exempt (.aggregate name args distinct)

variable {std std' : Standard} {place place' : Place}

/-- What meets a standard at one place meets a weaker one at a place that it is related to. -/
theorem Meets.imp {R : Place → Place → Prop}
    (henter : ∀ {a b}, R a b → ∀ labels grouped, R (a.enter labels grouped) (b.enter labels grouped))
    (hcolumn : ∀ {a b l}, R a b → std.column a l → std'.column b l)
    (hexempt : ∀ e, std.exempt e → std'.exempt e)
    (hstatement : ∀ {a b s}, R a b → std.statement a s → std'.statement b s)
    {x : Fragment} (h : std.Meets place x) : ∀ {place'}, R place place' → std'.Meets place' x := by
  induction h with
  | exempt h => exact fun _ => .exempt (hexempt _ h)
  | expr hname _ _ ihparts ihqueries =>
    intro place' hR
    refine .expr (fun table name heq => ?_) (fun part hpart => ihparts part hpart hR)
      fun q hq => ihqueries q hq hR
    obtain ⟨l, htable, hl⟩ := hname table name heq
    exact ⟨l, htable, hcolumn hR hl⟩
  | select hs _ _ _ ihderived ihrows ihresults =>
    intro place' hR
    exact .select (hstatement hR hs) (fun q hq => ihderived q hq hR)
      (fun e he => ihrows e he (henter hR _ _)) fun e he => ihresults e he (henter hR _ _)

theorem Meets.weaken {x : Fragment} (h : std.Meets place x)
    (hcolumn : ∀ {a l}, std.column a l → std'.column a l)
    (hexempt : ∀ {e}, std.exempt e → std'.exempt e)
    (hstatement : ∀ {a s}, std.statement a s → std'.statement a s) : std'.Meets place x := by
  refine h.imp (R := Eq) ?_ ?_ (fun _ => hexempt) ?_ rfl
  · rintro _ _ rfl _ _
    rfl
  · rintro _ _ _ rfl
    exact hcolumn
  · rintro _ _ _ rfl
    exact hstatement

structure IsMonotone (std : Standard) : Prop where
  column : ∀ {a b l}, a ≤ b → std.column a l → std.column b l
  statement : ∀ {a b s}, a ≤ b → std.statement a s → std.statement b s

theorem Meets.mono (hstd : std.IsMonotone) {x : Fragment} (h : std.Meets place x)
    (hle : place ≤ place') : std.Meets place' x :=
  h.imp (fun hab _ _ => Place.enter_mono hab (List.Subset.refl _) id) hstd.column (fun _ => id)
    hstd.statement hle

theorem Meets.of_isComposed {e : SqlExpr} (h : e.isComposed = true)
    (hparts : ∀ part ∈ e.parts, part.Meets std place)
    (hqueries : ∀ q ∈ e.queries, q.Meets std place) : e.Meets std place := by
  refine .expr (fun table name heq => ?_) hparts hqueries
  rw [heq] at h
  cases h

theorem Meets.and {a b : SqlExpr} (ha : a.Meets std place) (hb : b.Meets std place) :
    (SqlExpr.and a b).Meets std place :=
  .of_isComposed rfl (List.forall_mem_cons.2 ⟨ha, List.forall_mem_singleton.2 hb⟩) nofun

theorem Meets.column {l : String} (h : std.column place l) (name : String) :
    (SqlExpr.columnOf l name).Meets std place := by
  refine .expr (fun table name heq => ?_) nofun nofun
  cases heq
  exact ⟨l, rfl, h⟩

theorem Meets.aggregate {name : String} {args : List SqlExpr}
    (h : ∀ arg ∈ args, arg.Meets std place) : (SqlExpr.aggregateOf name args).Meets std place :=
  .expr nofun h nofun

theorem Meets.star : SqlExpr.wildcard.Meets std place := .expr nofun nofun nofun

theorem isMonotone_seen : seen.IsMonotone := ⟨fun hab hl => hab.1 hl, fun _ _ => trivial⟩

theorem Meets.of_has {e found : SqlExpr} (hhas : e.Has found) (h : e.Meets seen place) :
    found.Meets seen place := by
  induction hhas with
  | self => exact h
  | part hpart _ ih =>
    cases h with
    | exempt h => cases h
    | expr _ hparts _ => exact ih (hparts _ hpart)

end Standard

namespace Binding

/-- Values that a binding gives satisfy `value 0`, and it has groups only where `grouped 0` holds; the
same goes for the elements of its groups with the numbers after 0, and so on for groups in them. -/
inductive All : (Nat → Prop) → (Nat → SqlExpr → Prop) → Binding → Prop
  | record {grouped value} {label : String} {entity : Entity} {columnPrefix : String}
    (h : ∀ p ∈ entity.properties, value 0 (.columnOf label (columnPrefix ++ p.column)))
    (optional : Bool) : All grouped value (.record label entity columnPrefix optional)
  | object {grouped value} {fields : List (String × Binding)}
    (h : ∀ f ∈ fields, All grouped value f.2) : All grouped value (.object fields)
  | scalar {grouped value} {s : Scalar} (h : value 0 s.expr) : All grouped value (.scalar s)
  | group {grouped value} {key b : Binding} (hgrouped : grouped 0) (hkey : All grouped value key)
    (helement : All (fun n => grouped (n + 1)) (fun n => value (n + 1)) b) :
    All grouped value (.group key b)

variable {grouped grouped' : Nat → Prop} {value value' : Nat → SqlExpr → Prop} {b : Binding}

theorem All.imp (h : b.All grouped value) : ∀ {grouped' value'}, (∀ n, grouped n → grouped' n) →
    (∀ n e, value n e → value' n e) → b.All grouped' value' := by
  induction h with
  | record h => exact fun _ hvalue => .record (fun p hp => hvalue 0 _ (h p hp)) _
  | object _ ih => exact fun hgrouped hvalue => .object fun f hf => ih f hf hgrouped hvalue
  | scalar h => exact fun _ hvalue => .scalar (hvalue 0 _ h)
  | group hg _ _ ihkey ihelement =>
    exact fun hgrouped hvalue => .group (hgrouped 0 hg) (ihkey hgrouped hvalue)
      (ihelement (fun n => hgrouped (n + 1)) fun n => hvalue (n + 1))

theorem All.asScalar {s : Scalar} {node : Expr} (h : b.All grouped value)
    (hs : b.asScalar node = .ok s) : value 0 s.expr := by
  obtain rfl := asScalar_ok hs
  cases h with
  | scalar h => exact h

theorem All.member {found : Binding} {name : String} {node : Expr} (h : b.All grouped value)
    (hm : b.member name node = .ok found) : found.All grouped value := by
  cases member_ok hm with
  | column hp =>
    cases h with
    | record hcolumns => exact .scalar (hcolumns _ (Text.findNamed?_mem hp))
  | field hf =>
    cases h with
    | object hfields => exact hfields _ (Text.findNamed?_mem hf)
  | key _ =>
    cases h with
    | group _ hkey _ => exact hkey

mutual

theorem All.leaves? : ∀ {b : Binding} {path : String} {ls : List Leaf},
    b.All grouped value → b.leaves? path = some ls → ∀ l ∈ ls, value 0 l.scalar.expr
  | .record .., _, _, .record hcolumn _, h, l, hl => by
    cases h
    obtain ⟨property, hp, rfl⟩ := List.mem_map.1 hl
    exact hcolumn property hp
  | .object fields, _, _, .object hfields, h, l, hl => all_fieldLeaves? hfields h l hl
  | .scalar s, _, _, .scalar hs, h, l, hl => by
    cases h
    rw [List.mem_singleton.1 hl]
    exact hs
  | .group .., _, _, _, h, _, _ => nomatch h

theorem all_fieldLeaves? : ∀ {fields : List (String × Binding)} {path : String} {ls : List Leaf},
    (∀ f ∈ fields, f.2.All grouped value) → fieldLeaves? path fields = some ls →
      ∀ l ∈ ls, value 0 l.scalar.expr
  | [], _, _, _, h, l, hl => by
    cases h
    cases hl
  | (name, b) :: rest, path, ls, hfields, h, l, hl => by
    obtain ⟨hb, hrest⟩ := List.forall_mem_cons.1 hfields
    obtain ⟨first, hfirst, h⟩ := Option.bind_eq_some_iff.1 h
    obtain ⟨others, hothers, h⟩ := Option.bind_eq_some_iff.1 h
    rw [← Option.some.inj h] at hl
    rcases List.mem_append.1 hl with hl | hl
    · exact All.leaves? hb hfirst l hl
    · exact all_fieldLeaves? hrest hothers l hl

end

mutual

theorem All.asOptional : ∀ {b : Binding}, b.All grouped value →
    b.asOptional.All grouped value
  | .record .., .record h _ => .record h _
  | .object _, .object h => .object (all_fieldsAsOptional h)
  | .scalar _, .scalar h => .scalar h
  | .group .., .group hg hkey helement => .group hg hkey helement

theorem all_fieldsAsOptional : ∀ {fields : List (String × Binding)},
    (∀ f ∈ fields, f.2.All grouped value) →
      ∀ f ∈ fieldsAsOptional fields, f.2.All grouped value
  | [], _ => nofun
  | (_, _) :: _, h =>
    have ⟨hb, hrest⟩ := List.forall_mem_cons.1 h
    List.forall_mem_cons.2 ⟨All.asOptional hb, all_fieldsAsOptional hrest⟩

end

mutual

theorem all_true : ∀ b : Binding, b.All (fun _ => True) fun _ _ => True
  | .record .. => .record (fun _ _ => trivial) _
  | .object fields => .object (fields_all_true fields)
  | .scalar _ => .scalar trivial
  | .group key element => .group trivial (all_true key) (all_true element)

theorem fields_all_true : ∀ fields : List (String × Binding),
    ∀ f ∈ fields, f.2.All (fun _ => True) fun _ _ => True
  | [] => nofun
  | (_, b) :: rest => List.forall_mem_cons.2 ⟨all_true b, fields_all_true rest⟩

end

mutual

/-- What is read from a derived table is read from its columns. -/
theorem all_readFrom {label : String} (hcolumn : ∀ name, value 0 (.columnOf label name)) :
    ∀ {b : Binding} {path : String} {ls : List Leaf}, b.leaves? path = some ls →
      (b.readFrom label path).All grouped value
  | .record .., _, _, _ => .record (fun _ _ => hcolumn _) _
  | .object _, _, _, h => .object (all_readFieldsFrom hcolumn h)
  | .scalar _, _, _, _ => .scalar (hcolumn _)
  | .group .., _, _, h => nomatch h

theorem all_readFieldsFrom {label : String} (hcolumn : ∀ name, value 0 (.columnOf label name)) :
    ∀ {fields : List (String × Binding)} {path : String} {ls : List Leaf},
      fieldLeaves? path fields = some ls →
        ∀ f ∈ readFieldsFrom label path fields, f.2.All grouped value
  | [], _, _, _ => nofun
  | (name, b) :: rest, path, ls, h => by
    obtain ⟨first, hfirst, h⟩ := Option.bind_eq_some_iff.1 h
    obtain ⟨others, hothers, -⟩ := Option.bind_eq_some_iff.1 h
    exact List.forall_mem_cons.2
      ⟨all_readFrom hcolumn hfirst, all_readFieldsFrom hcolumn hothers⟩

end

mutual

/-- A binding that can be selected has no groups and gives no values but its leaves. -/
theorem all_of_leaves? : ∀ {b : Binding} {path : String} {ls : List Leaf},
    b.leaves? path = some ls → (∀ l ∈ ls, value 0 l.scalar.expr) → b.All grouped value
  | .record .., _, _, h, hvalue => by
    cases h
    exact .record (fun _ hp => hvalue _ (List.mem_map_of_mem hp)) _
  | .object _, _, _, h, hvalue => .object (all_of_fieldLeaves? h hvalue)
  | .scalar _, _, _, h, hvalue => by
    cases h
    exact .scalar (hvalue _ List.mem_cons_self)
  | .group .., _, _, h, _ => nomatch h

theorem all_of_fieldLeaves? : ∀ {fields : List (String × Binding)} {path : String}
    {ls : List Leaf}, fieldLeaves? path fields = some ls → (∀ l ∈ ls, value 0 l.scalar.expr) →
      ∀ f ∈ fields, f.2.All grouped value
  | [], _, _, _, _ => nofun
  | (name, b) :: rest, path, ls, h, hvalue => by
    obtain ⟨first, hfirst, h⟩ := Option.bind_eq_some_iff.1 h
    obtain ⟨others, hothers, h⟩ := Option.bind_eq_some_iff.1 h
    rw [← Option.some.inj h, List.forall_mem_append] at hvalue
    exact List.forall_mem_cons.2
      ⟨all_of_leaves? hfirst hvalue.1, all_of_fieldLeaves? hothers hvalue.2⟩

end

/-- The values that a binding gives meet a standard. Elements of groups only stand in aggregates, so
nothing is asked of them where these are exempt. -/
def Meets (std : Standard) (place : Place) : Binding → Prop :=
  All (fun _ => True) fun
    | 0, e => e.Meets std place
    | _ + 1, e => std.Spares ∨ e.Meets std place

variable {std std' : Standard} {place place' : Place}

theorem Meets.imp (h : b.Meets std place) (hspares : std.Spares → std'.Spares)
    (hmeets : ∀ {e : SqlExpr}, e.Meets std place → e.Meets std' place') : b.Meets std' place' := by
  refine All.imp h (fun _ => id) fun n e he => ?_
  cases n with
  | zero => exact hmeets he
  | succ n => exact Or.imp hspares hmeets he

theorem Meets.inGroups {key element : Binding} (hkey : key.Meets std place)
    (helement : element.Meets std place) : (Binding.group key element).Meets std place := by
  refine .group trivial hkey (All.imp helement (fun _ => id) fun n e he => ?_)
  cases n with
  | zero => exact .inr he
  | succ n => exact he

theorem meets_group (hspares : std.Spares) {key : Binding} (hkey : key.Meets std place)
    (element : Binding) : (Binding.group key element).Meets std place :=
  .group trivial hkey (element.all_true.imp (fun _ => id) fun _ _ _ => .inl hspares)

theorem Meets.element {key element : Binding} (h : (Binding.group key element).Meets std place)
    (hspares : ¬ std.Spares) : element.Meets std place := by
  cases h with
  | group _ _ helement =>
    refine helement.imp (fun _ => id) fun n e he => ?_
    cases n with
    | zero => exact he.resolve_left hspares
    | succ n => exact he

end Binding

end SequenceQuery
