import SequenceQuery.Form.Meaning
import SequenceQuery.Proofs.Building
import SequenceQuery.Proofs.Scoping

namespace SequenceQuery

def Surroundings.Calls (env : Surroundings) (name : String) : Prop :=
  name = "COALESCE" ∨ (∃ portable, env.dialect.functionName portable = some name) ∨
    env.dialect.capabilities.passthroughFunctions = true

/-- The expressions that the form of a query with these nodes is written with. A segment call takes
the slot of its argument and the one behind it; the segment of the query is read only at its
marker. -/
inductive SqlExpr.Written (env : Surroundings) (ns : List Expr) (p : Progress) : SqlExpr → Prop
  | column (label name : String) : Written env ns p (.columnOf label name)
  | null : Written env ns p (.literal .null)
  | bool (b : Bool) : Written env ns p (.literal (.bool b))
  | anyText : Written env ns p (.literal (.text "%"))
  | count {n : Int64} (h : n ∈ [0, 1, 2]) : Written env ns p (.int n)
  | slot {id : NodeId} {k : Nat} (h : env.slot? id = some k) : Written env ns p (.param (.slot k))
  | slotBehind {i : NodeId} {source argument : Expr} {rest : List Expr} {k : Nat}
    (hcall : .call i .segment (source :: argument :: rest) ∈ ns)
    (h : env.slot? argument.id = some k) : Written env ns p (.param (.slot (k + 1)))
  | segmentStart (hmarker : env.marker.isSome) (h : p.segmentUsed = true) :
    Written env ns p (.param .segmentStart)
  | segmentLength (hmarker : env.marker.isSome) (h : p.segmentUsed = true) :
    Written env ns p (.param .segmentLength)
  | binary (op : SqlBinary) (left right : SqlExpr) : Written env ns p (.binary op left right)
  | unary (op : SqlUnary) (operand : SqlExpr) : Written env ns p (.unary op operand)
  | function {name : String} (h : env.Calls name) (args : List SqlExpr) :
    Written env ns p (.function name args)
  | aggregate {name : String} (h : name ∈ ["COUNT", "SUM", "MIN", "MAX", "AVG"])
    (args : List SqlExpr) : Written env ns p (.aggregateOf name args)
  | cases (arms : List (SqlExpr × SqlExpr)) (otherwise : Option SqlExpr) :
    Written env ns p (.cases arms otherwise)
  | subquery {query : Select} (h : query.items.length = 1) : Written env ns p (.subquery query)
  | exist (query : Select) (negated : Bool) : Written env ns p (.exist query negated)
  | isIn (operand : SqlExpr) {query : Select} (h : query.items.length = 1) :
    Written env ns p (.isIn operand query false)
  | isNull (operand : SqlExpr) (negated : Bool) : Written env ns p (.isNull operand negated)

theorem SqlExpr.Written.mono {env : Surroundings} {ns : List Expr} {p q : Progress} (h : p ≤ q) :
    SqlExpr.Written env ns p ≤ SqlExpr.Written env ns q := by
  intro e he
  cases he with
  | segmentStart hmarker hp => exact .segmentStart hmarker (h.2 hp)
  | segmentLength hmarker hp => exact .segmentLength hmarker (h.2 hp)
  | slotBehind hcall hslot => exact .slotBehind hcall hslot
  | _ => constructor <;> assumption

namespace Site

def upTo (site : Site) (p : Progress) : Site :=
  ⟨site.visible, fun l => site.free l ∧ ∃ k, k < p.nextLabel ∧ l = labelAt k⟩

def Open (site : Site) (p : Progress) : Prop := ∀ k, p.nextLabel ≤ k → site.free (labelAt k)

def NewFrom (p : Progress) (tables : List Table) : Prop :=
  ∀ t ∈ tables, ∃ k, p.nextLabel ≤ k ∧ t.label = labelAt k

variable {a b : Site} {p q : Progress} {tables more : List Table}

theorem upTo_mono (hs : a ≤ b) (hpq : p ≤ q) : a.upTo p ≤ b.upTo q :=
  ⟨hs.1, fun _ ⟨hfree, k, hk, hl⟩ => ⟨hs.2 _ hfree, k, Nat.lt_of_lt_of_le hk hpq.1, hl⟩⟩

theorem not_mem_of_newFrom (h : NewFrom p tables) {k : Nat} (hk : k < p.nextLabel) :
    labelAt k ∉ tables.map Table.label := by
  intro hmem
  obtain ⟨t, ht, hlabel⟩ := List.mem_map.1 hmem
  obtain ⟨j, hj, hlabel'⟩ := h t ht
  have := labelAt_inj (hlabel'.symm.trans hlabel)
  omega

/-- Tables that are labelled later leave room for what was there before. -/
theorem upTo_le_beside (h : NewFrom p tables) (hpq : p ≤ q) :
    a.upTo p ≤ (a.beside tables).upTo q := by
  refine ⟨List.Subset.refl _, ?_⟩
  rintro l ⟨hfree, k, hk, rfl⟩
  exact ⟨⟨hfree, not_mem_of_newFrom h hk⟩, k, Nat.lt_of_lt_of_le hk hpq.1, rfl⟩

theorem upTo_le_within (h : NewFrom p tables) (hpq : p ≤ q) :
    a.upTo p ≤ (a.within tables).upTo q :=
  ⟨List.subset_append_right _ _, (upTo_le_beside (a := a) h hpq).2⟩

theorem upTo_beside (site : Site) (p : Progress) (tables : List Table) :
    (site.upTo p).beside tables = (site.beside tables).upTo p := by
  simp only [upTo, beside, and_right_comm]

theorem upTo_within (site : Site) (p : Progress) (tables : List Table) :
    (site.upTo p).within tables = (site.within tables).upTo p := by
  rw [within, upTo_beside, within]
  rfl

theorem beside_append (site : Site) (tables more : List Table) :
    site.beside (tables ++ more) = (site.beside tables).beside more := by
  simp only [beside, List.map_append, List.mem_append, not_or, and_assoc]

theorem beside_within_le (site : Site) (tables more : List Table) :
    (site.beside tables).within more ≤ site.within (tables ++ more) := by
  refine ⟨?_, fun l hl => ?_⟩
  · simp [within, beside, seeing]
  · rw [within, beside_append]
    exact hl

theorem beside_append_ge (h : NewFrom p more) (hpq : p ≤ q) :
    (a.beside tables).upTo p ≤ (a.beside (tables ++ more)).upTo q := by
  rw [beside_append]
  exact upTo_le_beside h hpq

theorem within_append_ge (h : NewFrom p more) (hpq : p ≤ q) :
    (a.within tables).upTo p ≤ (a.within (tables ++ more)).upTo q := by
  refine ⟨?_, ?_⟩
  · simp [within, beside, seeing, upTo]
  · exact (beside_append_ge (a := a) h hpq).2

theorem Open.mono (h : a.Open p) (hpq : p ≤ q) : a.Open q :=
  fun k hk => h k (Nat.le_trans hpq.1 hk)

theorem Open.beside (h : a.Open p) (hpq : p ≤ q) (ht : ∀ t ∈ tables, p.GivesOut q t.label) :
    (a.beside tables).Open q := by
  refine fun k hk => ⟨h k (Nat.le_trans hpq.1 hk), fun hmem => ?_⟩
  obtain ⟨t, hmem, hlabel⟩ := List.mem_map.1 hmem
  obtain ⟨j, -, hj, hlabel'⟩ := ht t hmem
  have := labelAt_inj (hlabel'.symm.trans hlabel)
  omega

end Site

theorem Progress.GivesOut.mono {p p' q q' : Progress} {label : String} (h : p'.GivesOut q label)
    (hp : p ≤ p') (hq : q ≤ q') : p.GivesOut q' label := by
  obtain ⟨k, hk, hk', hlabel⟩ := h
  exact ⟨k, Nat.le_trans hp.1 hk, Nat.lt_of_lt_of_le hk' hq.1, hlabel⟩

theorem Progress.GivesOut.newFrom {p q : Progress} {tables : List Table}
    (h : ∀ t ∈ tables, p.GivesOut q t.label) : Site.NewFrom p tables := by
  intro t ht
  obtain ⟨k, hk, -, hlabel⟩ := h t ht
  exact ⟨k, hk, hlabel⟩

section Fitting

variable (env : Surroundings) (ns : List Expr) (site : Site) (p : Progress)

def SqlExpr.Fits (e : SqlExpr) : Prop :=
  e.Scoped env.catalog (SqlExpr.Written env ns p) (site.upTo p)

def Select.Fits (s : Select) : Prop :=
  s.Scoped env.catalog (SqlExpr.Written env ns p) (site.upTo p)

mutual

def Binding.Fits : Binding → Prop
  | .record label entity columnPrefix _ => ∃ t ∈ site.visible, t.label = label ∧
    ∀ property ∈ entity.properties, t.Offers env.catalog (columnPrefix ++ property.column)
  | .object fields => fieldsFit fields
  | .scalar s => s.expr.Fits env ns site p
  | .group key element => key.Fits ∧ element.Fits

def fieldsFit : List (String × Binding) → Prop
  | [] => True
  | (_, b) :: rest => b.Fits ∧ fieldsFit rest

end

structure Scope.Fits (scope : Scope) : Prop where
  labels : site.Open p
  bindings : ∀ entry ∈ scope, entry.2.Fits env ns site p

structure Rows.Fits (start : Progress) (rows : Rows) : Prop where
  items : rows.select.items = []
  select : rows.select.Fits env ns site p
  labels : ∀ t ∈ rows.select.tables, start.GivesOut p t.label
  row : rows.row.Fits env ns (site.within rows.select.tables) p

def Terminal.Fits : Terminal → Prop
  | .single select row _ _ =>
    select.Fits env ns site p ∧ ∀ s, row = .scalar s → select.items.length = 1
  | .exist select _ => select.Fits env ns site p
  | .scalar select _ => select.Fits env ns site p ∧ select.items.length = 1
  | .isIn value select =>
    value.Fits env ns site p ∧ select.Fits env ns site p ∧ select.items.length = 1

end Fitting

section

variable {env : Surroundings} {ns : List Expr} {site site' : Site} {p q : Progress}

theorem SqlExpr.Fits.mono (hpq : p ≤ q) (hs : site.upTo p ≤ site'.upTo q) {e : SqlExpr}
    (h : e.Fits env ns site p) : e.Fits env ns site' q :=
  SqlExpr.Scoped.mono (SqlExpr.Written.mono hpq) hs h

mutual

theorem Binding.Fits.mono (hpq : p ≤ q) (hs : site.upTo p ≤ site'.upTo q) :
    ∀ {b : Binding}, b.Fits env ns site p → b.Fits env ns site' q
  | .record .., ⟨t, ht, h⟩ => ⟨t, hs.1 ht, h⟩
  | .object _, h => fieldsFit_mono hpq hs h
  | .scalar _, h => SqlExpr.Fits.mono hpq hs h
  | .group .., ⟨hkey, helement⟩ =>
    ⟨Binding.Fits.mono hpq hs hkey, Binding.Fits.mono hpq hs helement⟩

theorem fieldsFit_mono (hpq : p ≤ q) (hs : site.upTo p ≤ site'.upTo q) :
    ∀ {fields : List (String × Binding)}, fieldsFit env ns site p fields →
      fieldsFit env ns site' q fields
  | [], _ => trivial
  | (_, _) :: _, ⟨hb, hrest⟩ => ⟨Binding.Fits.mono hpq hs hb, fieldsFit_mono hpq hs hrest⟩

end

theorem SqlExpr.Fits.later {e : SqlExpr} (h : e.Fits env ns site p) (hpq : p ≤ q) :
    e.Fits env ns site q :=
  h.mono hpq (Site.upTo_mono le_rfl hpq)

theorem Binding.Fits.later {b : Binding} (h : b.Fits env ns site p) (hpq : p ≤ q) :
    b.Fits env ns site q :=
  h.mono hpq (Site.upTo_mono le_rfl hpq)

theorem fieldsFit_iff {fields : List (String × Binding)} :
    fieldsFit env ns site p fields ↔ ∀ field ∈ fields, field.2.Fits env ns site p := by
  induction fields with
  | nil => simp [fieldsFit]
  | cons field fields ih => simp [fieldsFit, ih]

theorem Scope.Fits.mono {scope : Scope} (h : scope.Fits env ns site p) (hpq : p ≤ q) :
    scope.Fits env ns site q where
  labels := h.labels.mono hpq
  bindings entry he := (h.bindings entry he).later hpq

theorem Scope.Fits.beside {scope : Scope} (h : scope.Fits env ns site p) (hpq : p ≤ q)
    {tables : List Table} (ht : ∀ t ∈ tables, p.GivesOut q t.label) :
    scope.Fits env ns (site.beside tables) q where
  labels := h.labels.beside hpq ht
  bindings entry he :=
    (h.bindings entry he).mono hpq (Site.upTo_le_beside (Progress.GivesOut.newFrom ht) hpq)

theorem Scope.Fits.within {scope : Scope} (h : scope.Fits env ns site p) (hpq : p ≤ q)
    {tables : List Table} (ht : ∀ t ∈ tables, p.GivesOut q t.label) :
    scope.Fits env ns (site.within tables) q where
  labels := h.labels.beside hpq ht
  bindings entry he :=
    (h.bindings entry he).mono hpq (Site.upTo_le_within (Progress.GivesOut.newFrom ht) hpq)

end

end SequenceQuery
