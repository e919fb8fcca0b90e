import SequenceQuery.Proofs.DetectionDrafts

namespace SequenceQuery

variable {P : Select → Prop} {place place' : Place} {e : SqlExpr} {s : Select}

/-- What is asked of each statement is the same wherever it stands. -/
theorem Standard.Meets.elsewhere {x : Fragment} (h : (Standard.ofEach P).Meets place x) :
    (Standard.ofEach P).Meets place' x :=
  h.imp (R := fun _ _ => True) (fun _ _ _ => trivial) (fun _ _ => trivial) (fun _ => id)
    (fun _ h => h) trivial

theorem SqlExpr.anywhere_iff (h : e.isColumn = false) : e.Anywhere P ↔
    (∀ part ∈ e.parts, part.Anywhere P) ∧ ∀ q ∈ e.queries, q.Anywhere P := by
  constructor
  · intro h
    cases h .outermost with
    | exempt h => cases h
    | expr _ hparts hqueries =>
      exact ⟨fun part hpart _ => (hparts part hpart).elsewhere,
        fun q hq _ => (hqueries q hq).elsewhere⟩
  · rintro ⟨hparts, hqueries⟩ place
    refine .expr (fun table name heq => ?_) (fun part hpart => hparts part hpart place)
      fun q hq => hqueries q hq place
    rw [heq] at h
    cases h

theorem Select.anywhere_iff : s.Anywhere P ↔ P s ∧ (∀ q ∈ s.derived, q.Anywhere P) ∧
    (∀ e ∈ s.rowExprs, e.Anywhere P) ∧ ∀ e ∈ s.resultExprs, e.Anywhere P := by
  constructor
  · intro h
    cases h .outermost with
    | select hs hderived hrows hresults =>
      exact ⟨hs, fun q hq _ => (hderived q hq).elsewhere, fun e he _ => (hrows e he).elsewhere,
        fun e he _ => (hresults e he).elsewhere⟩
  · rintro ⟨hs, hderived, hrows, hresults⟩ place
    exact .select hs (fun q hq => hderived q hq _) (fun e he => hrows e he _)
      fun e he => hresults e he _

/-- No test of a sequence is a column. -/
def Select.SelectsNoTest (s : Select) : Prop := ∀ e ∈ s.selected, e.isTest = false

open Classical in
noncomputable def SqlExpr.selectsTest (e : SqlExpr) : Bool := decide (¬e.Anywhere Select.SelectsNoTest)

open Classical in
noncomputable def Select.selectsTest (s : Select) : Bool := decide (¬s.Anywhere Select.SelectsNoTest)

theorem SqlExpr.selectsTest_iff : e.selectsTest = true ↔ ¬e.Anywhere Select.SelectsNoTest := by
  simp [selectsTest]

theorem Select.selectsTest_iff : s.selectsTest = true ↔ ¬s.Anywhere SelectsNoTest := by
  simp [selectsTest]

theorem SqlExpr.selectsTest_eq (h : e.isColumn = false) :
    e.selectsTest = (e.parts.any selectsTest || e.queries.any Select.selectsTest) := by
  rw [Bool.eq_iff_iff, selectsTest_iff, anywhere_iff h]
  simp [selectsTest_iff, Select.selectsTest_iff, imp_iff_not_or]

theorem Select.selectsTest_eq (s : Select) : s.selectsTest =
    (s.selected.any (fun e => e.selectsTest || true && e.isTest) ||
      s.orderBy.any (fun k => k.expr.selectsTest) ||
      s.anyClause (fun t => t.query?.any selectsTest) SqlExpr.selectsTest) := by
  have hparts : s.selectsTest = (s.selected.any SqlExpr.isTest || s.derived.any selectsTest ||
      s.rowExprs.any SqlExpr.selectsTest || s.resultExprs.any SqlExpr.selectsTest) := by
    rw [Bool.eq_iff_iff, selectsTest_iff, anywhere_iff, SelectsNoTest]
    simp [selectsTest_iff, SqlExpr.selectsTest_iff, imp_iff_not_or, or_assoc]
  rw [hparts]
  simp only [Bool.true_and, derived, tables, rowExprs, resultExprs, anyClause, any_or, any_toList,
    any_filterMap, List.any_append, List.any_map, List.filterMap_append, Function.comp_def]
  generalize s.selected.any SqlExpr.isTest = b
  ac_rfl

open SqlExpr in
/-- Tests that are selected as they are, at any depth. -/
noncomputable def Detector.test : Detector ⟨false, true⟩ where
  expr := SqlExpr.selectsTest
  table t := t.query?.any Select.selectsTest
  select := Select.selectsTest
  column label name := by simpa [selectsTest] using SqlExpr.Anywhere.column label name
  wildcard := selectsTest_eq rfl
  literal _ := selectsTest_eq rfl
  slot _ := selectsTest_eq rfl
  segmentStart := selectsTest_eq rfl
  segmentLength := selectsTest_eq rfl
  binary _ _ _ := (selectsTest_eq rfl).trans (by simp [parts, queries])
  unary _ _ := (selectsTest_eq rfl).trans (by simp [parts, queries])
  isNull _ _ := (selectsTest_eq rfl).trans (by simp [parts, queries])
  function _ _ := (selectsTest_eq rfl).trans (by simp [parts, queries])
  aggregateOf _ _ := (selectsTest_eq rfl).trans (by simp [SqlExpr.aggregateOf, parts, queries])
  cases _ _ otherwise := (selectsTest_eq rfl).trans (by
    cases otherwise <;> simp [parts, queries, Bool.or_assoc])
  subquery _ := (selectsTest_eq rfl).trans (by simp [parts, queries])
  exist _ _ := (selectsTest_eq rfl).trans (by simp [parts, queries])
  isIn _ _ _ := (selectsTest_eq rfl).trans (by simp [parts, queries])
  named _ _ _ := rfl
  derived _ _ := rfl
  statement := Select.selectsTest_eq

/-- Whether a test is selected as it is in the statement of a query. -/
def Expr.selectsTest (catalog : Catalog) (dialect : Dialect) (e : Expr) : Bool :=
  e.finds ⟨false, true⟩ (.ofExpr catalog dialect e)

end SequenceQuery
