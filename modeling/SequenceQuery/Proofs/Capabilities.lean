import SequenceQuery.Proofs.DetectedForms
import SequenceQuery.Proofs.DisciplinedForms
import SequenceQuery.Proofs.FormConstruction
import SequenceQuery.Proofs.Supplied
import SequenceQuery.Proofs.TestColumns

namespace SequenceQuery

namespace Expr

mutual

def showsTest : Expr → Bool
  | .call _ op _ => op.tests
  | .lambda _ _ body => body.showsTest
  | .member _ target _ => target.showsTest
  | .object _ fields => fieldsShowTest fields
  | _ => false

def fieldsShowTest : List (String × Expr) → Bool
  | [] => false
  | (_, e) :: rest => e.showsTest || fieldsShowTest rest

end

def shapers : Expr → List Expr
  | .call _ op args => op.shapedBy.filterMap (args[·]?)
  | _ => []

/-- Some rows in the query are made with a test of a sequence in them. -/
def projectsTest (e : Expr) : Bool := e.nodes.any fun n => n.shapers.any showsTest

theorem fieldsShowTest_of_mem {fields : List (String × Expr)} {f : String × Expr} (hf : f ∈ fields)
    (h : f.2.showsTest = true) : fieldsShowTest fields = true := by
  induction fields with
  | nil => cases hf
  | cons field fields ih =>
    rw [fieldsShowTest, Bool.or_eq_true]
    rcases List.mem_cons.1 hf with rfl | hf
    · exact .inl h
    · exact .inr (ih hf)

def takesRow (e : Expr) : Bool :=
  e.nodes.any fun
    | .call _ op _ => op.takesRow
    | _ => false

end Expr

/-- What a statement may be asked for. -/
structure Allowance where
  /-- Any pages. -/
  pages : Prop
  /-- The limit of a query for a single row. -/
  rows : Prop
  /-- A test of a sequence as a column. -/
  tests : Prop

namespace Allowance

structure Permits (a : Allowance) (s : Select) : Prop where
  offset : a.pages ∨ s.offset = none
  limit : a.pages ∨ ∀ l ∈ s.limit, a.rows ∧ (l = .int 1 ∨ l = .int 2)
  items : a.tests ∨ ∀ e ∈ s.selected, e.isTest = false

structure Covers (a : Allowance) (env : Surroundings) (ns : List Expr) : Prop where
  pages : env.dialect.capabilities.paging = true → a.pages
  rows : ∀ i op args, Expr.call i op args ∈ ns → op.takesRow = true → a.rows
  shaped : ∀ n ∈ ns, ∀ shaper ∈ n.shapers, shaper.showsTest = true → a.tests
  root : env.dialect.capabilities.existsProjection = true → a.tests

def Shows (shown : Prop) (b : Binding) : Prop :=
  b.All (fun _ => True) fun _ e => shown ∨ e.isTest = false

def demand (a : Allowance) : Demand where
  statement := a.Permits
  clauses s := a.pages ∨ s.limit = none ∧ s.offset = none
  row := Shows a.tests
  value node := Shows (a.tests ∨ node.showsTest = true)

variable {a : Allowance} {env : Surroundings} {ns : List Expr} {shown shown' : Prop} {b : Binding}

theorem Shows.imp (h : Shows shown b) (hshown : shown → shown') : Shows shown' b :=
  Binding.All.imp h (fun _ => id) fun _ _ he => he.imp_left hshown

theorem shows_scalar {s : Scalar} (h : s.expr.isTest = true → shown) : Shows shown (.scalar s) := by
  refine .scalar ?_
  cases htest : s.expr.isTest with
  | false => exact .inr rfl
  | true => exact .inl (h htest)

theorem Permits.of_clauses {s : Select} (h : a.demand.clauses s)
    (hitems : a.tests ∨ ∀ e ∈ s.selected, e.isTest = false) : a.Permits s where
  offset := h.imp_right And.right
  limit := h.imp_right fun hnone l hl => by rw [hnone.1] at hl; cases hl
  items := hitems

theorem Shows.items {ls : List Leaf} (h : Shows a.tests b) (hls : b.leaves? "" = some ls) :
    a.tests ∨ ∀ e ∈ (Rows.items ls).filterMap SelectItem.expr?, e.isTest = false := by
  by_cases htests : a.tests
  · exact .inl htests
  · rw [Rows.exprs_items]
    exact .inr (List.forall_mem_map.2 fun l hl =>
      (Binding.All.leaves? h hls l hl).resolve_left htests)

theorem single_noTest {e : SqlExpr} (h : e.isTest = false) :
    ∀ x ∈ [SelectItem.expr e none].filterMap SelectItem.expr?, x.isTest = false :=
  List.forall_mem_singleton.2 h

theorem Covers.discipline (h : a.Covers env ns) : Discipline env ns a.demand where
  entity _ _ _ := .record (fun _ _ => .inr rfl) _
  asOptional hb := hb.asOptional
  readFrom _ _ hls := Binding.all_readFrom (fun _ => .inr rfl) hls
  group hkey helement := .group trivial hkey helement
  element hgroup := by
    cases hgroup with
    | group _ _ helement => exact helement
  shaped hcall hk he hb := hb.imp fun hshown => hshown.elim id
    (h.shaped _ hcall _ (List.mem_filterMap.2 ⟨_, hk, he⟩))
  param hb := hb.imp .inl
  lambda hb := hb
  member hb hm := hb.member hm
  object _ _ hfields := .object fun f hf => by
    obtain ⟨e, he, hfield⟩ := hfields f hf
    exact hfield.imp (Or.imp_right fun hshows => Expr.fieldsShowTest_of_mem he hshows)
  computed hcomputed := shows_scalar fun htest => by
    obtain ⟨i, op, args, rfl, hop⟩ := hcomputed.tests htest
    exact .inr hop
  unpaged hlimit hoffset := .inr ⟨hlimit, hoffset⟩
  samePages hs hlimit hoffset :=
    hs.imp_right fun hnone => ⟨hlimit.trans hnone.1, hoffset.trans hnone.2⟩
  paging hpaging _ := .inl (h.pages hpaging)
  projected hb hls _ hs := .of_clauses hs (hb.items hls)
  limited hcall hop hn hb hls _ hs := by
    refine ⟨hs.imp_right And.right, .inr ?_, hb.items hls⟩
    rintro _ ⟨⟩
    obtain rfl | rfl := by simpa using hn
    · exact ⟨h.rows _ _ _ hcall hop, .inl rfl⟩
    · exact ⟨h.rows _ _ _ hcall hop, .inr rfl⟩
  single htest hs := by
    refine .of_clauses hs ?_
    exact htest.symm.imp h.root single_noTest
  singleRow hrow hs := by
    refine .of_clauses hs ?_
    cases hrow with
    | scalar hv => exact hv.imp_right single_noTest

end Allowance

def Dialect.allowance (d : Dialect) (e : Expr) : Allowance where
  pages := d.capabilities.paging = true
  rows := e.takesRow = true
  tests := d.capabilities.existsProjection = true ∨ e.projectsTest = true

theorem Dialect.allowance_covers (catalog : Catalog) (d : Dialect) (e : Expr) :
    (d.allowance e).Covers (.ofExpr catalog d e) e.nodes where
  pages := id
  rows _ _ _ hcall htakes := List.any_eq_true.2 ⟨_, hcall, htakes⟩
  shaped n hn shaper hshaper hshows :=
    .inr (List.any_eq_true.2 ⟨n, hn, List.any_eq_true.2 ⟨shaper, hshaper, hshows⟩⟩)
  root := .inl

namespace Form

variable {catalog : Catalog} {d : Dialect} {e : Expr} {f : Form}

theorem permitted_ofExpr (h : ofExpr catalog d e = .ok f) :
    f.select.Anywhere (d.allowance e).Permits :=
  anywhere_ofExpr (d.allowance_covers catalog e).discipline h

/-- Every function that a form calls is one that may be called. -/
theorem calls_ofExpr (h : ofExpr catalog d e = .ok f) {name : String} {args : List SqlExpr}
    (hpiece : .expr (.function name args) ∈ f.select.pieces) :
    Surroundings.Calls (.ofExpr catalog d e) name := by
  obtain ⟨p, hfits, -, -⟩ := fits_ofExpr h
  rcases hfits.allHold _ hpiece with hstar | hstands
  · cases hstar
  · cases hstands.1 with
    | function hcalls _ => exact hcalls

/-- A test is a column somewhere in a form exactly if one is left in its statement. -/
theorem selectsTest_ofExpr (h : ofExpr catalog d e = .ok f) :
    f.select.Meets (.ofEach Select.SelectsNoTest) .outermost ↔ e.selectsTest catalog d = false := by
  have hfinds : f.select.selectsTest = e.selectsTest catalog d := finds_ofExpr .test h
  rw [← hfinds, ← Bool.not_eq_true, Select.selectsTest_iff, not_not]
  exact ⟨fun hmeets _ => hmeets.elsewhere, fun hmeets => hmeets _⟩

/-- What a dialect cannot do is not asked of it at any depth of a form, with two exceptions. A query
that takes a single row has a limit of one or two, and a test of a sequence is selected as it is
where one is left in the rows of the query, which are then made with it. -/
theorem keeps_to_capabilities (h : ofExpr catalog d e = .ok f) :
    f.select.Meets (.each fun _ s =>
      (d.capabilities.paging = false → s.offset = none ∧
        ∀ l ∈ s.limit, e.takesRow = true ∧ (l = .int 1 ∨ l = .int 2)) ∧
      (d.capabilities.existsProjection = false → e.projectsTest = false →
        ∀ e ∈ s.selected, e.isTest = false)) .outermost ∧
    (f.select.Meets (.each fun _ s => ∀ e ∈ s.selected, e.isTest = false) .outermost ↔
      e.selectsTest catalog d = false) ∧
    (d.capabilities.passthroughFunctions = false → ∀ name args,
      .expr (.function name args) ∈ f.select.pieces →
        name = "COALESCE" ∨ ∃ portable, d.functionName portable = some name) := by
  refine ⟨(permitted_ofExpr h .outermost).weaken (fun _ => trivial) False.elim ?_,
    selectsTest_ofExpr h, ?_⟩
  · intro _ s hs
    refine ⟨fun hpaging => ?_, fun hprojection hquery => ?_⟩
    · have hpages : ¬(d.allowance e).pages := by simp [Dialect.allowance, hpaging]
      exact ⟨hs.offset.resolve_left hpages, hs.limit.resolve_left hpages⟩
    · have htests : ¬(d.allowance e).tests := by simp [Dialect.allowance, hprojection, hquery]
      exact hs.items.resolve_left htests
  · intro hfunctions name args hpiece
    rcases calls_ofExpr h hpiece with hname | hname | hpass
    · exact .inl hname
    · exact .inr hname
    · exact absurd hpass (ne_true_of_eq_false hfunctions)

def plain : Dialect := { Postgres.dialect false with capabilities := ⟨false, false, false⟩ }

/-- `Person.Where(p => to_upper(p.Name) == p.City).Any()`. -/
def anyUpper : Expr :=
  .call 0 .any [.call 1 .filter [.entity 2 "Person", .lambda 3 ["p"] (.binary 4 .equal
    (.function 5 "to_upper" [.member 6 (.param 7 "p") "Name"]) (.member 8 (.param 9 "p") "City"))]]

theorem keeps_to_capabilities_anyUpper :
    ∃ f, ofExpr residents plain anyUpper = .ok f ∧
      f.select.Meets (.each fun _ s => s.offset = none ∧ s.limit = none ∧
        ∀ e ∈ s.selected, e.isTest = false) .outermost ∧
      ∀ name args, .expr (.function name args) ∈ f.select.pieces →
        name = "COALESCE" ∨ ∃ portable, plain.functionName portable = some name := by
  have haccepted : (ofExpr residents plain anyUpper).isOk = true := by decide +kernel
  cases hf : ofExpr residents plain anyUpper with
  | error failure =>
    rw [hf] at haccepted
    cases haccepted
  | ok f =>
    have hkeeps := keeps_to_capabilities hf
    refine ⟨f, rfl, hkeeps.1.weaken (fun _ => trivial) False.elim ?_, hkeeps.2.2 rfl⟩
    rintro _ s ⟨hpaging, htests⟩
    refine ⟨(hpaging rfl).1, Option.eq_none_iff_forall_not_mem.2 fun l hl => ?_, htests rfl rfl⟩
    exact absurd ((hpaging rfl).2 l hl).1 (by decide)

/-- `Person.First()`. -/
def firstPerson : Expr := .call 0 .first [.entity 1 "Person"]

/-- `Person.Select(p => Person.Where(q => q.City == p.Name).Any())`. -/
def testOfEach : Expr :=
  .call 0 .project [.entity 1 "Person", .lambda 2 ["p"] (.call 3 .any [.call 4 .filter
    [.entity 5 "Person", .lambda 6 ["q"] (.binary 7 .equal (.member 8 (.param 9 "q") "City")
      (.member 10 (.param 11 "p") "Name"))]])]

theorem not_keeps_to_capabilities_firstPerson_testOfEach :
    (∃ f, ofExpr residents plain firstPerson = .ok f ∧ f.select.limit = some (.int 1)) ∧
      ∃ f, ofExpr residents plain testOfEach = .ok f ∧ ∃ e ∈ f.select.selected, e.isTest = true :=
  ⟨⟨_, rfl, rfl⟩, _, rfl, _, List.mem_cons_self, rfl⟩

end Form

end SequenceQuery
