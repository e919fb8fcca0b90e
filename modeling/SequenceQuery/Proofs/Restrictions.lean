import SequenceQuery.Proofs.Building
import SequenceQuery.Proofs.Candidates
import SequenceQuery.Proofs.Wrapping

namespace SequenceQuery

namespace Rows

variable {rows base base' : Rows} {node node' : Expr} {s s' : Select} {p q q' : Progress}

theorem project_ok : rows.project node = .ok s ↔
    ∃ ls, rows.row.columns node = .ok ls ∧ s = { rows.select with items := items ls } := by
  rw [project]
  cases rows.row.columns node with
  | error e =>
    constructor
    · intro h
      cases h
    · rintro ⟨_, hls, -⟩
      cases hls
  | ok ls =>
    constructor
    · intro h
      exact ⟨ls, rfl, (Except.ok.inj h).symm⟩
    · rintro ⟨_, hls, rfl⟩
      cases hls
      rfl

theorem project_at (h : rows.project node = .ok s) (node' : Expr) : rows.project node' = .ok s := by
  obtain ⟨ls, hls, rfl⟩ := project_ok.1 h
  refine project_ok.2 ⟨ls, ?_, rfl⟩
  obtain ⟨hleaves, hnodup⟩ := Binding.leaves_of_columns hls
  exact Binding.columns_of_leaves hleaves hnodup

theorem project_node (h : rows.project node = .ok s) (h' : rows.project node' = .ok s') :
    s = s' :=
  Except.ok.inj ((project_at h node').symm.trans h')

theorem wrap_ok : (rows.wrap node).run p = .ok (base, q) ↔
    ∃ s, rows.project node = .ok s ∧ q = { p with nextLabel := p.nextLabel + 1 } ∧
      base = ⟨{ Select.ofTable (.subquery s (labelAt p.nextLabel)) with origin := some node },
        rows.row.readFrom (labelAt p.nextLabel) ""⟩ := by
  simp only [wrap, Build.run_bind_ok, Build.run_lift_ok, Build.run_freshLabel_ok,
    Build.run_pure_ok]
  constructor
  · rintro ⟨s, _, ⟨hs, rfl⟩, label, _, ⟨rfl, rfl⟩, rfl, rfl⟩
    exact ⟨s, hs, rfl, rfl⟩
  · rintro ⟨s, hs, rfl, rfl⟩
    exact ⟨s, p, ⟨hs, rfl⟩, _, _, ⟨rfl, rfl⟩, rfl, rfl⟩

theorem wrapIf_cases {condition : Bool}
    (h : (rows.wrapIf condition node).run p = .ok (base, q)) :
    condition = false ∧ base = rows ∧ q = p ∨
      condition = true ∧ (rows.wrap node).run p = .ok (base, q) := by
  cases condition with
  | false =>
    obtain ⟨rfl, rfl⟩ := Build.run_pure_ok.1 h
    exact .inl ⟨rfl, rfl, rfl⟩
  | true => exact .inr ⟨rfl, h⟩

theorem holds_of_wrapIf {condition : Bool} {Q : Select → Prop}
    (hopen : ∀ s : Select, s.IsOpen → Q s) (hstays : condition = false → Q rows.select)
    (h : (rows.wrapIf condition node).run p = .ok (base, q)) : Q base.select := by
  have hwrapped : ∀ table origin, Q { Select.ofTable table with origin := origin } :=
    fun _ _ => hopen _ ⟨rfl, rfl, rfl⟩
  exact (builds_wrapIf node hstays hwrapped base q h).2

theorem unpaged_of_wrapIf
    (h : (rows.wrapIf rows.select.hasPaging node).run p = .ok (base, q)) :
    base.select.limit = none ∧ base.select.offset = none :=
  holds_of_wrapIf (Q := fun s => s.limit = none ∧ s.offset = none)
    (fun _ h => ⟨h.limit, h.offset⟩) Select.unpaged_of h

theorem eq_ofOrigin (rows : Rows) :
    rows = ⟨{ rows.select with origin := rows.select.origin }, rows.row⟩ := by
  obtain ⟨⟨⟩, row⟩ := rows
  rfl

theorem wrapIf_node {condition : Bool} (h : (rows.wrapIf condition node).run p = .ok (base, q))
    (h' : (rows.wrapIf condition node').run p = .ok (base', q')) :
    q = q' ∧ ∃ origin, base' = ⟨{ base.select with origin := origin }, base.row⟩ := by
  obtain ⟨rfl, rfl, rfl⟩ | ⟨rfl, h⟩ := wrapIf_cases h
  · obtain ⟨-, rfl, rfl⟩ | ⟨⟨⟩, -⟩ := wrapIf_cases h'
    exact ⟨rfl, _, eq_ofOrigin _⟩
  · obtain ⟨s, hs, rfl, rfl⟩ := wrap_ok.1 h
    obtain ⟨s', hs', rfl, rfl⟩ := wrap_ok.1 h'
    rw [project_node hs hs']
    exact ⟨rfl, _, rfl⟩

/-- Aggregates are computed of groups only. What is no group, of a statement without keys to group by,
holds none and is restricted by none. -/
def AggregatesGroups (rows : Rows) : Prop :=
  rows.row.isGroup = false → rows.select.hasGroups = false →
    rows.select.having = none ∧ rows.row.isPlain

theorem isGroup_of_project (h : rows.project node = .ok s) : rows.row.isGroup = false := by
  obtain ⟨ls, hls, -⟩ := project_ok.1 h
  have hleaves := (Binding.leaves_of_columns hls).1
  cases hrow : rows.row with
  | group key element =>
    rw [hrow] at hleaves
    cases hleaves
  | _ => rfl

namespace AggregatesGroups

theorem aggregatesAll (h : rows.AggregatesGroups) (hsingle : rows.row.isGroup = false)
    {items : List SelectItem} (hitems : rows.row.isPlain → items.any SelectItem.hasAggregate = false) :
    ({ rows.select with items := items } : Select).aggregatesAll = false := by
  cases hgroups : rows.select.hasGroups with
  | true =>
    show (!rows.select.hasGroups && _) = false
    rw [hgroups]
    rfl
  | false =>
    obtain ⟨hhaving, hrow⟩ := h hsingle hgroups
    show (_ && (items.any _ || rows.select.having.isSome)) = false
    rw [hitems hrow, hhaving]
    exact Bool.and_false _

theorem project (h : rows.AggregatesGroups) (hs : rows.project node = .ok s) :
    s.aggregatesAll = false := by
  have hsingle := isGroup_of_project hs
  obtain ⟨ls, hls, rfl⟩ := project_ok.1 hs
  exact h.aggregatesAll hsingle fun hrow =>
    any_hasAggregate_items hrow (Binding.leaves_of_columns hls).1

end AggregatesGroups

theorem orderedOnlyIfPaged_eq (rows : Rows) : ∃ orderBy,
    rows.orderedOnlyIfPaged = ⟨{ rows.select with orderBy := orderBy }, rows.row⟩ := by
  rw [orderedOnlyIfPaged]
  split
  · obtain ⟨⟨⟩, row⟩ := rows
    exact ⟨_, rfl⟩
  · exact ⟨[], rfl⟩

/-- Whether anything is returned is the same whatever single value is selected and in whatever
order. -/
theorem candidates_selecting (engine : Engine) (db : Database) (arguments : Arguments)
    (outer : Env) (rows : Rows) (e : SqlExpr) :
    (rows.orderedOnlyIfPaged.selecting e).candidates engine db arguments outer =
      rows.select.candidates engine db arguments outer := by
  obtain ⟨orderBy, heq⟩ := rows.orderedOnlyIfPaged_eq
  rw [heq]
  rfl

theorem AggregatesGroups.selecting {rows : Rows} (h : rows.AggregatesGroups)
    (hsingle : rows.row.isGroup = false) {e : SqlExpr} (he : e.hasAggregate = false) :
    (rows.orderedOnlyIfPaged.selecting e).aggregatesAll = false := by
  obtain ⟨orderBy, heq⟩ := rows.orderedOnlyIfPaged_eq
  rw [heq]
  have hitems : [SelectItem.expr e none].any SelectItem.hasAggregate = false := by
    simp only [List.any_cons, SelectItem.hasAggregate, he, List.any_nil, Bool.or_false]
  exact h.aggregatesAll hsingle fun _ => hitems

theorem isGroup_wrap (h : (rows.wrap node).run p = .ok (base, q)) : base.row.isGroup = false := by
  obtain ⟨s, hs, -, rfl⟩ := wrap_ok.1 h
  obtain ⟨ls, hls, -⟩ := project_ok.1 hs
  exact Binding.isGroup_of_isPlain
    (Binding.isPlain_readFrom _ _ (Binding.leaves_of_columns hls).1)

end Rows

namespace Rows

/-- The rows that a predicate is asked of, read from a derived table where the statement would do
more after it. Groups are asked as they are. -/
def wrapForPredicate (rows : Rows) (node : Expr) : Build Rows :=
  rows.wrapIf (!rows.row.isGroup &&
    (rows.select.hasPaging || rows.select.distinct || rows.select.hasGroups)) node

def restrictedBy (rows : Rows) (e : SqlExpr) : Rows :=
  ⟨if rows.row.isGroup then rows.select.havingBy e else rows.select.filterBy e, rows.row⟩

structure IsRestrictable (rows : Rows) : Prop where
  isOpen : rows.select.IsOpen
  groups : rows.row.isGroup = false → rows.select.hasGroups = false

variable {rows : Rows} {e : SqlExpr}

theorem row_restrictedBy : (rows.restrictedBy e).row = rows.row := rfl

theorem hasGroups_restrictedBy :
    (rows.restrictedBy e).select.hasGroups = rows.select.hasGroups := by
  rw [restrictedBy]
  cases rows.row.isGroup <;> rfl

theorem AggregatesGroups.restrictedBy (h : rows.AggregatesGroups) :
    (rows.restrictedBy e).AggregatesGroups := by
  intro hsingle hgroups
  rw [hasGroups_restrictedBy] at hgroups
  rw [Rows.restrictedBy, show rows.row.isGroup = false from hsingle]
  exact h hsingle hgroups

/-- What the rows of a sequence stand for: for one row each, or for a group. A grouping without keys
has all rows in one group. -/
def members (engine : Engine) (db : Database) (arguments : Arguments) (outer : Env) (rows : Rows) :
    List (List Env × Env) :=
  if rows.row.isGroup && !rows.select.hasGroups then
    [(rows.select.kept engine db arguments outer,
      (rows.select.kept engine db arguments outer).headD outer)].filter fun g =>
        conditionHolds engine db arguments rows.select.having g.1 g.2
  else rows.select.candidates engine db arguments outer

/-- A predicate keeps the members that it is true of, as HAVING of groups and else as WHERE. -/
theorem IsRestrictable.members (h : rows.IsRestrictable) (engine : Engine) (db : Database)
    (arguments : Arguments) (outer : Env) :
    (rows.restrictedBy e).members engine db arguments outer =
      (rows.members engine db arguments outer).filter fun g =>
        (e.cell engine db arguments g.1 g.2).isTrue := by
  rw [Rows.members, Rows.members, hasGroups_restrictedBy, row_restrictedBy, restrictedBy]
  cases hgroup : rows.row.isGroup with
  | false => exact Select.candidates_filterBy (h.groups hgroup) e
  | true =>
    cases rows.select.hasGroups with
    | true => exact Select.candidates_havingBy e
    | false =>
      simp only [Bool.not_false, Bool.and_self, if_true, List.filter_filter]
      refine List.filter_congr fun g _ => ?_
      rw [Select.havingBy, conditionHolds_conjoin, Bool.and_comm]

end Rows

section

variable {rows base restricted : Rows} {node : Expr} {p q : Progress} {predicate : Meaning}
  {scope : Scope} {negate : Bool}

/-- A predicate is asked of the rows that it restricts. -/
theorem restrict_ok (h : (restrict rows predicate negate node scope).run p = .ok (restricted, q)) :
    ∃ base m test, (rows.wrapForPredicate node).run p = .ok (base, m) ∧ base.IsRestrictable ∧
      (predicate.applyScalar scope base.row).run m = .ok (test, q) ∧
      restricted = base.restrictedBy (negateIf negate test.expr) := by
  rw [restrict] at h
  rw [Rows.wrapForPredicate]
  cases hgroup : rows.row.isGroup with
  | true =>
    simp only [hgroup, if_true] at h
    split at h
    · cases h
    · rename_i hopen
      simp only [Build.run_bind_ok, Build.run_pure_ok] at h
      obtain ⟨test, m, htest, rfl, rfl⟩ := h
      simp only [Bool.or_eq_true, not_or, Bool.not_eq_true] at hopen
      obtain ⟨hlimit, hoffset⟩ := Select.unpaged_of hopen.1
      refine ⟨rows, p, test, rfl, ⟨⟨hopen.2, hlimit, hoffset⟩, ?_⟩, htest, ?_⟩
      · intro hfalse
        rw [hgroup] at hfalse
        cases hfalse
      · rw [Rows.restrictedBy, if_pos hgroup]
  | false =>
    simp only [hgroup, Bool.false_eq_true, if_false, Build.run_bind_ok, Build.run_pure_ok] at h
    obtain ⟨base, m, hbase, test, q, htest, rfl, rfl⟩ := h
    have hrestrictable : base.IsRestrictable ∧ base.row.isGroup = false := by
      obtain ⟨hopen, rfl, rfl⟩ | ⟨-, hwrap⟩ := Rows.wrapIf_cases hbase
      · refine ⟨⟨Select.isOpen_of hopen, fun _ => ?_⟩, hgroup⟩
        simp only [Bool.or_eq_false_iff] at hopen
        exact hopen.2
      · refine ⟨?_, Rows.isGroup_wrap hwrap⟩
        obtain ⟨s, -, rfl, rfl⟩ := Rows.wrap_ok.1 hwrap
        exact ⟨⟨rfl, rfl, rfl⟩, fun _ => rfl⟩
    refine ⟨base, m, test, hbase, hrestrictable.1, htest, ?_⟩
    rw [Rows.restrictedBy, hrestrictable.2]
    rfl

theorem restrict_node {restricted' : Rows} {node' : Expr} {q' : Progress}
    (h : (restrict rows predicate negate node scope).run p = .ok (restricted, q))
    (h' : (restrict rows predicate negate node' scope).run p = .ok (restricted', q')) :
    q = q' ∧ ∃ origin, restricted' =
      ⟨{ restricted.select with origin := origin }, restricted.row⟩ := by
  obtain ⟨base, m, test, hbase, -, htest, rfl⟩ := restrict_ok h
  obtain ⟨base', m', test', hbase', -, htest', rfl⟩ := restrict_ok h'
  obtain ⟨rfl, origin, rfl⟩ := Rows.wrapIf_node hbase hbase'
  rw [htest] at htest'
  cases htest'
  refine ⟨rfl, origin, ?_⟩
  rw [Rows.restrictedBy, Rows.restrictedBy]
  cases base.row.isGroup <;> rfl

/-- A call that is not the paging marker is built by its operator. -/
theorem asSequence_call_ok {env : Surroundings} {i : NodeId} {op : Operator} {args : List Expr}
    (hmarker : env.marker ≠ some i) :
    (((Expr.call i op args).meaning env).asSequence false scope).run p = .ok (rows, q) ↔
      ∃ built, (callRows env (.call i op args) op (meanings env args) scope).run p =
        .ok (built, q) ∧ rows = built.withOrigin (.call i op args) := by
  have hcall : ((Expr.call i op args).meaning env).asSequence false scope = (do
      return (← callRows env (.call i op args) op (meanings env args) scope).withOrigin
        (.call i op args)) := by
    show sequenceOfCall env (.call i op args) op (meanings env args) false scope = _
    have hnode : env.marker ≠ some (Expr.call i op args).id := hmarker
    rw [sequenceOfCall, if_neg (by simp), if_neg hnode]
  simp only [hcall, Build.run_bind_ok, Build.run_pure_ok]
  constructor
  · rintro ⟨built, _, hbuilt, rfl, rfl⟩
    exact ⟨built, hbuilt, rfl⟩
  · rintro ⟨built, hbuilt, rfl⟩
    exact ⟨built, q, hbuilt, rfl, rfl⟩

end

end SequenceQuery
