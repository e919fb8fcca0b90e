import SequenceQuery.Proofs.Existence
import SequenceQuery.Proofs.FormConstruction

namespace SequenceQuery

def Operator.keepsSorted : Operator → Bool
  | .thenBy | .thenByDescending | .filter | .project | .skip | .take | .segment => true
  | _ => false

namespace Expr

/-- A sequence that is sorted and then at most sorted further, restricted, selected from and paged. -/
inductive Sorted : Expr → Prop
  | sort {id : NodeId} {op : Operator} {source : Expr} {rest : List Expr}
    (hop : op = .orderBy ∨ op = .orderByDescending) : Sorted (.call id op (source :: rest))
  | step {id : NodeId} {op : Operator} {source : Expr} {rest : List Expr} (hop : op.keepsSorted)
    (h : Sorted source) : Sorted (.call id op (source :: rest))

end Expr

/-- The clauses that the calls of a sequence have left in the outermost statement. -/
structure Clauses where
  limit : Bool
  offset : Bool
  order : Bool

namespace Clauses

def paged (c : Clauses) : Bool := c.limit || c.offset

def onTopIf (wrapped : Bool) (c : Clauses) : Clauses := if wrapped then ⟨false, false, false⟩ else c

end Clauses

section

variable (env : Surroundings)

namespace Expr

def isOfGroups (e : Expr) : Bool :=
  match ((e.meaning env).asSequence false []).run ⟨0, false⟩ with
  | .ok (rows, _) => rows.select.hasGroups && !rows.row.isGroup
  | .error _ => false

/-- Whether sorting anew as the call does would leave anything to sort by. -/
def hasSortKey (node : Expr) (args : List Expr) : Bool :=
  match (orderRows true true node (meanings env args) []).run ⟨0, false⟩ with
  | .ok (rows, _) => !rows.select.orderBy.isEmpty
  | .error _ => false

def clausesAfter (id : NodeId) (op : Operator) (source : Expr) (rest : List Expr) (c : Clauses) :
    Clauses :=
  let sorts := (Expr.call id op (source :: rest)).hasSortKey env (source :: rest)
  match op with
  | .orderBy | .orderByDescending => ⟨false, false, sorts⟩
  | .thenBy | .thenByDescending =>
    { c.onTopIf c.paged with order := (c.onTopIf c.paged).order || sorts }
  | .filter => c.onTopIf (c.paged || source.isOfGroups env)
  | .skip => { c.onTopIf c.paged with offset := true }
  | .take => { c.onTopIf c.limit with limit := true }
  | .segment => { c.onTopIf c.paged with limit := true, offset := true }
  | _ => c

/-- The clauses of a sorted sequence; in a run below the paging marker those of what the run pages
over. -/
def clauses : Expr → (inRun : Bool) → Clauses
  | e@(.call id op (source :: rest)), inRun =>
    if inRun && e.isPagingStep then source.clauses true
    else if env.marker = some id then
      let c := source.clauses (decide (op ≠ .segment))
      { c.onTopIf c.paged with limit := true, offset := true }
    else clausesAfter env id op source rest (source.clauses false)
  | _, _ => ⟨false, false, false⟩

end Expr

end

structure Rows.Leaves (c : Clauses) (rows : Rows) : Prop where
  limit : rows.select.limit.isSome = c.limit
  offset : rows.select.offset.isSome = c.offset
  order : rows.select.orderBy.isEmpty = !c.order
  distinct : rows.select.distinct = false

namespace Rows

variable {rows base : Rows} {node : Expr} {p q : Progress} {c : Clauses}

theorem Leaves.hasPaging (h : rows.Leaves c) : rows.select.hasPaging = c.paged := by
  rw [Select.hasPaging, h.limit, h.offset, Clauses.paged]

theorem Leaves.withOrigin (h : rows.Leaves c) (origin : Expr) : (rows.withOrigin origin).Leaves c := by
  obtain ⟨hlimit, hoffset, horder, hdistinct⟩ := h
  exact ⟨hlimit, hoffset, horder, hdistinct⟩

theorem Leaves.withRow (h : rows.Leaves c) (row : Binding) :
    Leaves c { rows with row := row } := by
  obtain ⟨hlimit, hoffset, horder, hdistinct⟩ := h
  exact ⟨hlimit, hoffset, horder, hdistinct⟩

theorem Leaves.withLimit (h : rows.Leaves c) (limit : SqlExpr) :
    (rows.withLimit limit).Leaves { c with limit := true } := by
  obtain ⟨-, hoffset, horder, hdistinct⟩ := h
  exact ⟨rfl, hoffset, horder, hdistinct⟩

theorem Leaves.withOffset (h : rows.Leaves c) (offset : SqlExpr) :
    (rows.withOffset offset).Leaves { c with offset := true } := by
  obtain ⟨hlimit, -, horder, hdistinct⟩ := h
  exact ⟨hlimit, rfl, horder, hdistinct⟩

theorem Leaves.restrictedBy (h : rows.Leaves c) (e : SqlExpr) : (rows.restrictedBy e).Leaves c := by
  obtain ⟨hlimit, hoffset, horder, hdistinct⟩ := h
  rw [Rows.restrictedBy]
  cases rows.row.isGroup <;> exact ⟨hlimit, hoffset, horder, hdistinct⟩

theorem Leaves.orderedBy (h : rows.Leaves c) (restart : Bool) (keys : List SortKey) :
    Leaves { c with order := !restart && c.order || !keys.isEmpty }
      { rows with select := { rows.select with
        orderBy := (if restart then [] else rows.select.orderBy) ++ keys } } := by
  obtain ⟨hlimit, hoffset, horder, hdistinct⟩ := h
  refine ⟨hlimit, hoffset, ?_, hdistinct⟩
  cases restart with
  | true => simp
  | false => cases hempty : rows.select.orderBy <;> simp_all

theorem Leaves.wrapIf (h : rows.Leaves c) {condition : Bool}
    (hbase : (rows.wrapIf condition node).run p = .ok (base, q)) :
    base.Leaves (c.onTopIf condition) := by
  obtain ⟨rfl, rfl, -⟩ | ⟨rfl, hwrap⟩ := wrapIf_cases hbase
  · exact h
  · obtain ⟨s, -, -, rfl⟩ := wrap_ok.1 hwrap
    exact ⟨rfl, rfl, rfl, rfl⟩

end Rows

section

variable {env : Surroundings} {node : Expr} {m : Meaning} {args : List Meaning} {scope : Scope}
  {p q : Progress} {built : Rows}

theorem orderRows_ok {restart ascending : Bool} :
    (orderRows restart ascending node (m :: args) scope).run p = .ok (built, q) ↔
      ∃ rows n base n' key b ss, (m.asSequence false scope).run p = .ok (rows, n) ∧
        (rows.wrapIf (rows.select.hasPaging || rows.select.distinct) node).run n = .ok (base, n') ∧
        argument node (m :: args) 1 = .ok key ∧ (key.apply scope [base.row]).run n' = .ok (b, q) ∧
        b.scalars node = .ok ss ∧
        built = { base with select := { base.select with
          orderBy := (if restart then [] else base.select.orderBy) ++
            ss.map fun s => ⟨s.expr, ascending⟩ } } := by
  have hsource : argument node (m :: args) 0 = .ok m := rfl
  simp only [orderRows, hsource, Build.run_bind_ok, Build.run_lift_ok, Build.run_pure_ok]
  constructor
  · rintro ⟨_, _, ⟨⟨⟩, rfl⟩, rows, n, hrows, base, _, hbase, key, _, ⟨hkey, rfl⟩, b, _, hb, ss, _,
      ⟨hss, rfl⟩, rfl, rfl⟩
    exact ⟨rows, n, base, _, key, b, ss, hrows, hbase, hkey, hb, hss, rfl⟩
  · rintro ⟨rows, n, base, n', key, b, ss, hrows, hbase, hkey, hb, hss, rfl⟩
    exact ⟨m, p, ⟨rfl, rfl⟩, rows, n, hrows, base, n', hbase, key, n', ⟨hkey, rfl⟩, b, q, hb, ss, q,
      ⟨hss, rfl⟩, rfl, rfl⟩

variable {id : NodeId} {op : Operator} {source : Expr} {rest : List Expr}

/-- A call that sorts does so on top of rows that are paged or DISTINCT. -/
theorem orderRows_keys {restart ascending : Bool}
    (h : (orderRows restart ascending (.call id op (source :: rest))
      (meanings env (source :: rest)) []).run ⟨0, false⟩ = .ok (built, q)) :
    ∃ rows n base n' keys,
      ((source.meaning env).asSequence false []).run ⟨0, false⟩ = .ok (rows, n) ∧
      (rows.wrapIf (rows.select.hasPaging || rows.select.distinct)
        (.call id op (source :: rest))).run n = .ok (base, n') ∧
      (!keys.isEmpty) = (Expr.call id op (source :: rest)).hasSortKey env (source :: rest) ∧
      built = { base with select := { base.select with
        orderBy := (if restart then [] else base.select.orderBy) ++ keys } } := by
  obtain ⟨rows, n, base, n', key, b, ss, hrows, hbase, hkey, hb, hss, rfl⟩ := orderRows_ok.1 h
  have hanew : (orderRows true true (.call id op (source :: rest)) (meanings env (source :: rest))
      []).run ⟨0, false⟩ = _ :=
    orderRows_ok.2 ⟨rows, n, base, n', key, b, ss, hrows, hbase, hkey, hb, hss, rfl⟩
  refine ⟨rows, n, base, n', _, hrows, hbase, ?_, rfl⟩
  rw [Expr.hasSortKey, hanew]
  simp

theorem restrict_leaves {predicate : Meaning} {rows : Rows} {c : Clauses} {n : Progress}
    (hrows : rows.Leaves c)
    (h : (restrict rows predicate false node scope).run n = .ok (built, q)) :
    built.Leaves (c.onTopIf (c.paged || rows.select.hasGroups && !rows.row.isGroup)) := by
  obtain ⟨base, m, test, hbase, hrestrictable, -, rfl⟩ := restrict_ok h
  refine Rows.Leaves.restrictedBy ?_ _
  have hleaves := hrows.wrapIf hbase
  rw [hrows.hasPaging, hrows.distinct, Bool.or_false] at hleaves
  cases hgroup : rows.row.isGroup with
  | false => simpa [hgroup] using hleaves
  | true =>
    -- groups that are paged are refused, so there is nothing to go on top of
    have hopen : c.paged = false := by
      obtain ⟨-, rfl, -⟩ | ⟨hwrapped, -⟩ := Rows.wrapIf_cases hbase
      · rw [← hrows.hasPaging, Select.hasPaging, hrestrictable.isOpen.limit,
          hrestrictable.isOpen.offset]
        rfl
      · simp [hgroup] at hwrapped
    simpa [hgroup, hopen] using hleaves

/-- What a call that keeps a sequence sorted does with the clauses of its source. -/
theorem callRows_leaves {c : Clauses} (hop : op.keepsSorted)
    (hsource : ∀ rows n, ((source.meaning env).asSequence false []).run ⟨0, false⟩ = .ok (rows, n) →
      rows.Leaves c)
    (h : (callRows env (.call id op (source :: rest)) op (meanings env (source :: rest)) []).run
      ⟨0, false⟩ = .ok (built, q)) :
    built.Leaves (Expr.clausesAfter env id op source rest c) := by
  have hargument : argument (.call id op (source :: rest)) (meanings env (source :: rest)) 0 =
      .ok (source.meaning env) := rfl
  simp only [callRows, hargument, Build.run_bind_ok, Build.run_lift_ok] at h
  obtain ⟨_, _, ⟨⟨⟩, rfl⟩, h⟩ := h
  have hthen : ∀ ascending, (orderRows false ascending (.call id op (source :: rest))
      (meanings env (source :: rest)) []).run ⟨0, false⟩ = .ok (built, q) →
        built.Leaves { c.onTopIf c.paged with order := (c.onTopIf c.paged).order ||
          (Expr.call id op (source :: rest)).hasSortKey env (source :: rest) } := by
    intro ascending hsorted
    obtain ⟨rows, n, base, n', keys, hrows, hbase, hkeys, rfl⟩ := orderRows_keys hsorted
    have hleaves := hsource rows _ hrows
    rw [hleaves.hasPaging, hleaves.distinct, Bool.or_false] at hbase
    rw [← hkeys]
    exact (hleaves.wrapIf hbase).orderedBy false keys
  cases op <;> try cases hop
  case thenBy => exact hthen true h
  case thenByDescending => exact hthen false h
  case filter =>
    simp only [Build.run_bind_ok, Build.run_lift_ok] at h
    obtain ⟨rows, n, hrows, _, _, ⟨-, rfl⟩, hrestrict⟩ := h
    have hgroups : source.isOfGroups env = (rows.select.hasGroups && !rows.row.isGroup) := by
      rw [Expr.isOfGroups, hrows]
    have hleaves := restrict_leaves (hsource rows _ hrows) hrestrict
    rwa [← hgroups] at hleaves
  case project =>
    simp only [Build.run_bind_ok, Build.run_lift_ok, Build.run_pure_ok] at h
    obtain ⟨rows, n, hrows, base, n', hbase, _, _, ⟨-, rfl⟩, row, _, -, rfl, rfl⟩ := h
    have hleaves := hsource rows _ hrows
    rw [hleaves.distinct] at hbase
    exact (hleaves.wrapIf hbase).withRow row
  case skip =>
    simp only [Build.run_bind_ok, Build.run_lift_ok, Build.run_pure_ok] at h
    obtain ⟨_, _, ⟨-, rfl⟩, rows, n, hrows, _, _, ⟨-, rfl⟩, count, n', -, base, _, hbase, rfl, rfl⟩ := h
    have hleaves := hsource rows _ hrows
    rw [hleaves.hasPaging] at hbase
    exact (hleaves.wrapIf hbase).withOffset count.expr
  case take =>
    simp only [Build.run_bind_ok, Build.run_lift_ok, Build.run_pure_ok] at h
    obtain ⟨_, _, ⟨-, rfl⟩, rows, n, hrows, _, _, ⟨-, rfl⟩, count, n', -, base, _, hbase, rfl, rfl⟩ := h
    have hleaves := hsource rows _ hrows
    rw [hleaves.limit] at hbase
    exact (hleaves.wrapIf hbase).withLimit count.expr
  case segment =>
    simp only [Build.run_bind_ok, Build.run_lift_ok] at h
    obtain ⟨_, _, ⟨-, rfl⟩, rows, n, hrows, segment, _, ⟨-, rfl⟩, h⟩ := h
    split at h
    · cases h
    · simp only [Build.run_bind_ok, Build.run_pure_ok] at h
      obtain ⟨base, _, hbase, rfl, rfl⟩ := h
      have hleaves := hsource rows _ hrows
      rw [hleaves.hasPaging] at hbase
      exact ((hleaves.wrapIf hbase).withOffset _).withLimit _

/-- A call that starts to sort leaves no clause that its source had. -/
theorem callRows_sorts (hop : op = .orderBy ∨ op = .orderByDescending)
    (h : (callRows env (.call id op (source :: rest)) op (meanings env (source :: rest)) []).run
      ⟨0, false⟩ = .ok (built, q)) (c : Clauses) :
    built.Leaves (Expr.clausesAfter env id op source rest c) := by
  have hsorted : ∃ ascending, (orderRows true ascending (.call id op (source :: rest))
      (meanings env (source :: rest)) []).run ⟨0, false⟩ = .ok (built, q) := by
    rcases hop with rfl | rfl
    · exact ⟨true, h⟩
    · exact ⟨false, h⟩
  obtain ⟨ascending, hsorted⟩ := hsorted
  obtain ⟨rows, n, base, n', keys, -, hbase, hkeys, rfl⟩ := orderRows_keys hsorted
  have hclauses : Expr.clausesAfter env id op source rest c =
      ⟨false, false, !keys.isEmpty⟩ := by
    rcases hop with rfl | rfl <;> rw [hkeys] <;> rfl
  have hopen : base.select.hasPaging = false ∧ base.select.distinct = false :=
    Rows.holds_of_wrapIf (Q := fun s => s.hasPaging = false ∧ s.distinct = false)
      (fun s hs => ⟨by rw [Select.hasPaging, hs.limit, hs.offset]; rfl, hs.distinct⟩)
      Bool.or_eq_false_iff.1 hbase
  obtain ⟨hlimit, hoffset⟩ := Select.unpaged_of hopen.1
  rw [hclauses]
  exact ⟨congrArg Option.isSome hlimit, congrArg Option.isSome hoffset, by simp, hopen.2⟩

variable {e : Expr}

/-- A call as a sequence is a step that is passed over, the paging marker or built by its operator. -/
theorem sequenceOfCall_cases {inRun : Bool}
    (h : (sequenceOfCall env node op (m :: args) inRun scope).run p = .ok (built, q)) :
    (inRun && node.isPagingStep) = true ∧ (m.asSequence true scope).run p = .ok (built, q) ∨
      (inRun && node.isPagingStep) = false ∧
        (env.marker = some node.id ∧
            (markerRows env node op (m :: args) scope).run p = .ok (built, q) ∨
          env.marker ≠ some node.id ∧ ∃ rows,
            (callRows env node op (m :: args) scope).run p = .ok (rows, q) ∧
              built = rows.withOrigin node) := by
  rw [sequenceOfCall] at h
  split at h
  case isTrue hstep => exact .inl ⟨hstep, h⟩
  case isFalse hstep =>
    refine .inr ⟨Bool.eq_false_iff.2 hstep, ?_⟩
    split at h
    case isTrue hself => exact .inl ⟨hself, h⟩
    case isFalse hself =>
      simp only [Build.run_bind_ok, Build.run_pure_ok] at h
      obtain ⟨rows, _, hrows, rfl, rfl⟩ := h
      exact .inr ⟨hself, rows, hrows, rfl⟩

theorem markerRows_ok : (markerRows env node op (m :: args) scope).run p = .ok (built, q) ↔
    env.mustPage node = .ok () ∧ ∃ rows n base n',
      (m.asSequence (decide (op ≠ .segment)) scope).run p = .ok (rows, n) ∧
        (rows.wrapIf rows.select.hasPaging node).run n = .ok (base, n') ∧
        q = { n' with segmentUsed := true } ∧
        built = ((base.withLimit (.param .segmentLength)).withOffset
          (.param .segmentStart)).withOrigin node := by
  have hmarker : markerRows env node op (m :: args) scope = (do
      env.mustPage node
      let rows ← m.asSequence (decide (op ≠ .segment)) scope
      let rows ← rows.wrapIf rows.select.hasPaging node
      modify fun p => { p with segmentUsed := true }
      return ((rows.withLimit (.param .segmentLength)).withOffset
        (.param .segmentStart)).withOrigin node) := by
    cases op <;> rfl
  simp only [hmarker, Build.run_bind_ok, Build.run_lift_ok, Build.run_pure_ok]
  constructor
  · rintro ⟨_, _, ⟨hpage, rfl⟩, rows, n, hrows, base, n', hbase, _, _, hused, rfl, rfl⟩
    cases hused
    exact ⟨hpage, rows, n, base, n', hrows, hbase, rfl, rfl⟩
  · rintro ⟨hpage, rows, n, base, n', hrows, hbase, rfl, rfl⟩
    exact ⟨(), p, ⟨hpage, rfl⟩, rows, n, hrows, base, n', hbase, (), _, rfl, rfl, rfl⟩

theorem Expr.Sorted.leaves (h : e.Sorted)
    (hmarker : ∀ i op args, .call i op args ∈ e.nodes → op = .orderBy ∨ op = .orderByDescending →
      env.marker ≠ some i) (inRun : Bool)
    (hrun : ((e.meaning env).asSequence inRun []).run ⟨0, false⟩ = .ok (built, q)) :
    built.Leaves (e.clauses env inRun) := by
  induction h generalizing inRun built q with
  | @sort id op source rest hop =>
    have hself := hmarker id op (source :: rest) List.mem_cons_self hop
    have hnoStep : (Expr.call id op (source :: rest)).isPagingStep = false := by
      rcases hop with rfl | rfl <;> rfl
    obtain ⟨hstep, -⟩ | ⟨hstep, ⟨hmarked, -⟩ | ⟨-, rows, hrows, rfl⟩⟩ := sequenceOfCall_cases hrun
    · rw [hnoStep, Bool.and_false] at hstep
      cases hstep
    · exact absurd hmarked hself
    · rw [clauses, hstep, if_neg Bool.false_ne_true, if_neg hself]
      exact (callRows_sorts hop hrows _).withOrigin _
  | @step id op source rest hop _ ih =>
    have hbelow := fun inRun rows n => @ih n rows (fun i op args hcall => hmarker i op args
      (List.mem_cons_of_mem _ (List.mem_append_left _ hcall))) inRun
    obtain ⟨hstep, hrows⟩ | ⟨hstep, ⟨hself, hrows⟩ | ⟨hself, rows, hrows, rfl⟩⟩ :=
      sequenceOfCall_cases hrun
    · rw [clauses, hstep, if_pos rfl]
      exact hbelow true _ _ hrows
    · obtain ⟨-, rows, n, base, n', hsource, hbase, -, rfl⟩ := markerRows_ok.1 hrows
      have hleaves := hbelow _ _ _ hsource
      rw [hleaves.hasPaging] at hbase
      rw [clauses, hstep, if_neg Bool.false_ne_true, if_pos (show env.marker = some id from hself)]
      exact (((hleaves.wrapIf hbase).withLimit _).withOffset _).withOrigin _
    · rw [clauses, hstep, if_neg Bool.false_ne_true,
        if_neg (show env.marker ≠ some id from hself)]
      exact (callRows_leaves hop (hbelow false) hrows).withOrigin _

end

namespace Expr

variable {e : Expr}

theorem atRoot_of_sorted (h : e.Sorted) (env : Surroundings) :
    atRoot env e = sequenceAtRoot env e := by
  cases h with
  | sort hop => rcases hop with rfl | rfl <;> rfl
  | @step _ op _ _ hop => cases op <;> first | rfl | cases hop

end Expr

namespace Form

variable {catalog : Catalog} {dialect : Dialect} {e : Expr} {f : Form}

/-- The statement of a sorted sequence orders its rows unless the last call that had something to sort
by was followed by one that had to be applied on top of a derived table. -/
theorem ordered_iff (hsorted : e.Sorted) (hid : e.Identified) (h : ofExpr catalog dialect e = .ok f) :
    f.select.orderBy ≠ [] ↔ (e.clauses (.ofExpr catalog dialect e) false).order = true := by
  obtain ⟨progress, hrun, -⟩ := ofExpr_ok h
  rw [Expr.atRoot_of_sorted hsorted] at hrun
  simp only [sequenceAtRoot, Build.run_bind_ok, Build.run_lift_ok, Build.run_pure_ok] at hrun
  obtain ⟨rows, _, hrows, s, _, ⟨hs, rfl⟩, heq, rfl⟩ := hrun
  obtain ⟨rfl, -⟩ := Prod.mk.inj heq
  have hmarker : ∀ i op args, .call i op args ∈ e.nodes → op = .orderBy ∨ op = .orderByDescending →
      (Surroundings.ofExpr catalog dialect e).marker ≠ some i := by
    rintro i op args hcall (rfl | rfl) hself <;> cases Expr.pages_of_marker hid hcall hself
  have hleaves := hsorted.leaves hmarker false hrows
  obtain ⟨ls, -, hselect⟩ := Rows.project_ok.1 hs
  have horder : f.select.orderBy.isEmpty = !(e.clauses (.ofExpr catalog dialect e) false).order := by
    rw [hselect]
    exact hleaves.order
  rw [← List.isEmpty_eq_false_iff, horder, Bool.not_eq_false']

/-- `Person.OrderBy(p => p.Name)`. -/
def byName : Expr :=
  .call 1 .orderBy [.entity 2 "Person", .lambda 3 ["p"] (.member 4 (.param 5 "p") "Name")]

/-- `source.Where(p => p.Age > 30)`. -/
def over30 (source : Expr) : Expr :=
  .call 6 .filter [source, .lambda 7 ["p"]
    (.binary 8 .greaterThan (.member 9 (.param 10 "p") "Age") (.const 11 (.int 30)))]

/-- `source.Take(5)`. -/
def five (source : Expr) : Expr := .call 12 .take [source, .const 13 (.int 5)]

theorem ordered_iff_five_over30 : ∃ f,
    ofExpr residents (Postgres.dialect false) (five (over30 byName)) = .ok f ∧
      f.select.orderBy ≠ [] := by
  obtain ⟨f, hf⟩ : ∃ f, ofExpr residents (Postgres.dialect false) (five (over30 byName)) = .ok f :=
    ⟨_, rfl⟩
  have hid : (five (over30 byName)).Identified := Expr.Unshared.identified (by decide)
  have horder : ((five (over30 byName)).clauses
      (.ofExpr residents (Postgres.dialect false) (five (over30 byName))) false).order = true := rfl
  exact ⟨f, hf, (ordered_iff (.step rfl (.step rfl (.sort (.inl rfl)))) hid hf).2 horder⟩

/-- `SELECT t1.name, … FROM (SELECT … ORDER BY t0.name LIMIT $1 OFFSET $2) AS t1 WHERE t1.age > $3`:
nothing orders the rows that are returned. -/
theorem not_ordered_over30_five : (over30 (five byName)).Sorted ∧ ∃ f,
    ofExpr residents (Postgres.dialect false) (over30 (five byName)) = .ok f ∧
      f.select.orderBy = [] :=
  ⟨.step rfl (.step rfl (.sort (.inl rfl))), _, rfl, rfl⟩

end Form

end SequenceQuery
