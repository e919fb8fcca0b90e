import SequenceQuery.Proofs.Answers
import SequenceQuery.Proofs.Ungrouped

namespace SequenceQuery

namespace Expr

def restrictedBy (source : Expr) (id : NodeId) : Option Expr → Expr
  | none => source
  | some predicate => .call id .filter [source, predicate]

theorem Ungrouped.restrictedBy {source : Expr} (h : source.Ungrouped) (id : NodeId)
    (predicate : Option Expr) : (source.restrictedBy id predicate).Ungrouped := by
  cases predicate with
  | none => exact h
  | some predicate => exact .call rfl h

theorem needs_any (source : Expr) (id : NodeId) (predicate : Option Expr) :
    (Expr.call id .any (source :: predicate.toList)).slots = (source.restrictedBy id predicate).slots ∧
      (Expr.call id .any (source :: predicate.toList)).constants =
        (source.restrictedBy id predicate).constants ∧
      (Expr.call id .any (source :: predicate.toList)).marker? =
        (source.restrictedBy id predicate).marker? := by
  cases predicate with
  | some predicate => exact ⟨rfl, rfl, rfl⟩
  | none =>
    have hnodes : nodesOfList [source] = source.nodes := by
      rw [nodesOfList, nodesOfList, List.append_nil]
    refine ⟨?_, ?_, Option.or_none⟩
    · show slotsFrom 0 (nodesOfList [source]) = slotsFrom 0 source.nodes
      rw [hnodes]
    · show (nodesOfList [source]).flatMap ownValues = source.nodes.flatMap ownValues
      rw [hnodes]

theorem marker_ne_call {id : NodeId} {op : Operator} {args : List Expr}
    (hself : (Expr.call id op args).asMarker? = none) (hid : ∀ n ∈ nodesOfList args, n.id ≠ id) :
    ((Expr.call id op args).marker?.map fun m => m.call.id) ≠ some id := by
  intro heq
  rw [marker?, hself, Option.none_or] at heq
  obtain ⟨m, hm, hcall⟩ := Option.map_eq_some_iff.1 heq
  rw [firstMarker?_eq_findSome?] at hm
  obtain ⟨n, hn, hnm⟩ := List.exists_of_findSome?_eq_some hm
  rw [call_of_asMarker? hnm] at hcall
  exact hid n hn hcall

end Expr

section

variable {engine : Engine} {db : Database} {arguments : Arguments} {outer : Env} {rows : Rows}
  {env : Surroundings} {s : Select}

theorem records_existence (env : Surroundings) (s : Select) (negated : Bool) (node : Expr) :
    (existence env s negated node).records engine db arguments outer =
      [[("?column?", .bool ((s.records engine db arguments outer).isEmpty == negated))]] := by
  rw [existence]
  split
  · rfl
  · have hcases : (SqlExpr.cases [(.exist s negated, .literal (.bool true))]
        (some (.literal (.bool false)))).cellIn engine db arguments outer =
          if (Cell.bool ((s.records engine db arguments outer).isEmpty == negated)).isTrue
            then .bool true else .bool false := cellIn_cases ..
    refine congrArg (fun c => [[("?column?", c)]]) (hcases.trans ?_)
    cases (s.records engine db arguments outer).isEmpty == negated <;> rfl

/-- Records of one value that is the same in all of them are one record when each is returned
once. -/
theorem length_entries_selecting (hungrouped : rows.IsUngrouped)
    (hsame : engine.same (.int64 1) (.int64 1) = true) :
    ((rows.orderedOnlyIfPaged.selecting (.int 1)).entries engine db arguments outer).length =
      if rows.select.distinct then min 1 (rows.select.candidates engine db arguments outer).length
      else (rows.select.candidates engine db arguments outer).length := by
  have hone : (rows.orderedOnlyIfPaged.selecting (.int 1)).aggregatesAll = false :=
    hungrouped.aggregatesGroups.selecting (Binding.isGroup_of_isPlain hungrouped.row) rfl
  have hdistinct : (rows.orderedOnlyIfPaged.selecting (.int 1)).distinct = rows.select.distinct := by
    obtain ⟨orderBy, heq⟩ := rows.orderedOnlyIfPaged_eq
    rw [heq]
    rfl
  rw [Select.entries, Select.gathered_eq hone, Rows.candidates_selecting, hdistinct]
  cases rows.select.distinct with
  | false => exact List.length_map _
  | true =>
    simp only [if_true]
    rw [keepFirst_of_same, List.length_take, List.length_map]
    intro x hx y hy
    obtain ⟨g, -, rfl⟩ := List.mem_map.1 hx
    obtain ⟨g', -, rfl⟩ := List.mem_map.1 hy
    have hone : engine.sameCells [.int64 1] [.int64 1] = true := by
      simp [Engine.sameCells, hsame]
    exact hone

theorem selecting_ne_nil (hungrouped : rows.IsUngrouped) {node : Expr}
    (hs : rows.project node = .ok s) (hsame : engine.same (.int64 1) (.int64 1) = true) :
    (rows.orderedOnlyIfPaged.selecting (.int 1)).records engine db arguments outer ≠ [] ↔
      s.records engine db arguments outer ≠ [] ∧
        ¬(s.distinct = true ∧ 0 < s.skipped engine db arguments outer) := by
  have hlength : ((rows.orderedOnlyIfPaged.selecting (.int 1)).entries engine db arguments
    outer).length = _ := length_entries_selecting hungrouped hsame
  have hclauses : (rows.orderedOnlyIfPaged.selecting (.int 1)).limited engine db arguments outer =
        s.limited engine db arguments outer ∧
      (rows.orderedOnlyIfPaged.selecting (.int 1)).skipped engine db arguments outer =
        s.skipped engine db arguments outer ∧ rows.select.distinct = s.distinct ∧
      rows.select.candidates engine db arguments outer =
        s.candidates engine db arguments outer := by
    obtain ⟨orderBy, heq⟩ := rows.orderedOnlyIfPaged_eq
    obtain ⟨ls, -, rfl⟩ := Rows.project_ok.1 hs
    rw [heq]
    exact ⟨rfl, rfl, rfl, rfl⟩
  obtain ⟨hlimited, hskipped, hdistinct, hcandidates⟩ := hclauses
  rw [hdistinct, hcandidates] at hlength
  have hgathered : s.gathered engine db arguments outer = s.candidates engine db arguments outer :=
    Select.gathered_eq (hungrouped.aggregatesGroups.project hs)
  have hnone : (s.entries engine db arguments outer).length = 0 ↔
      (s.candidates engine db arguments outer).length = 0 := by
    rw [List.length_eq_zero_iff, List.length_eq_zero_iff, Select.entries_eq_nil, hgathered]
  rw [Ne, Ne, Select.records_eq_nil, Select.records_eq_nil, hlimited, hskipped, hlength]
  by_cases hzero : s.limited engine db arguments outer = some 0
  · simp [hzero]
  · simp only [hzero, false_or]
    cases honce : s.distinct with
    | false => simp [Select.length_entries honce, hgathered]
    | true =>
      simp only [if_true, true_and]
      omega

variable {source : Expr} {id : NodeId} {predicate : Option Expr} {scope : Scope} {rows' : Rows}
  {p q q' : Progress}

/-- A terminal operator sees the rows of the sequence that it is asked of. -/
theorem filtered_restrictedBy {node : Expr}
    (hmarker : ∀ f, predicate = some f → env.marker ≠ some id)
    (h : (filtered node (source.meaning env) (meanings env predicate.toList)[0]? scope).run p =
      .ok (rows, q))
    (h' : (((source.restrictedBy id predicate).meaning env).asSequence false scope).run p =
      .ok (rows', q')) :
    q = q' ∧ ∃ origin, rows' = ⟨{ rows.select with origin := origin }, rows.row⟩ := by
  simp only [filtered, Build.run_bind_ok] at h
  obtain ⟨unrestricted, m, hsource, h⟩ := h
  cases predicate with
  | none =>
    obtain ⟨rfl, rfl⟩ := Build.run_pure_ok.1 h
    rw [Expr.restrictedBy, hsource] at h'
    cases h'
    exact ⟨rfl, _, Rows.eq_ofOrigin _⟩
  | some predicate =>
    obtain ⟨built, hbuilt, rfl⟩ := (asSequence_call_ok (hmarker predicate rfl)).1 h'
    have hfilter : ((do
      let rows ← (source.meaning env).asSequence false scope
      restrict rows (predicate.meaning env) false (.call id .filter [source, predicate]) scope :
        Build Rows)).run p = .ok (built, q') := hbuilt
    obtain ⟨rows', m', hsource', hrestrict⟩ := Build.run_bind_ok.1 hfilter
    rw [hsource] at hsource'
    cases hsource'
    obtain ⟨rfl, origin, rfl⟩ := restrict_node h hrestrict
    exact ⟨rfl, _, rfl⟩

variable {select select' : Select} {shape shape' : ResultShape}

/-- The statements of `Any` and of the sequence that it is asked of, where both are accepted. -/
theorem any_with_sequence (hsource : source.Ungrouped)
    (hmarker : ∀ f, predicate = some f → env.marker ≠ some id)
    (h : (atRoot env (.call id .any (source :: predicate.toList))).run p = .ok ((select, shape), q))
    (h' : (sequenceAtRoot env (source.restrictedBy id predicate)).run p =
      .ok ((select', shape'), q')) :
    q = q' ∧ shape = .scalar false ∧ shape' = .sequence ∧ ∃ asked,
      select = existence env asked false (.call id .any (source :: predicate.toList)) ∧
      ∀ (engine : Engine) (db : Database) (arguments : Arguments) (outer : Env),
        engine.same (.int64 1) (.int64 1) = true →
          (asked.records engine db arguments outer ≠ [] ↔
            select'.records engine db arguments outer ≠ [] ∧
              ¬(select'.distinct = true ∧ 0 < select'.skipped engine db arguments outer)) := by
  have hroot : ((do
      let t ← terminal (.call id .any (source :: predicate.toList)) .any
        (meanings env (source :: predicate.toList)) []
      return t.atRoot env (.call id .any (source :: predicate.toList)) :
        Build (Select × ResultShape))).run p = .ok ((select, shape), q) := h
  obtain ⟨t, m, hterminal, hselect⟩ := Build.run_bind_ok.1 hroot
  have hany : ((do
      let rows ← filtered (.call id .any (source :: predicate.toList)) (source.meaning env)
        (meanings env predicate.toList)[0]? []
      return .exist (rows.orderedOnlyIfPaged.selecting (.int 1)) false : Build Terminal)).run p =
        .ok (t, m) := hterminal
  simp only [sequenceAtRoot, Build.run_bind_ok, Build.run_lift_ok, Build.run_pure_ok] at hany h'
  obtain ⟨rows, _, hrows, rfl, rfl⟩ := hany
  obtain ⟨rows', m', hrows', s, r, ⟨hs, rfl⟩, heq, rfl⟩ := h'
  cases heq
  cases hselect
  obtain ⟨rfl, origin, rfl⟩ := filtered_restrictedBy hmarker hrows hrows'
  refine ⟨rfl, rfl, rfl, _, rfl, fun engine db arguments outer hsame => ?_⟩
  have hungrouped : (source.restrictedBy id predicate).Ungrouped := hsource.restrictedBy id predicate
  obtain ⟨hgroups, hhaving, hrow⟩ : Rows.IsUngrouped
      ⟨{ rows.select with origin := origin }, rows.row⟩ :=
    (hungrouped.asSequence Scope.isPlain_nil false p False.elim _ _ hrows').1
  have hrows : rows.IsUngrouped := ⟨hgroups, hhaving, hrow⟩
  obtain ⟨ls, hls, rfl⟩ := Rows.project_ok.1 hs
  have hproject : rows.project (source.restrictedBy id predicate) =
      .ok { rows.select with items := Rows.items ls } := Rows.project_ok.2 ⟨ls, hls, rfl⟩
  rw [selecting_ne_nil hrows hproject hsame]
  exact Iff.rfl

end

namespace Form

variable {catalog : Catalog} {dialect : Dialect} {e : Expr} {f f' : Form}

theorem arguments_congr (hsegment : f.hasSegment = f'.hasSegment)
    (hconstants : f.origin.core.constants = f'.origin.core.constants)
    (hmarker : f.origin.core.segment? = f'.origin.core.segment?) : f.arguments = f'.arguments := by
  rw [arguments, arguments, Provider.callOf, Provider.callOf, hsegment, hconstants, hmarker]

theorem answer_existence (engine : Engine) (db : Database) (arguments : Arguments)
    (env : Surroundings) (s : Select) (node : Expr) :
    (existence env s false node).answer engine db arguments (.scalar false) =
      .ok (.value (.bool !(s.records engine db arguments []).isEmpty)) := by
  rw [Select.answer, records_existence, beq_false]
  rfl

theorem answer_rows (engine : Engine) (db : Database) (arguments : Arguments) (s : Select) :
    s.answer engine db arguments .sequence =
      .ok (.rows ((s.records engine db arguments []).map Record.cells)) := by
  rw [← values_ofRecord]
  rfl

theorem core_of_ungrouped (h : e.Ungrouped) : e.core = e := by
  cases h <;> rfl

theorem atRoot_of_ungrouped (h : e.Ungrouped) (env : Surroundings) :
    atRoot env e = sequenceAtRoot env e := by
  cases h with
  | entity => rfl
  | @call _ op _ _ hop => cases op <;> first | rfl | cases hop
  | join hop => rcases hop with rfl | rfl <;> rfl

def skipped (engine : Engine) (db : Database) (f : Form) : Nat :=
  f.select.skipped engine db f.arguments []

/-- `Any` is true exactly when the sequence that it is asked of, after the predicate if there is one,
returns a row, unless that sequence skips rows of a DISTINCT. Of those `Any` finds none. -/
theorem any_iff_rows (engine : Engine) (db : Database) {source : Expr} {predicate : Option Expr}
    {id : NodeId} {any sequence : Form} (hsource : source.Ungrouped)
    (hid : ∀ n ∈ Expr.nodesOfList (source :: predicate.toList), n.id ≠ id)
    (hany : ofExpr catalog dialect (.call id .any (source :: predicate.toList)) = .ok any)
    (hsequence : ofExpr catalog dialect (source.restrictedBy id predicate) = .ok sequence)
    (hsame : engine.same (.int64 1) (.int64 1) = true) :
    ∃ b rows, any.answer engine db = .ok (.value (.bool b)) ∧
      sequence.answer engine db = .ok (.rows rows) ∧
      (b = true ↔ rows ≠ [] ∧
        ¬(sequence.select.distinct = true ∧ 0 < sequence.skipped engine db)) := by
  have hungrouped := hsource.restrictedBy id predicate
  obtain ⟨hslots, hconstants, hmarker⟩ := Expr.needs_any source id predicate
  have henv : Surroundings.ofExpr catalog dialect (.call id .any (source :: predicate.toList)) =
      Surroundings.ofExpr catalog dialect (source.restrictedBy id predicate) := by
    rw [Surroundings.ofExpr, Surroundings.ofExpr, hslots, hmarker]
  obtain ⟨progress, hrun, hsegment, -, horigin⟩ := ofExpr_ok hany
  obtain ⟨progress', hrun', hsegment', -, horigin'⟩ := ofExpr_ok hsequence
  rw [atRoot_of_ungrouped hungrouped, ← henv] at hrun'
  have hnotMarker : ∀ f, predicate = some f → (Surroundings.ofExpr catalog dialect
      (.call id .any (source :: predicate.toList))).marker ≠ some id :=
    fun _ _ => Expr.marker_ne_call rfl hid
  obtain ⟨rfl, hshape, hshape', asked, hselect, hasked⟩ :=
    any_with_sequence hsource hnotMarker hrun hrun'
  have harguments : any.arguments = sequence.arguments := by
    have hasks : (Expr.call id .any (source :: predicate.toList)).segment? =
        (source.restrictedBy id predicate).segment? := by
      rw [Expr.segment?, Expr.segment?, hmarker]
    refine arguments_congr ?_ ?_ ?_
    · rw [hasSegment, hasSegment, hsegment, hsegment', hasks]
    · rw [horigin, horigin', core_of_ungrouped hungrouped]
      exact hconstants
    · rw [horigin, horigin', core_of_ungrouped hungrouped]
      exact hasks
  refine ⟨!(asked.records engine db any.arguments []).isEmpty,
    (sequence.select.records engine db sequence.arguments []).map Record.cells, ?_, ?_, ?_⟩
  · rw [answer, hselect, hshape]
    exact answer_existence ..
  · rw [answer, hshape']
    exact answer_rows ..
  · rw [harguments, Bool.not_eq_true', List.isEmpty_eq_false_iff, hasked engine db _ [] hsame, Ne,
      Ne, List.map_eq_nil_iff]
    exact Iff.rfl

def agesOnce : Expr :=
  .call 1 .distinct
    [.call 2 .project [.entity 3 "Person", .lambda 4 ["p"] (.member 5 (.param 6 "p") "Age")]]

def above30 : Expr :=
  .lambda 7 ["a"] (.binary 8 .greaterThan (.param 9 "a") (.const 10 (.int 30)))

theorem any_iff_rows_above30 : ∃ any sequence,
    ofExpr people (Postgres.dialect false) (.call 0 .any [agesOnce, above30]) = .ok any ∧
      ofExpr people (Postgres.dialect false) (.call 0 .filter [agesOnce, above30]) =
        .ok sequence ∧
      any.answer integers fivePeople = .ok (.value (.bool true)) ∧
      sequence.answer integers fivePeople = .ok (.rows [[.int64 41]]) := by
  obtain ⟨any, hany⟩ : ∃ any, ofExpr people (Postgres.dialect false)
      (.call 0 .any (agesOnce :: (some above30).toList)) = .ok any := ⟨_, rfl⟩
  obtain ⟨sequence, hsequence, hanswer, hdistinct⟩ : ∃ sequence,
      ofExpr people (Postgres.dialect false) (agesOnce.restrictedBy 0 (some above30)) =
        .ok sequence ∧
      sequence.answer integers fivePeople = .ok (.rows [[.int64 41]]) ∧
      sequence.select.distinct = false := ⟨_, rfl, rfl, rfl⟩
  obtain ⟨b, rows, hb, hrows, hiff⟩ := any_iff_rows integers fivePeople
    (.call rfl (.call rfl .entity)) (by decide) hany hsequence rfl
  have hone : rows = [[.int64 41]] := by
    rw [hanswer] at hrows
    cases hrows
    rfl
  have htrue : b = true := hiff.2 ⟨by rw [hone]; nofun, by rw [hdistinct]; nofun⟩
  exact ⟨any, sequence, hany, hsequence, htrue ▸ hb, hanswer⟩

/-- Two ages are left behind the first, but `Any` skips the only row that DISTINCT leaves it. -/
theorem any_ne_rows_otherAges : ∃ any sequence,
    ofExpr people (Postgres.dialect false) (.call 20 .any [otherAges]) = .ok any ∧
      ofExpr people (Postgres.dialect false) otherAges = .ok sequence ∧
      any.answer integers fivePeople = .ok (.value (.bool false)) ∧
      sequence.answer integers fivePeople = .ok (.rows [[.int64 41], [.int64 25]]) :=
  ⟨_, _, rfl, rfl, rfl, rfl⟩

end Form

end SequenceQuery
