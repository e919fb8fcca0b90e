import SequenceQuery.Proofs.DetectionDrafts

namespace SequenceQuery

variable {sought : Sought} {δ : Detector sought} {env : Surroundings} {node e : Expr} {es : List Expr}
  {op : Operator} {scope : Scope} {rows : Rows} {m : Meaning} {d : Draft}

/-- The draft tells what the sketches are of all that a node means. -/
structure Meaning.Drafted (δ : Detector sought) (m : Meaning) (d : Draft) : Prop where
  node : m.node = d.node
  asSequence : ∀ inRun scope, Yields False (m.asSequence inRun scope)
    (fun rows => rows.sketch δ = d.rows inRun (scope.sketch δ)) False
  asBinding : ∀ scope, Yields False (m.asBinding scope)
    (fun b => b.sketch δ = d.value (scope.sketch δ)) False
  apply : ∀ scope elements, Yields False (m.apply scope elements)
    (fun b => b.sketch δ = d.apply (scope.sketch δ) (elements.map (Binding.sketch δ))) False

namespace Meaning.Drafted

theorem asScalar (h : m.Drafted δ d) (scope : Scope) : Yields False (m.asScalar scope)
    (fun s => δ.expr s.expr = (d.value (scope.sketch δ)).found) False :=
  (h.asBinding scope).bind fun _ hb => .lift fun _ hs => by rw [← hb, Binding.found_sketch hs]

theorem applyScalar (h : m.Drafted δ d) (scope : Scope) (b : Binding) :
    Yields False (m.applyScalar scope b)
      (fun s => δ.expr s.expr = (d.apply (scope.sketch δ) [b.sketch δ]).found) False :=
  (h.apply scope [b]).bind fun _ hb => .lift fun _ hs =>
    (Binding.found_sketch hs).symm.trans (congrArg Sketch.found hb)

end Meaning.Drafted

theorem drafts_eq_map (es : List Expr) : drafts sought env es = es.map (Expr.draft sought env) := by
  induction es with
  | nil => rfl
  | cons e es ih => rw [drafts, ih, List.map_cons]

section Sequences

variable (ha : ∀ e ∈ es, (e.meaning env).Drafted δ (e.draft sought env))

include ha in
theorem drafted_at {k : Nat} (hm : (meanings env es)[k]? = some m) :
    ∃ d, (drafts sought env es)[k]? = some d ∧ m.Drafted δ d := by
  rw [meanings_eq_map, List.getElem?_map] at hm
  obtain ⟨e, he, rfl⟩ := Option.map_eq_some_iff.1 hm
  refine ⟨e.draft sought env, ?_, ha e (List.mem_of_getElem? he)⟩
  rw [drafts_eq_map, List.getElem?_map, he, Option.map_some]

include ha in
theorem argument_drafted (k : Nat) : Yields False (liftM (argument node (meanings env es) k))
    (fun m => m.Drafted δ (Draft.argument (drafts sought env es) k)) False := by
  refine .lift fun m hm => ?_
  obtain ⟨d, hd, hdrafted⟩ := drafted_at ha (getElem?_of_argument hm)
  rwa [Draft.argument, hd, Option.getD_some]

theorem sketch_negateIf (negate : Bool) (e : SqlExpr) : δ.expr (negateIf negate e) = δ.expr e := by
  cases negate with
  | false => rfl
  | true => exact δ.unary _ _

theorem restrict_drafted (rows : Rows) (hm : m.Drafted δ d) (negate : Bool) (node : Expr)
    (scope : Scope) : Yields False (restrict rows m negate node scope) (fun rows' =>
      rows'.sketch δ = Draft.restrict (scope.sketch δ) (rows.sketch δ) d) False := by
  have hgroup : (rows.sketch δ).row.isGroup = rows.row.isGroup := Binding.isGroup_sketch _
  rw [restrict, Draft.restrict, hgroup]
  dsimp only
  split
  case isTrue h =>
    rw [h]
    split
    · exact .refused _ _
    · refine (hm.applyScalar scope rows.row).bind fun s hs => .pure ?_
      rw [Rows.sketch_havingBy, sketch_negateIf, hs]
      rfl
  case isFalse h =>
    rw [Bool.not_eq_true] at h
    rw [h]
    refine (Rows.sketch_wrapIf δ rows _ node).bind fun rows' hrows => ?_
    refine (hm.applyScalar scope rows'.row).bind fun s hs => .pure ?_
    have hrow : rows'.row.sketch δ = _ := congrArg RowsSketch.row hrows
    rw [Rows.sketch_filterBy, sketch_negateIf, hs, hrows, hrow]
    rfl

include ha in
theorem order_drafted (restart ascending : Bool) (scope : Scope) :
    Yields False (orderRows restart ascending node (meanings env es) scope) (fun rows =>
      rows.sketch δ = Draft.order (drafts sought env es) (scope.sketch δ) restart) False := by
  refine (argument_drafted ha 0).bind fun source hsource => ?_
  refine (hsource.asSequence false scope).bind fun rows hrows => ?_
  refine (Rows.sketch_wrapIf δ rows _ node).bind fun rows' hwrapped => ?_
  refine (argument_drafted ha 1).bind fun key hkey => ?_
  refine (hkey.apply scope [rows'.row]).bind fun b hb => ?_
  refine .bind (.lift fun _ => Binding.scalars_sketch δ) fun keys hkeys => .pure ?_
  have hrow : rows'.row.sketch δ = _ := congrArg RowsSketch.row hwrapped
  rw [hb, List.map_cons, List.map_nil, hrow] at hkeys
  rw [Rows.sketch_orderedBy, Draft.order, ← hrows, hwrapped, ← hkeys.1, ← hkeys.2]
  rfl

theorem any_equalities : ∀ (ls rs : List Scalar) {e : SqlExpr}, ls.length = rs.length →
    δ.expr ((ls.zip rs).foldl (fun e (l, r) => .and e (.binary .eq l.expr r.expr)) e) =
      (δ.expr e || (ls.any (fun s => δ.expr s.expr) || rs.any fun s => δ.expr s.expr)) := by
  intro ls
  induction ls with
  | nil =>
    intro rs e h
    cases rs with
    | nil => simp
    | cons r rs => cases h
  | cons l ls ih =>
    intro rs e h
    cases rs with
    | nil => cases h
    | cons r rs =>
      have hand : δ.expr (SqlExpr.and e (.binary .eq l.expr r.expr)) =
          (δ.expr e || (δ.expr l.expr || δ.expr r.expr)) :=
        (δ.binary _ _ _).trans (congrArg _ (δ.binary _ _ _))
      rw [List.zip_cons_cons, List.foldl_cons, ih rs (Nat.succ.inj h), hand, List.any_cons,
        List.any_cons]
      simp only [Bool.or_assoc, Bool.or_left_comm]

/-- All keys of both sides are in the condition of a join. -/
theorem any_matching {ls rs : List Scalar} (hlength : ls.length = rs.length) :
    (matching ls rs).any δ.expr =
      (ls.any (fun s => δ.expr s.expr) || rs.any fun s => δ.expr s.expr) := by
  cases ls with
  | nil =>
    cases rs with
    | nil => rfl
    | cons r rs => cases hlength
  | cons l ls =>
    cases rs with
    | nil => cases hlength
    | cons r rs =>
      rw [matching, Option.any_some, any_equalities ls rs (Nat.succ.inj hlength), δ.binary,
        List.any_cons, List.any_cons]
      simp only [Bool.or_assoc, Bool.or_left_comm]

include ha in
theorem join_drafted (kind : JoinKind) (scope : Scope) :
    Yields False (joinRows kind node (meanings env es) scope) (fun rows =>
      rows.sketch δ = Draft.join (drafts sought env es) (scope.sketch δ)) False := by
  refine (argument_drafted ha 0).bind fun source hsource => ?_
  refine (hsource.asSequence false scope).bind fun outer houter => ?_
  refine (Rows.sketch_wrapIf δ outer _ node).bind fun outer' houter' => ?_
  refine (argument_drafted ha 1).bind fun source hsource => ?_
  refine (hsource.asSequence false scope).bind fun inner hinner => ?_
  refine (Rows.sketch_wrapUnlessBare δ inner node).bind fun inner' hinner' => ?_
  obtain ⟨hinner', hclauses⟩ := hinner'
  cases htable : inner'.select.source with
  | none => exact .unsupported _ _
  | some table =>
    refine (argument_drafted ha 2).bind fun outerKey houterKey => ?_
    refine (houterKey.apply scope [outer'.row]).bind fun outerKey houterKey => ?_
    refine (argument_drafted ha 3).bind fun innerKey hinnerKey => ?_
    refine (hinnerKey.apply scope [inner'.row]).bind fun innerKey hinnerKey => ?_
    refine .bind (.lift fun _ => Binding.scalars_sketch δ) fun outerKeys houterKeys => ?_
    refine .bind (.lift fun _ => Binding.scalars_sketch δ) fun innerKeys hinnerKeys => ?_
    dsimp only
    split
    · exact .refused _ _
    case isFalse hkeys =>
      refine (argument_drafted ha 4).bind fun result hresult => ?_
      refine (hresult.apply scope _).bind fun row hrow => .pure ?_
      have hlength : outerKeys.length = innerKeys.length := by
        simp only [Bool.or_eq_true, bne_iff_ne, not_or, ne_eq, not_not] at hkeys
        exact hkeys.1
      have houterRow : outer'.row.sketch δ = _ := congrArg RowsSketch.row houter'
      have hinnerRow : inner'.row.sketch δ = _ := congrArg RowsSketch.row hinner'
      have hkind : (kind.innerRow inner'.row).sketch δ = inner'.row.sketch δ := by
        cases kind with
        | inner => rfl
        | left => exact Binding.sketch_asOptional _
      change row.sketch δ = (Draft.argument (drafts sought env es) 4).apply (scope.sketch δ)
        [outer'.row.sketch δ, (kind.innerRow inner'.row).sketch δ] at hrow
      rw [houterKey, List.map_cons, List.map_nil, houterRow] at houterKeys
      rw [hinnerKey, List.map_cons, List.map_nil, hinnerRow] at hinnerKeys
      rw [htable, Option.any_some, hinner'] at hclauses
      rw [Rows.sketch_joined, any_matching hlength, ← houterKeys.1, ← hinnerKeys.1, hrow, hkind,
        houterRow, hinnerRow, houter', ← hclauses, Draft.join, ← houter, ← hinner, List.any_append]
      rfl

include ha in
theorem group_drafted (scope : Scope) : Yields False
    (callRows env node .groupBy (meanings env es) scope) (fun rows =>
      rows.sketch δ = Draft.group (drafts sought env es) (scope.sketch δ)) False := by
  refine (argument_drafted ha 0).bind fun source hsource => ?_
  refine (hsource.asSequence false scope).bind fun rows hrows => ?_
  refine (Rows.sketch_wrapIf δ rows _ node).bind fun rows' hwrapped => ?_
  refine (argument_drafted ha 1).bind fun key hkey => ?_
  refine (hkey.apply scope [rows'.row]).bind fun key hkey => ?_
  have hrow : rows'.row.sketch δ = _ := congrArg RowsSketch.row hwrapped
  have hungrouped : (rows'.sketch δ).groups = false := by
    rw [hwrapped]
    exact (rows.sketch δ).groups_wrapIf
  have hkeyed : ∀ element : Binding, element.sketch δ =
      Draft.grouped (scope.sketch δ) (drafts sought env es)[2]? (rows'.row.sketch δ) →
      Yields False (liftM (key.scalars node) >>= fun keys => pure
        (⟨{ rows'.select with groupBy := keys.map Scalar.expr }, .group key element⟩ : Rows))
        (fun rows => rows.sketch δ = Draft.group (drafts sought env es) (scope.sketch δ)) False := by
    intro element helement
    refine .bind (.lift fun _ => Binding.scalars_sketch δ) fun keys hkeys => .pure ?_
    rw [hkey, List.map_cons, List.map_nil, hrow] at hkeys
    rw [Rows.sketch_groupedBy hungrouped, helement, hkey, List.map_cons, List.map_nil, hrow,
      hwrapped, ← hkeys.1, ← hkeys.2, Draft.group, ← hrows]
    rfl
  cases hselector : (meanings env es)[2]? with
  | none =>
    refine hkeyed rows'.row ?_
    rw [meanings_eq_map, List.getElem?_map, Option.map_eq_none_iff] at hselector
    rw [drafts_eq_map, List.getElem?_map, hselector]
    rfl
  | some selector =>
    obtain ⟨d, hd, hdrafted⟩ := drafted_at ha hselector
    refine (hdrafted.apply scope [rows'.row]).bind fun element helement => hkeyed element ?_
    rw [hd]
    exact helement

include ha in
theorem project_drafted (scope : Scope) : Yields False
    (callRows env node .project (meanings env es) scope) (fun rows =>
      rows.sketch δ = Draft.operate .project (drafts sought env es) (scope.sketch δ)) False := by
  refine (argument_drafted ha 0).bind fun source hsource => ?_
  refine (hsource.asSequence false scope).bind fun rows hrows => ?_
  refine (Rows.sketch_wrapIf δ rows _ node).bind fun rows' hwrapped => ?_
  refine (argument_drafted ha 1).bind fun selector hselector => ?_
  refine (hselector.apply scope [rows'.row]).bind fun row hrow => .pure ?_
  have hold : rows'.row.sketch δ = _ := congrArg RowsSketch.row hwrapped
  have hnew : Rows.sketch δ { rows' with row := row } =
      { rows'.sketch δ with row := row.sketch δ } := rfl
  rw [hnew, hrow, List.map_cons, List.map_nil, hold, hwrapped, Draft.operate, ← hrows]
  rfl

include ha in
theorem skip_drafted (scope : Scope) : Yields False
    (callRows env node .skip (meanings env es) scope) (fun rows =>
      rows.sketch δ = Draft.operate .skip (drafts sought env es) (scope.sketch δ)) False := by
  refine (argument_drafted ha 0).bind fun source hsource => .bind (.any _) fun _ _ => ?_
  refine (hsource.asSequence false scope).bind fun rows hrows => ?_
  refine (argument_drafted ha 1).bind fun count hcount => ?_
  refine (hcount.asScalar scope).bind fun s hs => ?_
  refine (Rows.sketch_wrapIf δ rows _ node).bind fun rows' hwrapped => .pure ?_
  have hoffset : (rows'.sketch δ).offset = false := by
    rw [hwrapped]
    exact (rows.sketch δ).unpaged_wrapIf.2
  rw [Rows.sketch_withOffset hoffset, hs, hwrapped, Draft.operate, ← hrows]
  rfl

include ha in
theorem take_drafted (scope : Scope) : Yields False
    (callRows env node .take (meanings env es) scope) (fun rows =>
      rows.sketch δ = Draft.operate .take (drafts sought env es) (scope.sketch δ)) False := by
  refine (argument_drafted ha 0).bind fun source hsource => .bind (.any _) fun _ _ => ?_
  refine (hsource.asSequence false scope).bind fun rows hrows => ?_
  refine (argument_drafted ha 1).bind fun count hcount => ?_
  refine (hcount.asScalar scope).bind fun s hs => ?_
  refine (Rows.sketch_wrapIf δ rows _ node).bind fun rows' hwrapped => .pure ?_
  have hlimit : (rows'.sketch δ).limit = false := by
    rw [hwrapped]
    exact (rows.sketch δ).limit_wrapIf
  rw [Rows.sketch_withLimit hlimit, hs, hwrapped, Draft.operate, ← hrows]
  rfl

include ha in
theorem segment_drafted (scope : Scope) : Yields False
    (callRows env node .segment (meanings env es) scope) (fun rows =>
      rows.sketch δ = Draft.operate .segment (drafts sought env es) (scope.sketch δ)) False := by
  refine (argument_drafted ha 0).bind fun source hsource => .bind (.any _) fun _ _ => ?_
  refine (hsource.asSequence false scope).bind fun rows hrows => .bind (.any _) fun segment _ => ?_
  cases env.slot? segment.node.id with
  | none => exact .unsupported _ _
  | some slot =>
    refine (Rows.sketch_wrapIf δ rows _ node).bind fun rows' hwrapped => .pure ?_
    have hunpaged : (rows'.sketch δ).limit = false ∧ (rows'.sketch δ).offset = false := by
      rw [hwrapped]
      exact (rows.sketch δ).unpaged_wrapIf
    rw [Rows.sketch_withLimit, Rows.sketch_withOffset hunpaged.2, hwrapped, δ.slot, δ.slot,
      Draft.operate, ← hrows]
    · rfl
    · exact hunpaged.1

include ha in
theorem distinct_drafted (scope : Scope) : Yields False
    (callRows env node .distinct (meanings env es) scope) (fun rows =>
      rows.sketch δ = Draft.operate .distinct (drafts sought env es) (scope.sketch δ)) False := by
  refine (argument_drafted ha 0).bind fun source hsource => ?_
  refine (hsource.asSequence false scope).bind fun rows hrows => ?_
  refine (Rows.sketch_wrapIf δ rows _ node).bind fun rows' hwrapped => ?_
  dsimp only
  split
  · exact .refused _ _
  · have hdistinct : Rows.sketch δ { rows' with select := { rows'.select with distinct := true } } =
        { rows'.sketch δ with distinct := true } := rfl
    refine .pure ?_
    rw [hdistinct, hwrapped, Draft.operate, ← hrows]
    rfl

include ha in
theorem operate_drafted (op : Operator) (scope : Scope) : Yields False
    (callRows env node op (meanings env es) scope) (fun rows =>
      rows.sketch δ = Draft.operate op (drafts sought env es) (scope.sketch δ)) False := by
  cases op with
  | project => exact project_drafted ha scope
  | orderBy | orderByDescending | thenBy | thenByDescending =>
    exact .bind (.any _) fun _ _ => order_drafted ha _ _ scope
  | skip => exact skip_drafted ha scope
  | take => exact take_drafted ha scope
  | segment => exact segment_drafted ha scope
  | distinct => exact distinct_drafted ha scope
  | groupBy => exact group_drafted ha scope
  | join | leftJoin => exact .bind (.any _) fun _ _ => join_drafted ha _ scope
  | filter =>
    refine (argument_drafted ha 0).bind fun source hsource => ?_
    refine (hsource.asSequence false scope).bind fun rows hrows => ?_
    refine (argument_drafted ha 1).bind fun predicate hpredicate => ?_
    refine (restrict_drafted rows hpredicate false node scope).imp fun rows' h => ?_
    rw [h, Draft.operate, ← hrows]
  | _ => exact .bind (.any _) fun _ _ => .throw _

include ha in
theorem page_drafted (op : Operator) (scope : Scope) : Yields False
    (markerRows env node op (meanings env es) scope) (fun rows =>
      rows.sketch δ = Draft.page sought (drafts sought env es) (scope.sketch δ) op.leadsRun) False := by
  refine .bind (.any _) fun _ _ => (argument_drafted ha 0).bind fun source hsource => ?_
  refine (hsource.asSequence _ scope).bind fun rows hrows => ?_
  refine (Rows.sketch_wrapIf δ rows _ node).bind fun rows' hwrapped => ?_
  refine .bind (.any _) fun _ _ => .pure ?_
  have hunpaged : (rows'.sketch δ).limit = false ∧ (rows'.sketch δ).offset = false := by
    rw [hwrapped]
    exact (rows.sketch δ).unpaged_wrapIf
  have hrun : rows.sketch δ =
      (Draft.argument (drafts sought env es) 0).rows op.leadsRun (scope.sketch δ) :=
    hrows.trans (by cases op <;> rfl)
  rw [Rows.sketch_withOrigin, Rows.sketch_withOffset, Rows.sketch_withLimit hunpaged.1, hwrapped,
    δ.segmentStart, δ.segmentLength, Draft.page, ← hrun]
  · rfl
  · exact hunpaged.2

include ha in
theorem sequence_drafted (op : Operator) (inRun : Bool) (scope : Scope) : Yields False
    (sequenceOfCall env node op (meanings env es) inRun scope) (fun rows =>
      rows.sketch δ = Draft.sequence sought env node op (drafts sought env es) (scope.sketch δ) inRun)
      False := by
  rw [sequenceOfCall, Draft.sequence]
  split
  · exact (argument_drafted ha 0).bind fun source hsource => hsource.asSequence true scope
  · split
    · exact page_drafted ha op scope
    · exact (operate_drafted ha op scope).bind fun rows hrows => .pure hrows

include ha in
theorem filtered_drafted {source : Meaning}
    (hsource : source.Drafted δ (Draft.argument (drafts sought env es) 0)) (node : Expr)
    (scope : Scope) : Yields False (filtered node source (meanings env es)[1]? scope) (fun rows =>
      rows.sketch δ = Draft.filtered (drafts sought env es) (scope.sketch δ)) False := by
  refine (hsource.asSequence false scope).bind fun rows hrows => ?_
  rw [Draft.filtered, ← hrows]
  cases hpredicate : (meanings env es)[1]? with
  | none =>
    rw [meanings_eq_map, List.getElem?_map, Option.map_eq_none_iff] at hpredicate
    rw [drafts_eq_map, List.getElem?_map, hpredicate]
    exact .pure rfl
  | some predicate =>
    obtain ⟨d, hd, hdrafted⟩ := drafted_at ha hpredicate
    rw [hd]
    exact restrict_drafted rows hdrafted false node scope

include ha in
theorem selected_drafted (k : Nat) (row : Binding) (node : Expr) (scope : Scope) :
    Yields False (selected node (meanings env es)[k]? row scope) (fun s => δ.expr s.expr =
      Draft.selected (scope.sketch δ) (drafts sought env es)[k]? (row.sketch δ)) False := by
  cases hselector : (meanings env es)[k]? with
  | none =>
    rw [meanings_eq_map, List.getElem?_map, Option.map_eq_none_iff] at hselector
    rw [drafts_eq_map, List.getElem?_map, hselector]
    exact .lift fun s hs => (Binding.found_sketch hs).symm
  | some selector =>
    obtain ⟨d, hd, hdrafted⟩ := drafted_at ha hselector
    rw [hd]
    exact hdrafted.applyScalar scope row

theorem isTest_aggregateOver (op : Operator) (s : Scalar) : (aggregateOver op s).expr.isTest = false := by
  cases op <;> rfl

theorem expr_aggregateOver (op : Operator) (s : Scalar) :
    δ.expr (aggregateOver op s).expr = δ.expr s.expr := by
  cases op with
  | sum =>
    exact (δ.function _ _).trans (by simp [δ.aggregateOf, SqlExpr.int, δ.literal])
  | _ => exact δ.aggregateOf _ _

/-- Whether something is found in what stands for the statement of a terminal operator. -/
def Terminal.found (δ : Detector sought) : Terminal → Bool
  | .single s .. | .exist s _ | .scalar s _ => δ.select s
  | .isIn value s => δ.expr value || δ.select s

def Terminal.isTest : Terminal → Bool
  | .exist .. => true
  | _ => false

theorem terminal_tests (node : Expr) (op : Operator) (args : List Meaning) (scope : Scope) :
    Yields False (terminal node op args scope) (fun t => t.isTest = op.tests) False := by
  cases op with
  | first | firstOrDefault | single | singleOrDefault =>
    exact .bind (.any _) fun _ _ => .bind (.any _) fun _ _ => .bind (.any _) fun _ _ =>
      .bind (.any _) fun _ _ => .bind (.any _) fun _ _ => .pure rfl
  | count | longCount =>
    exact .bind (.any _) fun _ _ => .bind (.any _) fun _ _ => .bind (.any _) fun _ _ => .pure rfl
  | all | sum | min | max | average =>
    exact .bind (.any _) fun _ _ => .bind (.any _) fun _ _ => .bind (.any _) fun _ _ =>
      .bind (.any _) fun _ _ => .pure rfl
  | any => exact .bind (.any _) fun _ _ => .bind (.any _) fun _ _ => .pure rfl
  | contains =>
    refine .bind (.any _) fun _ _ => .bind (.any _) fun rows _ => ?_
    cases rows.row with
    | scalar => exact .bind (.any _) fun _ _ => .bind (.any _) fun _ _ => .pure rfl
    | _ => exact .unsupported _ _
  | _ => exact .bind (.any _) fun _ _ => .throw _

include ha in
theorem singleRow_drafted (nullable unique : Bool) (scope : Scope) : Yields False
    (singleRow node (meanings env es) nullable unique scope) (fun t =>
      t.found δ = Draft.terminal .first (drafts sought env es) (scope.sketch δ)) False := by
  refine (argument_drafted ha 0).bind fun source hsource => ?_
  refine (filtered_drafted ha hsource node scope).bind fun rows hrows => ?_
  refine (Rows.sketch_wrapIf δ rows _ node).bind fun rows' hwrapped => ?_
  refine .bind (.lift fun s hs => Rows.select_project (δ := δ) hs) fun s hs => .pure ?_
  have hlimit : (rows'.sketch δ).limit = false := by
    rw [hwrapped]
    exact (rows.sketch δ).limit_wrapIf
  rw [Terminal.found, hs, Rows.sketch_withLimit hlimit, SqlExpr.int, δ.literal, hwrapped,
    Draft.terminal, ← hrows]
  exact congrArg (fun clauses => clauses || _ || _) (Bool.or_false _)

/-- The rows that an aggregate is of are sorted by nothing. -/
theorem select_forAggregate {rows' : Rows} {e : SqlExpr}
    (hrows : rows'.sketch δ = (rows.sketch δ).forAggregate) (he : e.isTest = false) :
    δ.select (rows'.selecting e) = ((rows.sketch δ).forAggregate.clauses || δ.expr e) := by
  rw [Rows.select_selecting, hrows, he, Bool.and_false, Bool.or_false]
  exact congrArg (fun clauses => clauses || δ.expr e) (Bool.or_false _)

include ha in
theorem contains_drafted (scope : Scope) : Yields False
    (terminal node .contains (meanings env es) scope) (fun t =>
      t.found δ = Draft.terminal .contains (drafts sought env es) (scope.sketch δ)) False := by
  refine (argument_drafted ha 0).bind fun source hsource => ?_
  refine (hsource.asSequence false scope).bind fun rows hrows => ?_
  cases hrow : rows.row with
  | scalar element =>
    refine (argument_drafted ha 1).bind fun value hvalue => ?_
    refine (hvalue.asScalar scope).bind fun s hs => .pure ?_
    have helement : (rows.sketch δ).orderedOnlyIfPaged.row =
        .value (δ.expr element.expr) (sought.test && element.expr.isTest) := by
      have hvalue : (rows.sketch δ).row = (Binding.scalar element).sketch δ :=
        congrArg (Binding.sketch δ) hrow
      rw [RowsSketch.orderedOnlyIfPaged]
      split <;> exact hvalue
    rw [Terminal.found, hs, Rows.select_selecting, Rows.sketch_orderedOnlyIfPaged, Draft.terminal,
      ← hrows, RowsSketch.projected, helement, Sketch.leaves, List.any_cons, List.any_nil,
      Bool.or_false]
  | _ => exact .unsupported _ _

include ha in
theorem terminal_drafted (op : Operator) (scope : Scope) : Yields False
    (terminal node op (meanings env es) scope) (fun t =>
      t.found δ = Draft.terminal op (drafts sought env es) (scope.sketch δ)) False := by
  cases op with
  | first | firstOrDefault | single | singleOrDefault =>
    exact .bind (.any _) fun _ _ => singleRow_drafted ha _ _ scope
  | count | longCount =>
    refine (argument_drafted ha 0).bind fun source hsource => ?_
    refine (filtered_drafted ha hsource node scope).bind fun rows hrows => ?_
    refine (Rows.sketch_forAggregate δ rows node).bind fun rows' hrows' => .pure ?_
    rw [Terminal.found, select_forAggregate hrows' rfl, hrows, SqlExpr.countRows, δ.aggregateOf,
      δ.wildcard, Bool.or_false]
    rfl
  | any =>
    refine (argument_drafted ha 0).bind fun source hsource => ?_
    refine (filtered_drafted ha hsource node scope).bind fun rows hrows => .pure ?_
    rw [Terminal.found, Rows.select_existing, hrows]
    rfl
  | all =>
    refine (argument_drafted ha 0).bind fun source hsource => ?_
    refine (hsource.asSequence false scope).bind fun rows hrows => ?_
    refine (argument_drafted ha 1).bind fun predicate hpredicate => ?_
    refine (restrict_drafted rows hpredicate true node scope).bind fun rows' hrows' => .pure ?_
    rw [Terminal.found, Rows.select_existing, hrows', hrows]
    rfl
  | contains => exact contains_drafted ha scope
  | sum | min | max | average =>
    refine (argument_drafted ha 0).bind fun source hsource => ?_
    refine (hsource.asSequence false scope).bind fun rows hrows => ?_
    refine (Rows.sketch_forAggregate δ rows node).bind fun rows' hrows' => ?_
    refine (selected_drafted ha 1 rows'.row node scope).bind fun s hs => .pure ?_
    have hrow : rows'.row.sketch δ = _ := congrArg RowsSketch.row hrows'
    rw [Terminal.found, select_forAggregate hrows' (isTest_aggregateOver _ s), expr_aggregateOver, hs,
      hrow, hrows]
    rfl
  | _ => exact .bind (.any _) fun _ _ => .throw _

include ha in
theorem aggregateIn_drafted (op : Operator) (scope : Scope) (b : Binding) :
    Yields False (aggregateIn node op (meanings env es) scope b) (fun found =>
      found.map (fun s => (Binding.scalar s).sketch δ) =
        (b.sketch δ).element?.map fun element =>
          .value (Draft.ofGroup op (scope.sketch δ) (drafts sought env es) element) false) False := by
  have total : ∀ {s : Scalar} {found : Bool}, δ.expr s.expr = found → s.expr.isTest = false →
      (some s).map (fun s => (Binding.scalar s).sketch δ) = some (.value found false) :=
    fun hfound htest => congrArg some (Binding.sketch_scalar hfound htest)
  have count : Yields False (aggregateIn node .count (meanings env es) scope b) (fun found =>
      found.map (fun s => (Binding.scalar s).sketch δ) =
        (b.sketch δ).element?.map fun element => .value
          (Draft.ofGroup .count (scope.sketch δ) (drafts sought env es) element) false) False := by
    cases b with
    | group key element =>
      cases hpredicate : (meanings env es)[0]? with
      | none =>
        rw [aggregateIn, hpredicate]
        rw [meanings_eq_map, List.getElem?_map, Option.map_eq_none_iff] at hpredicate
        refine .pure (total ?_ rfl)
        rw [Draft.ofGroup, drafts_eq_map, List.getElem?_map, hpredicate]
        exact (δ.aggregateOf _ _).trans δ.wildcard
      | some predicate =>
        obtain ⟨d, hd, hdrafted⟩ := drafted_at ha hpredicate
        rw [aggregateIn, hpredicate]
        refine (hdrafted.applyScalar scope element).bind fun s hs => .pure (total ?_ rfl)
        rw [Draft.ofGroup, hd, Option.any_some, ← hs]
        simp [δ.aggregateOf, δ.cases, SqlExpr.int, δ.literal]
    | _ => exact .pure rfl
  cases op with
  | count | longCount => exact count
  | sum | min | max | average =>
    cases b with
    | group key element =>
      exact (selected_drafted ha 0 element node scope).bind fun s hs =>
        .pure (total ((expr_aggregateOver _ s).trans hs) (isTest_aggregateOver _ s))
    | _ => exact .pure rfl
  | _ =>
    cases b with
    | group => exact .throw _
    | _ => exact .pure rfl

include ha in
theorem aggregateOfGroup_drafted (op : Operator) (scope : Scope) :
    Yields False (aggregateOfGroup node op (meanings env es) scope) (fun found =>
      found.map (fun s => (Binding.scalar s).sketch δ) =
        (Draft.groupElement? (drafts sought env es) (scope.sketch δ)).map fun element => .value
          (Draft.ofGroup op (scope.sketch δ) ((drafts sought env es).drop 1) element) false) False := by
  cases es with
  | nil => exact .pure rfl
  | cons source rest =>
    have hsource := ha source List.mem_cons_self
    rw [meanings, aggregateOfGroup_cons node [], Expr.isPath_skeletonIn, hsource.node, drafts,
      Draft.groupElement?]
    split
    · refine (hsource.asBinding scope).bind fun b hb => ?_
      rw [← hb]
      exact aggregateIn_drafted (fun e he => ha e (List.mem_cons_of_mem _ he)) op scope b
    · exact .pure rfl

include ha in
theorem scalarOfCall_drafted (op : Operator) (scope : Scope) :
    Yields False (scalarOfCall node op (meanings env es) scope) (fun s =>
      (Binding.scalar s).sketch δ = Draft.call sought op (drafts sought env es) (scope.sketch δ))
      False := by
  refine (aggregateOfGroup_drafted ha op scope).bind fun found hfound => ?_
  rw [Draft.call]
  cases found with
  | some s =>
    rw [Option.map_some] at hfound
    obtain ⟨element, helement, hs⟩ := Option.map_eq_some_iff.1 hfound.symm
    rw [helement]
    exact .pure hs.symm
  | none =>
    rw [Option.map_none, eq_comm, Option.map_eq_none_iff] at hfound
    rw [hfound]
    dsimp only
    split
    · exact .refused _ _
    refine ((terminal_drafted ha op scope).both (terminal_tests _ op _ _)).bind fun t ht => ?_
    rw [← ht.1, ← ht.2]
    cases t with
    | single select row nullable unique =>
      cases row with
      | scalar s =>
        refine .pure ?_
        rw [Binding.sketch, δ.subquery]
        rfl
      | _ => exact .unsupported _ _
    | exist select negated =>
      refine .pure ?_
      rw [Binding.sketch, δ.exist]
      rfl
    | scalar select nullable =>
      refine .pure ?_
      rw [Binding.sketch, δ.subquery]
      rfl
    | isIn value select =>
      refine .pure ?_
      rw [Binding.sketch, δ.isIn]
      rfl

end Sequences

theorem nullTest?_drafted {left right : Meaning} {dl dr : Draft} (hl : left.Drafted δ dl)
    (hr : right.Drafted δ dr) (op : BinaryOp) :
    match nullTest? op left right with
    | some (m, _) => ∃ d, Draft.nullOperand? op dl dr = some d ∧ m.Drafted δ d
    | none => Draft.nullOperand? op dl dr = none := by
  cases op with
  | equal | notEqual =>
    rw [nullTest?, Draft.nullOperand?, hl.node, hr.node]
    cases hright : dr.node.isNull with
    | true => exact ⟨dl, rfl, hl⟩
    | false =>
      cases hleft : dl.node.isNull with
      | true => exact ⟨dr, rfl, hr⟩
      | false => rfl
  | _ => rfl

theorem scalarOfBinary_drafted {left right : Meaning} {dl dr : Draft} (hl : left.Drafted δ dl)
    (hr : right.Drafted δ dr) (op : BinaryOp) (scope : Scope) :
    Yields False (scalarOfBinary op left right scope) (fun s => (Binding.scalar s).sketch δ =
      .value (Draft.binary (scope.sketch δ) op dl dr) false) False := by
  have hnull := nullTest?_drafted hl hr op
  rw [scalarOfBinary, Draft.binary]
  cases htest : nullTest? op left right with
  | some operand =>
    obtain ⟨m, negated⟩ := operand
    rw [htest] at hnull
    obtain ⟨d, hd, hm⟩ := hnull
    rw [hd]
    exact (hm.asScalar scope).bind fun s hs => .pure (Binding.sketch_scalar ((δ.isNull _ _).trans hs) rfl)
  | none =>
    rw [htest] at hnull
    rw [hnull]
    refine (hl.asScalar scope).bind fun l hl => (hr.asScalar scope).bind fun r hr => ?_
    rw [← hl, ← hr]
    cases sqlBinary? op with
    | some op => exact .pure (Binding.sketch_scalar (δ.binary _ _ _) rfl)
    | none =>
      refine .pure (Binding.sketch_scalar ((δ.function _ _).trans ?_) rfl)
      rw [List.any_cons, List.any_cons, List.any_nil, Bool.or_false]

theorem expr_searchPattern (name : String) (needle : SqlExpr) :
    δ.expr ((searchPattern? name needle).getD needle) = δ.expr needle := by
  unfold searchPattern?
  split <;> simp [δ.binary, δ.literal]

theorem scalars_drafted (ha : ∀ e ∈ es, (e.meaning env).Drafted δ (e.draft sought env))
    (scope : Scope) : Yields False (Meaning.scalars scope (meanings env es)) (fun ss =>
      ss.any (fun s => δ.expr s.expr) =
        (drafts sought env es).any fun d => (d.value (scope.sketch δ)).found) False := by
  induction es with
  | nil => exact .pure rfl
  | cons e es ih =>
    refine ((ha e List.mem_cons_self).asScalar scope).bind fun s hs => ?_
    refine (ih fun e he => ha e (List.mem_cons_of_mem _ he)).bind fun ss hss => .pure ?_
    rw [List.any_cons, hs, hss, drafts, List.any_cons]

theorem scalarOfFunction_drafted (ha : ∀ e ∈ es, (e.meaning env).Drafted δ (e.draft sought env))
    (name : String) (scope : Scope) :
    Yields False (scalarOfFunction env node name (meanings env es) scope) (fun s =>
      (Binding.scalar s).sketch δ =
        .value ((drafts sought env es).any fun d => (d.value (scope.sketch δ)).found) false) False := by
  rw [scalarOfFunction]
  dsimp only
  split
  case isTrue h =>
    have hlength : es.length = 2 := by
      have hmeanings := eq_of_beq (Bool.and_eq_true_iff.1 h).2
      rwa [meanings_eq_map, List.length_map] at hmeanings
    obtain ⟨text, needle, rfl⟩ := List.length_eq_two.1 hlength
    refine .bindOk (((ha text (by simp)).asScalar scope).bind fun t ht => ?_)
    refine .bindOk (((ha needle (by simp)).asScalar scope).bind fun n hn => ?_)
    refine .pure (Binding.sketch_scalar ?_ rfl)
    rw [δ.binary, expr_searchPattern, ht, hn]
    simp [drafts]
  case isFalse =>
    refine (scalars_drafted ha scope).bind fun ss hss => ?_
    have called : ∀ name : String, Yields False
        (pure ⟨.function name (ss.map Scalar.expr), ss.any Scalar.nullable⟩ : Build Scalar) (fun s =>
          (Binding.scalar s).sketch δ = .value
            ((drafts sought env es).any fun d => (d.value (scope.sketch δ)).found) false) False :=
      fun name => .pure (Binding.sketch_scalar ((δ.function _ _).trans (by rw [List.any_map, ← hss]; rfl)) rfl)
    split
    · exact called _
    · split
      · exact called _
      · exact .thrown _

namespace Meaning.Drafted

theorem ofEntity (env : Surroundings) (node : Expr) (name : String) :
    (Meaning.ofEntity env node name).Drafted δ (.ofEntity env node name) := by
  refine ⟨rfl, fun _ scope => ?_, fun _ => .unsupported _ _, fun _ _ => .unsupported _ _⟩
  rw [Meaning.ofEntity, Draft.ofEntity]
  dsimp only
  cases env.catalog.entity? name with
  | none => exact .throw _
  | some entity =>
    refine .bind (.any _) fun label _ => .pure ?_
    simp [Rows.withOrigin, Rows.sketch, Select.ofTable, Select.empty, Select.anyClause,
      Select.hasGroups, Table.query?, δ.named, Binding.sketch]

theorem ofCall (i : NodeId) (op : Operator)
    (ha : ∀ e ∈ es, (e.meaning env).Drafted δ (e.draft sought env)) :
    ((Expr.call i op es).meaning env).Drafted δ ((Expr.call i op es).draft sought env) where
  node := rfl
  asSequence inRun scope := sequence_drafted ha op inRun scope
  asBinding scope := (scalarOfCall_drafted ha op scope).bind fun _ hs => .pure hs
  apply _ _ := .unsupported _ _

theorem ofLambda (hm : m.Drafted δ d) (node : Expr) (params : List String) :
    (Meaning.ofLambda node params m).Drafted δ (.ofLambda node params d) := by
  refine ⟨rfl, fun _ _ => .unsupported _ _, fun _ => .unsupported _ _, fun scope elements => ?_⟩
  rw [Meaning.ofLambda, Draft.ofLambda]
  dsimp only
  rw [← Scope.sketch_zip]
  split
  · exact hm.asBinding _
  · exact .unsupported _ _

theorem ofBinding {binding : Scope → Build Binding} {value : List (String × Sketch) → Sketch}
    (node : Expr) (reason : Unsupported) (h : ∀ scope, Yields False (binding scope)
      (fun b => b.sketch δ = value (scope.sketch δ)) False) :
    (Meaning.ofBinding node reason binding).Drafted δ (.ofValue node value) :=
  ⟨rfl, fun _ _ => .unsupported _ _, h, fun _ _ => .unsupported _ _⟩

theorem ofScalar {scalar : Scope → Build Scalar} {found : List (String × Sketch) → Bool}
    (node : Expr) (h : ∀ scope, Yields False (scalar scope)
      (fun s => (Binding.scalar s).sketch δ = .value (found (scope.sketch δ)) false) False) :
    (Meaning.ofScalar node scalar).Drafted δ (.ofScalar node found) :=
  ⟨rfl, fun _ _ => .unsupported _ _, fun scope => (h scope).bind fun _ hs => .pure hs,
    fun _ _ => .unsupported _ _⟩

theorem ofConstant (env : Surroundings) (node : Expr) (value : Value) :
    (Meaning.ofConstant env node value).Drafted δ (.ofScalar node fun _ => false) := by
  refine .ofScalar node fun scope => ?_
  split
  · exact .pure (Binding.sketch_scalar (δ.literal _) rfl)
  · split
    · exact .pure (Binding.sketch_scalar (δ.slot _) rfl)
    · exact .unsupported _ _

end Meaning.Drafted

mutual

theorem meaning_drafted (δ : Detector sought) (env : Surroundings) :
    ∀ e : Expr, (e.meaning env).Drafted δ (e.draft sought env)
  | .entity .. => .ofEntity ..
  | .call i op args => .ofCall i op (meanings_drafted δ env args)
  | .lambda _ params body => .ofLambda (meaning_drafted δ env body) _ params
  | .param .. => by
    refine .ofBinding _ _ fun scope => .lift fun b hb => ?_
    rw [Scope.lookup_sketch (lookUp_ok hb), Option.getD_some]
  | .member _ target name => by
    have ht := meaning_drafted δ env target
    refine .ofBinding _ _ fun scope => (ht.asBinding scope).bind fun b hb => .lift fun b' hb' => ?_
    rw [← hb, Binding.sketch_member hb', Option.getD_some]
  | .const .. => .ofConstant ..
  | .segment .. =>
    ⟨rfl, fun _ _ => .unsupported _ _, fun _ => .unsupported _ _, fun _ _ => .unsupported _ _⟩
  | .binary _ op left right => by
    have hl := meaning_drafted δ env left
    have hr := meaning_drafted δ env right
    exact .ofScalar _ fun scope => scalarOfBinary_drafted hl hr op scope
  | .unary _ op operand => by
    have ho := meaning_drafted δ env operand
    refine .ofScalar _ fun scope => (ho.asScalar scope).bind fun s hs => .pure ?_
    exact Binding.sketch_scalar ((δ.unary _ _).trans hs) rfl
  | .function _ name args => by
    have ha := meanings_drafted δ env args
    exact .ofScalar _ fun scope => scalarOfFunction_drafted ha name scope
  | .object _ fields => by
    have hf := fieldMeanings_drafted δ env fields
    exact .ofBinding _ _ fun scope => (hf scope).bind fun bs hbs => .pure (congrArg Sketch.parts hbs)
  | .conditional _ test ifTrue ifFalse => by
    have ht := meaning_drafted δ env test
    have ha := meaning_drafted δ env ifTrue
    have hb := meaning_drafted δ env ifFalse
    refine .ofScalar _ fun scope => (ht.asScalar scope).bind fun t ht =>
      (ha.asScalar scope).bind fun a ha => (hb.asScalar scope).bind fun b hb => .pure ?_
    refine Binding.sketch_scalar ((δ.cases _ _ _).trans ?_) rfl
    rw [Option.any_some, ht, ha, hb]

theorem meanings_drafted (δ : Detector sought) (env : Surroundings) :
    ∀ es : List Expr, ∀ e ∈ es, (e.meaning env).Drafted δ (e.draft sought env)
  | [] => nofun
  | e :: rest => List.forall_mem_cons.2 ⟨meaning_drafted δ env e, meanings_drafted δ env rest⟩

theorem fieldMeanings_drafted (δ : Detector sought) (env : Surroundings) :
    ∀ (fields : List (String × Expr)) (scope : Scope),
      Yields False (Meaning.bindFields scope (fieldMeanings env fields)) (fun bs =>
        Binding.fieldSketches δ bs = Draft.fields (scope.sketch δ) (fieldDrafts sought env fields)) False
  | [], _ => .pure rfl
  | (name, e) :: rest, scope => by
    refine ((meaning_drafted δ env e).asBinding scope).bind fun b hb => ?_
    refine (fieldMeanings_drafted δ env rest scope).bind fun bs hbs => .pure ?_
    rw [Binding.fieldSketches, hb, hbs, fieldDrafts, Draft.fields]

end

theorem select_ofItem (e : SqlExpr) (origin : Expr) :
    δ.select (.ofItem e origin) = (δ.expr e || sought.test && e.isTest) := by
  rw [δ.statement]
  simp [Select.ofItem, Select.selected, SelectItem.expr?, Select.empty, Select.anyClause]

theorem sequenceAtRoot_drafted (δ : Detector sought) (env : Surroundings) (e : Expr) :
    Yields False (sequenceAtRoot env e) (fun found =>
      δ.select found.1 = ((e.draft sought env).rows false []).projected) False := by
  refine ((meaning_drafted δ env e).asSequence false []).bind fun rows hrows => ?_
  refine .bind (.lift fun s hs => Rows.select_project (δ := δ) hs) fun s hs => .pure ?_
  rw [hs, hrows]
  rfl

theorem select_atRoot (t : Terminal) (env : Surroundings) (node : Expr) :
    δ.select (t.atRoot env node).1 = (t.found δ ||
      (sought.test && t.isTest && env.dialect.capabilities.existsProjection)) := by
  cases t with
  | exist s negated =>
    rw [Terminal.atRoot, existence]
    cases env.dialect.capabilities.existsProjection with
    | true =>
      rw [if_pos rfl, select_ofItem, δ.exist]
      simp [Terminal.found, Terminal.isTest, SqlExpr.isTest]
    | false =>
      rw [if_neg Bool.false_ne_true, select_ofItem, δ.cases, δ.exist, Option.any_some, δ.literal,
        δ.literal]
      simp [Terminal.found, SqlExpr.isTest]
  | isIn value s =>
    rw [Terminal.atRoot, select_ofItem, SqlExpr.coalesce, δ.function, List.any_cons, List.any_cons,
      δ.isIn, δ.literal]
    simp [Terminal.found, Terminal.isTest, SqlExpr.isTest]
  | _ => simp [Terminal.atRoot, Terminal.found, Terminal.isTest]

theorem atRoot_drafted (δ : Detector sought) (env : Surroundings) (e : Expr) :
    Yields False (atRoot env e) (fun found => δ.select found.1 = e.finds sought env) False := by
  cases e with
  | call i op args =>
    rw [atRoot, Expr.finds]
    split
    · have ha := meanings_drafted δ env args
      refine ((terminal_drafted ha op []).both (terminal_tests _ op _ _)).bind fun t ht => .pure ?_
      rw [select_atRoot, ht.1, ht.2]
      rfl
    · exact sequenceAtRoot_drafted δ env _
  | _ => exact sequenceAtRoot_drafted δ env _

namespace Form

variable {catalog : Catalog} {dialect : Dialect} {f : Form}

theorem finds_ofExpr (δ : Detector sought) (h : ofExpr catalog dialect e = .ok f) :
    δ.select f.select = e.finds sought (.ofExpr catalog dialect e) := by
  obtain ⟨progress, hrun, -⟩ := ofExpr_ok h
  exact (atRoot_drafted δ _ e _ False.elim _ _ hrun).1

end Form

end SequenceQuery
