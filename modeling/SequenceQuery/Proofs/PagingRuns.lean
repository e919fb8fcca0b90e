import SequenceQuery.Proofs.Answers
import SequenceQuery.Proofs.Derived
import SequenceQuery.Proofs.Frames
import SequenceQuery.Proofs.Meanings

namespace SequenceQuery

namespace Expr

def runCounts : Expr → List Int64
  | .call _ .skip [source, .const _ (.int n)] | .call _ .take [source, .const _ (.int n)] =>
    n :: source.runCounts
  | _ => []

/-- What the steps of a run leave of a list, a negative count being as good as zero. -/
def runRows {α : Type} (xs : List α) : Expr → List α
  | .call _ .skip [source, .const _ (.int n)] => (source.runRows xs).drop n.toInt.toNat
  | .call _ .take [source, .const _ (.int n)] => (source.runRows xs).take n.toInt.toNat
  | _ => xs

/-- A run of paging steps over a sequence that is none. -/
inductive RunOver : Expr → Expr → Prop
  | none {below : Expr} (h : below.isPagingStep = false) : RunOver below below
  | skip {source below : Expr} (i j : NodeId) (n : Int64) (h : RunOver source below) :
    RunOver (.call i .skip [source, .const j (.int n)]) below
  | take {source below : Expr} (i j : NodeId) (n : Int64) (h : RunOver source below) :
    RunOver (.call i .take [source, .const j (.int n)]) below

variable {e below : Expr}

theorem pagingRun_of_none (h : e.isPagingStep = false) : e.pagingRun = (.all, e) := by
  unfold pagingRun
  split
  · cases h
  · cases h
  · rfl

theorem runCounts_of_none (h : e.isPagingStep = false) : e.runCounts = [] := by
  unfold runCounts
  split
  · cases h
  · cases h
  · rfl

theorem runRows_of_none {α : Type} (h : e.isPagingStep = false) (xs : List α) :
    e.runRows xs = xs := by
  unfold runRows
  split
  · cases h
  · cases h
  · rfl

theorem runOver_pagingRun (e : Expr) : e.RunOver e.pagingRun.2 := by
  induction e using pagingRun.induct with
  | case1 id source i n selected below heq ih =>
    rw [heq] at ih
    rw [pagingRun, heq]
    exact .skip id i n ih
  | case2 id source i n selected below heq ih =>
    rw [heq] at ih
    rw [pagingRun, heq]
    exact .take id i n ih
  | case3 e hskip htake =>
    have hnone : e.isPagingStep = false := by
      unfold isPagingStep
      split
      · exact absurd rfl (hskip _ _ _ _)
      · exact absurd rfl (htake _ _ _ _)
      · rfl
    rw [pagingRun_of_none hnone]
    exact .none hnone

theorem RunOver.rows {α : Type} (h : e.RunOver below) {xs : List α}
    (hlength : xs.length < UInt64.size) : e.pagingRun.1.rows xs = e.runRows xs := by
  induction h with
  | none hnone =>
    rw [pagingRun_of_none hnone, runRows_of_none hnone]
    rfl
  | skip _ _ n _ ih =>
    rw [runRows, ← ih, ← toNat_pagingCount, ← Segment.rows_skip hlength]
    rfl
  | take _ _ n _ ih =>
    rw [runRows, ← ih, ← toNat_pagingCount, ← Segment.rows_take]
    rfl

end Expr

section

variable (env : Surroundings) (marker marker' : Option NodeId)

theorem sequenceOfCall_ofMarker {node : Expr} (op : Operator) (args : List Meaning)
    (h : marker ≠ some node.id) (h' : marker' ≠ some node.id) :
    sequenceOfCall { env with marker := marker } node op args =
      sequenceOfCall { env with marker := marker' } node op args := by
  funext inRun scope
  rw [sequenceOfCall, sequenceOfCall, if_neg h, if_neg h']
  rfl

mutual

/-- What an expression means without the paging marker in it does not depend on the marker. -/
theorem meaning_ofMarker : ∀ e : Expr,
    (∀ n ∈ e.nodes, marker ≠ some n.id ∧ marker' ≠ some n.id) →
      e.meaning { env with marker := marker } = e.meaning { env with marker := marker' }
  | .entity .., _ | .param .., _ | .const .., _ | .segment .., _ => rfl
  | .call id op args, h => by
    obtain ⟨⟨hid, hid'⟩, hargs⟩ := List.forall_mem_cons.1 h
    rw [Expr.meaning, Expr.meaning, meanings_ofMarker args hargs, Meaning.ofCall, Meaning.ofCall,
      sequenceOfCall_ofMarker env marker marker' op _ hid hid']
  | .lambda _ params body, h => by
    rw [Expr.meaning, Expr.meaning, meaning_ofMarker body (List.forall_mem_cons.1 h).2]
  | .member _ target name, h => by
    rw [Expr.meaning, Expr.meaning, meaning_ofMarker target (List.forall_mem_cons.1 h).2]
  | .binary _ op left right, h => by
    obtain ⟨hl, hr⟩ := List.forall_mem_append.1 (List.forall_mem_cons.1 h).2
    rw [Expr.meaning, Expr.meaning, meaning_ofMarker left hl, meaning_ofMarker right hr]
  | .unary _ op operand, h => by
    have hoperand := meaning_ofMarker operand (List.forall_mem_cons.1 h).2
    cases op <;> rw [Expr.meaning, Expr.meaning, hoperand]
  | .function _ name args, h => by
    rw [Expr.meaning, Expr.meaning, meanings_ofMarker args (List.forall_mem_cons.1 h).2]
    rfl
  | .object _ fields, h => by
    rw [Expr.meaning, Expr.meaning, fieldMeanings_ofMarker fields (List.forall_mem_cons.1 h).2]
  | .conditional _ test ifTrue ifFalse, h => by
    obtain ⟨ht, h⟩ := List.forall_mem_append.1 (List.forall_mem_cons.1 h).2
    obtain ⟨ha, hb⟩ := List.forall_mem_append.1 h
    rw [Expr.meaning, Expr.meaning, meaning_ofMarker test ht, meaning_ofMarker ifTrue ha,
      meaning_ofMarker ifFalse hb]

theorem meanings_ofMarker : ∀ es : List Expr,
    (∀ n ∈ Expr.nodesOfList es, marker ≠ some n.id ∧ marker' ≠ some n.id) →
      meanings { env with marker := marker } es = meanings { env with marker := marker' } es
  | [], _ => rfl
  | e :: rest, h => by
    obtain ⟨he, hrest⟩ := List.forall_mem_append.1 h
    rw [meanings, meanings, meaning_ofMarker e he, meanings_ofMarker rest hrest]

theorem fieldMeanings_ofMarker : ∀ fields : List (String × Expr),
    (∀ n ∈ Expr.nodesOfFields fields, marker ≠ some n.id ∧ marker' ≠ some n.id) →
      fieldMeanings { env with marker := marker } fields =
        fieldMeanings { env with marker := marker' } fields
  | [], _ => rfl
  | (_, e) :: rest, h => by
    obtain ⟨he, hrest⟩ := List.forall_mem_append.1 h
    rw [fieldMeanings, fieldMeanings, meaning_ofMarker e he, fieldMeanings_ofMarker rest hrest]

end

end

mutual

/-- The counts that bound a statement and the derived tables that it is read from, the outermost
first. -/
def Select.pageCounts : Select → List SqlExpr
  | ⟨_, _, source, _, _, _, _, _, limit, offset, _⟩ =>
    limit.toList ++ (offset.toList ++ pageCountsOfSource source)

def pageCountsOfSource : Option Table → List SqlExpr
  | none => []
  | some table => table.pageCounts

def Table.pageCounts : Table → List SqlExpr
  | .table .. => []
  | .subquery query _ => query.pageCounts

end

theorem Select.pageCounts_eq (s : Select) :
    s.pageCounts = s.limit.toList ++ (s.offset.toList ++ pageCountsOfSource s.source) := by
  obtain ⟨⟩ := s
  rw [pageCounts]

/-- Rows that return some of what the rows of their source return, in which as many more counts
have been put. -/
structure Rows.Pages (arguments : Arguments) (kept : List Record → List Record)
    (counts : List SqlExpr) (rows source : Rows) : Prop where
  projected : ∀ {node s}, source.project node = .ok s → ∃ s', rows.project node = .ok s' ∧
    ∀ engine db outer, s'.records engine db arguments outer =
      kept (s.records engine db arguments outer)
  /-- Rows of which not all can be selected as columns are never read from a derived table. -/
  unprojected : ∀ {node}, (∀ s, source.project node ≠ .ok s) → rows.row = source.row ∧
    ∀ items engine db outer,
      ({ rows.select with items := items } : Select).records engine db arguments outer =
        kept (({ source.select with items := items } : Select).records engine db arguments outer)
  counts : rows.select.pageCounts = counts ++ source.select.pageCounts

namespace Rows.Pages

variable {arguments : Arguments} {kept kept' : List Record → List Record}
  {counts counts' : List SqlExpr} {source middle rows : Rows}

theorem refl (arguments : Arguments) (rows : Rows) : rows.Pages arguments id [] rows :=
  ⟨fun hs => ⟨_, hs, fun _ _ _ => rfl⟩, fun _ => ⟨rfl, fun _ _ _ _ => rfl⟩, rfl⟩

theorem trans (h : middle.Pages arguments kept counts source)
    (h' : rows.Pages arguments kept' counts' middle) :
    rows.Pages arguments (fun rs => kept' (kept rs)) (counts' ++ counts) source where
  projected hs := by
    obtain ⟨s', hs', hrecords⟩ := h.projected hs
    obtain ⟨s'', hs'', hrecords'⟩ := h'.projected hs'
    refine ⟨s'', hs'', fun engine db outer => ?_⟩
    rw [hrecords', hrecords]
  unprojected hs := by
    obtain ⟨hrow, hrecords⟩ := h.unprojected hs
    obtain ⟨hrow', hrecords'⟩ := h'.unprojected fun s' hs' => by
      obtain ⟨ls, hls, -⟩ := Rows.project_ok.1 hs'
      exact hs _ (Rows.project_ok.2 ⟨ls, hrow ▸ hls, rfl⟩)
    refine ⟨hrow'.trans hrow, fun items engine db outer => ?_⟩
    rw [hrecords', hrecords]
  counts := by rw [h'.counts, h.counts, List.append_assoc]

/-- A change of the statement that does not depend on what is selected. -/
theorem ofSelect (change : Select → Select)
    (hitems : ∀ items, change { source.select with items := items } =
      { change source.select with items := items })
    (hrecords : ∀ items engine db outer, (change { source.select with items := items }).records
      engine db arguments outer = kept (({ source.select with items := items } : Select).records
        engine db arguments outer))
    (hcounts : (change source.select).pageCounts = counts ++ source.select.pageCounts) :
    Rows.Pages arguments kept counts ⟨change source.select, source.row⟩ source where
  projected hs := by
    obtain ⟨ls, hls, rfl⟩ := Rows.project_ok.1 hs
    refine ⟨_, Rows.project_ok.2 ⟨ls, hls, rfl⟩, fun engine db outer => ?_⟩
    rw [← hrecords, hitems]
  unprojected _ := by
    refine ⟨rfl, fun items engine db outer => ?_⟩
    rw [← hrecords, hitems]
  counts := hcounts

theorem withOrigin (arguments : Arguments) (rows : Rows) (origin : Expr) :
    (rows.withOrigin origin).Pages arguments id [] rows := by
  refine ofSelect (fun s => { s with origin := some origin }) (fun _ => rfl) ?_ ?_
  · intro items engine db outer
    rw [Select.records_eq, Select.records_eq]
    rfl
  · rw [Select.pageCounts_eq, Select.pageCounts_eq]
    rfl

variable {count : SqlExpr} {c : Cell}

theorem withOffset (hlimit : rows.select.limit = none) (hoffset : rows.select.offset = none)
    (hc : ∀ engine db outer, count.cell engine db arguments [outer] outer = c) :
    (rows.withOffset count).Pages arguments (page none (c.count?.getD 0)) [count] rows := by
  refine ofSelect (fun s => { s with offset := some count }) (fun _ => rfl) ?_ ?_
  · intro items engine db outer
    rw [Select.records_eq, Select.records_eq]
    show page (optionCell engine db arguments rows.select.limit [outer] outer).count?
      ((count.cell engine db arguments [outer] outer).count?.getD 0) _ =
        page none _ (page (optionCell engine db arguments rows.select.limit [outer] outer).count?
          ((optionCell engine db arguments rows.select.offset [outer] outer).count?.getD 0) _)
    rw [hlimit, hoffset, hc]
    rfl
  · rw [Select.pageCounts_eq, Select.pageCounts_eq, hlimit, hoffset]
    rfl

theorem withLimit (hlimit : rows.select.limit = none)
    (hc : ∀ engine db outer, count.cell engine db arguments [outer] outer = c) :
    (rows.withLimit count).Pages arguments (page c.count? 0) [count] rows := by
  refine ofSelect (fun s => { s with limit := some count }) (fun _ => rfl) ?_ ?_
  · intro items engine db outer
    rw [Select.records_eq, Select.records_eq]
    show page (count.cell engine db arguments [outer] outer).count? _ _ =
      page _ 0 (page (optionCell engine db arguments rows.select.limit [outer] outer).count? _ _)
    rw [hlimit, hc]
    exact (page_page _ _ _).symm
  · rw [Select.pageCounts_eq, Select.pageCounts_eq, hlimit]
    rfl

theorem wrapIf {base : Rows} {condition : Bool} {node : Expr} {p q : Progress}
    (arguments : Arguments) (h : (rows.wrapIf condition node).run p = .ok (base, q)) :
    base.Pages arguments id [] rows := by
  obtain ⟨-, rfl, -⟩ | ⟨-, h⟩ := Rows.wrapIf_cases h
  · exact .refl arguments base
  · refine ⟨fun {node s} hs => ?_, fun {node} hs => ?_, ?_⟩
    · obtain ⟨found, s', hfound, hs', hrecords⟩ := Rows.project_wrap h node
      obtain rfl := Rows.project_node hs hfound
      exact ⟨s', hs', fun engine db outer => hrecords engine db arguments outer⟩
    · obtain ⟨s, -, hfound, -⟩ := Rows.project_wrap h node
      exact absurd hfound (hs s)
    · obtain ⟨s, hs, rfl, rfl⟩ := Rows.wrap_ok.1 h
      obtain ⟨ls, -, rfl⟩ := Rows.project_ok.1 hs
      rw [Select.pageCounts_eq]
      show Select.pageCounts _ = rows.select.pageCounts
      rw [Select.pageCounts_eq, Select.pageCounts_eq]

end Rows.Pages

section

variable {env : Surroundings} {arguments : Arguments} {scope : Scope} {p q : Progress}
  {rows : Rows} {i j : NodeId} {n : Int64} {source e below : Expr}

/-- A count that was passed as a constant is bound as it is. -/
theorem count_ok {count : Scalar} (hsupplied : env.Supplies arguments (.const j (.int n)))
    (h : (((Expr.const j (.int n)).meaning env).asScalar scope).run p = .ok (count, q)) :
    q = p ∧ ∀ engine db outer,
      count.expr.cell engine db arguments [outer] outer = .int64 n := by
  obtain ⟨b, m, hb, h⟩ := Build.run_bind_ok.1 h
  obtain ⟨hscalar, rfl⟩ := Build.run_lift_ok.1 h
  obtain ⟨found, m, hfound, h⟩ := Build.run_bind_ok.1 hb
  obtain ⟨rfl, rfl⟩ := Build.run_pure_ok.1 h
  cases hscalar
  simp only [Value.isNull, Bool.false_eq_true, if_false] at hfound
  cases hslot : env.slot? (Expr.const j (.int n)).id with
  | none =>
    rw [hslot] at hfound
    cases hfound
  | some slot =>
    rw [hslot] at hfound
    obtain ⟨rfl, rfl⟩ := Build.run_pure_ok.1 hfound
    exact ⟨rfl, fun engine db outer => cellIn_slot (hsupplied slot hslot 0 (.int n) rfl) outer⟩

/-- Rows that are what some counts, the outermost first, keep of the sequence below them. -/
def PagedBy (env : Surroundings) (arguments : Arguments) (scope : Scope) (p : Progress)
    (below : Expr) (kept : List Record → List Record) (ns : List Int64) (rows : Rows) : Prop :=
  ∃ source m counts, ((below.meaning env).asSequence false scope).run p = .ok (source, m) ∧
    (∀ engine db outer, counts.map (fun c => c.cell engine db arguments [outer] outer) =
      ns.map Cell.int64) ∧
    rows.Pages arguments kept counts source

theorem PagedBy.trans {ns : List Int64} {kept kept' : List Record → List Record}
    (h : PagedBy env arguments scope p source kept [n] rows)
    (hsource : ∀ before m, ((source.meaning env).asSequence false scope).run p = .ok (before, m) →
      PagedBy env arguments scope p below kept' ns before) :
    PagedBy env arguments scope p below (fun rs => kept (kept' rs)) (n :: ns) rows := by
  obtain ⟨before, m, counts, hbefore, hcells, hpages⟩ := h
  obtain ⟨rows', m', counts', hrun, hcells', hpages'⟩ := hsource before m hbefore
  refine ⟨rows', m', counts ++ counts', hrun, fun engine db outer => ?_, hpages'.trans hpages⟩
  rw [List.map_append, hcells, hcells']
  rfl

theorem skip_pages (hmarker : env.marker ≠ some i)
    (hsupplied : env.Supplies arguments (.const j (.int n)))
    (h : (((Expr.call i .skip [source, .const j (.int n)]).meaning env).asSequence false scope).run
      p = .ok (rows, q)) :
    PagedBy env arguments scope p source (List.drop n.toInt.toNat) [n] rows := by
  obtain ⟨built, hbuilt, rfl⟩ := (asSequence_call_ok hmarker).1 h
  simp only [callRows, meanings, argument, List.getElem?_cons_zero, List.getElem?_cons_succ,
    Build.run_bind_ok, Build.run_lift_ok, Build.run_pure_ok] at hbuilt
  obtain ⟨_, _, ⟨⟨⟩, rfl⟩, -, _, ⟨-, rfl⟩, before, m, hbefore, _, _, ⟨⟨⟩, rfl⟩, count, _, hcount,
    base, _, hbase, rfl, rfl⟩ := hbuilt
  obtain ⟨rfl, hcells⟩ := count_ok hsupplied hcount
  obtain ⟨hlimit, hoffset⟩ := Rows.unpaged_of_wrapIf hbase
  refine ⟨before, _, [count.expr], hbefore, fun engine db outer => ?_, ?_⟩
  · rw [List.map_singleton, List.map_singleton, hcells]
  · exact ((Rows.Pages.wrapIf arguments hbase).trans (.withOffset hlimit hoffset hcells)).trans
      (.withOrigin ..)

theorem take_pages (hmarker : env.marker ≠ some i)
    (hsupplied : env.Supplies arguments (.const j (.int n)))
    (h : (((Expr.call i .take [source, .const j (.int n)]).meaning env).asSequence false scope).run
      p = .ok (rows, q)) :
    PagedBy env arguments scope p source (List.take n.toInt.toNat) [n] rows := by
  obtain ⟨built, hbuilt, rfl⟩ := (asSequence_call_ok hmarker).1 h
  simp only [callRows, meanings, argument, List.getElem?_cons_zero, List.getElem?_cons_succ,
    Build.run_bind_ok, Build.run_lift_ok, Build.run_pure_ok] at hbuilt
  obtain ⟨_, _, ⟨⟨⟩, rfl⟩, -, _, ⟨-, rfl⟩, before, m, hbefore, _, _, ⟨⟨⟩, rfl⟩, count, _, hcount,
    base, _, hbase, rfl, rfl⟩ := hbuilt
  obtain ⟨rfl, hcells⟩ := count_ok hsupplied hcount
  have hlimit : base.select.limit = none :=
    Rows.holds_of_wrapIf (fun _ h => h.limit) (fun h => by simpa using h) hbase
  refine ⟨before, _, [count.expr], hbefore, fun engine db outer => ?_, ?_⟩
  · rw [List.map_singleton, List.map_singleton, hcells]
  · exact ((Rows.Pages.wrapIf arguments hbase).trans (.withLimit hlimit hcells)).trans
      (.withOrigin ..)

/-- Away from the paging marker each step of a run puts its own count into the statement. -/
theorem Expr.RunOver.pages (h : e.RunOver below) (hmarker : ∀ n ∈ e.nodes, env.marker ≠ some n.id)
    (hsupplied : ∀ n ∈ e.nodes, env.Supplies arguments n)
    (hrun : ((e.meaning env).asSequence false scope).run p = .ok (rows, q)) :
    PagedBy env arguments scope p below (fun rs => e.runRows rs) e.runCounts rows := by
  induction h generalizing rows q with
  | none hnone =>
    refine ⟨rows, q, [], hrun, fun _ _ _ => ?_, ?_⟩
    · rw [runCounts_of_none hnone]
      rfl
    · simp only [runRows_of_none hnone]
      exact .refl arguments rows
  | skip i j n h ih =>
    obtain ⟨hself, hnodes, -⟩ := call_nodes hmarker
    obtain ⟨-, hsource, hcount⟩ := call_nodes hsupplied
    exact (skip_pages hself (hcount _ List.mem_cons_self) hrun).trans fun _ _ => ih hnodes hsource
  | take i j n h ih =>
    obtain ⟨hself, hnodes, -⟩ := call_nodes hmarker
    obtain ⟨-, hsource, hcount⟩ := call_nodes hsupplied
    exact (take_pages hself (hcount _ List.mem_cons_self) hrun).trans fun _ _ => ih hnodes hsource

theorem asSequence_below (h : e.isPagingStep = false) :
    (e.meaning env).asSequence true scope = (e.meaning env).asSequence false scope := by
  cases e with
  | call i op args =>
    show sequenceOfCall env (.call i op args) op _ true scope =
      sequenceOfCall env (.call i op args) op _ false scope
    rw [sequenceOfCall, sequenceOfCall, h]
    rfl
  | _ => rfl

theorem Expr.RunOver.asSequence_inRun (h : e.RunOver below) :
    (e.meaning env).asSequence true scope = (below.meaning env).asSequence false scope := by
  induction h with
  | none h => exact asSequence_below h
  | skip _ _ _ _ ih | take _ _ _ _ ih => exact ih

theorem markerRows_pages {node : Expr} {op : Operator} {m : Meaning} {args : List Meaning}
    {s : Segment} (hop : op ≠ .segment) (hsegment : arguments.segment = some s)
    (h : (markerRows env node op (m :: args) scope).run p = .ok (rows, q)) :
    ∃ source r, (m.asSequence true scope).run p = .ok (source, r) ∧
      rows.Pages arguments (page s.lengthValue.cell.count? (s.startValue.cell.count?.getD 0))
        [.param .segmentLength, .param .segmentStart] source := by
  have hmarker : markerRows env node op (m :: args) scope = (do
      env.mustPage node
      let rows ← m.asSequence true scope
      let rows ← rows.wrapIf rows.select.hasPaging node
      modify fun p => { p with segmentUsed := true }
      let paged := (rows.withLimit (.param .segmentLength)).withOffset (.param .segmentStart)
      return paged.withOrigin node) := by
    cases op <;> first | rfl | exact absurd rfl hop
  simp only [hmarker, Build.run_bind_ok, Build.run_lift_ok, Build.run_pure_ok] at h
  obtain ⟨-, _, ⟨-, rfl⟩, source, r, hsource, base, _, hbase, -, _, -, rfl, rfl⟩ := h
  obtain ⟨hlimit, hoffset⟩ := Rows.unpaged_of_wrapIf hbase
  have hskipped : (base.withOffset (.param .segmentStart)).Pages arguments _ _ base :=
    .withOffset hlimit hoffset fun _ _ outer => cellIn_segmentStart hsegment outer
  have htaken : ((base.withOffset (.param .segmentStart)).withLimit
      (.param .segmentLength)).Pages arguments _ _ _ :=
    .withLimit hlimit fun _ _ outer => cellIn_segmentLength hsegment outer
  have hpaged := (((Rows.Pages.wrapIf arguments hbase).trans hskipped).trans htaken).trans
    (.withOrigin arguments _ node)
  refine ⟨source, r, hsource, ?_⟩
  simp only [id, page_page] at hpaged
  exact hpaged

/-- At the paging marker the segment of the run is asked for. -/
theorem Expr.RunOver.marker_pages {s : Segment} (hsegment : arguments.segment = some s)
    (hstep : e.isPagingStep) (h : e.RunOver below)
    (hrun : ((e.meaning { env with marker := some e.id }).asSequence false scope).run p =
      .ok (rows, q)) :
    ∃ source r, ((below.meaning { env with marker := some e.id }).asSequence false scope).run p =
      .ok (source, r) ∧ rows.Pages arguments
        (page s.lengthValue.cell.count? (s.startValue.cell.count?.getD 0))
        [.param .segmentLength, .param .segmentStart] source := by
  have hmarked : ∀ {i : NodeId} {op : Operator} {args : List Expr},
      (((Expr.call i op args).meaning { env with marker := some i }).asSequence false scope) =
        markerRows { env with marker := some i } (.call i op args) op
          (meanings { env with marker := some i } args) scope := by
    intro i op args
    show sequenceOfCall _ (.call i op args) op _ false scope = _
    rw [sequenceOfCall, if_neg (by simp)]
    exact if_pos rfl
  cases h with
  | none h =>
    rw [hstep] at h
    cases h
  | skip i j n h | take i j n h =>
    rw [← h.asSequence_inRun]
    exact markerRows_pages (by decide) hsegment ((congrArg (·.run p) hmarked).symm.trans hrun)

end

/-- What may be given as a number of rows: nothing, or a count that is not negative. -/
def Cell.IsCount : Cell → Prop
  | .null => True
  | .int64 n => 0 ≤ n.toInt
  | _ => False

theorem Segment.isCount_countValue (n : UInt64) : (countValue n).cell.IsCount := by
  have hlt : min n.toNat (countBound - 1) < countBound :=
    Nat.lt_of_le_of_lt (Nat.min_le_right _ _) (by decide)
  show 0 ≤ (Int64.ofNat (min n.toNat (countBound - 1))).toInt
  rw [Int64.toInt_ofNat_of_lt hlt]
  exact Int.natCast_nonneg _

theorem Segment.isCount_lengthValue (s : Segment) : s.lengthValue.cell.IsCount := by
  rw [lengthValue]
  cases s.length with
  | none => trivial
  | some n => exact isCount_countValue n

/-- Rows that are paged at the marker, where the command is given `x`, and step by step, where it is
given `y`, are the same as those of their source that the run leaves; those of the steps as long as
no count is negative. The marker binds two counts that can be given, the steps one each as it is. -/
structure PagedAlike (x y : Arguments) (e : Expr) (source marked stepped : Rows) : Prop where
  projected : ∀ {node s}, source.project node = .ok s → ∃ s' s'',
    marked.project node = .ok s' ∧ stepped.project node = .ok s'' ∧ ∀ engine db outer,
      (s.records engine db y outer).length < Segment.countBound →
        s'.records engine db x outer = e.runRows (s.records engine db y outer) ∧
          ((∀ n ∈ e.runCounts, 0 ≤ n.toInt) →
            s''.records engine db y outer = e.runRows (s.records engine db y outer))
  /-- Groups are paged as they are, whatever is selected of them besides the segment. -/
  unprojected : ∀ {node}, (∀ s, source.project node ≠ .ok s) →
    marked.row = source.row ∧ stepped.row = source.row ∧ ∀ items engine db outer rs,
      ({ source.select with items := items } : Select).records engine db x outer = rs →
      ({ source.select with items := items } : Select).records engine db y outer = rs →
      rs.length < Segment.countBound →
        ({ marked.select with items := items } : Select).records engine db x outer = e.runRows rs ∧
        ((∀ n ∈ e.runCounts, 0 ≤ n.toInt) →
          ({ stepped.select with items := items } : Select).records engine db y outer =
            e.runRows rs)
  markedCounts : marked.select.pageCounts =
    .param .segmentLength :: .param .segmentStart :: source.select.pageCounts
  markedBound : ∀ engine db outer, ∀ c ∈ [SqlExpr.param .segmentLength, .param .segmentStart],
    (c.cell engine db x [outer] outer).IsCount
  steppedCounts : ∃ counts, stepped.select.pageCounts = counts ++ source.select.pageCounts ∧
    ∀ engine db outer, counts.map (fun c => c.cell engine db y [outer] outer) =
        e.runCounts.map Cell.int64 ∧
      ((∀ c ∈ counts, (c.cell engine db y [outer] outer).IsCount) ↔ ∀ n ∈ e.runCounts, 0 ≤ n.toInt)

section

variable {env : Surroundings} {scope : Scope} {ns : List Expr} {site : Site}
  {start m p q : Progress} {source marked stepped : Rows} {e below : Expr}

theorem Expr.RunOver.nodes (h : e.RunOver below) : ∀ n ∈ below.nodes, n ∈ e.nodes := by
  induction h with
  | none => exact fun _ hn => hn
  | skip _ _ _ _ ih | take _ _ _ _ ih =>
    exact fun n hn => List.mem_cons_of_mem _ (List.mem_append_left _ (ih n hn))

theorem Rows.Fits.records_unmarked {node : Expr} {s : Select}
    (h : source.Fits { env with marker := none } ns site m start)
    (hs : source.project node = .ok s) (x y : Arguments) (hxy : x.constants = y.constants)
    (engine : Engine) (db : Database) (outer : Env) :
    s.records engine db x outer = s.records engine db y outer := by
  refine Select.Scoped.records_eq (fun source hsource => ?_) (fun _ _ => rfl) (h.project hs).1
  cases hsource with
  | slot | slotBehind => rw [Arguments.resolve, Arguments.resolve, hxy]
  | segmentStart hmarker | segmentLength hmarker => cases hmarker

/-- The steps bind values that may be given exactly when no count of the run is negative. -/
theorem isCount_iff {counts : List SqlExpr} {ns : List Int64} {cell : SqlExpr → Cell}
    (h : counts.map cell = ns.map Cell.int64) :
    (∀ c ∈ counts, (cell c).IsCount) ↔ ∀ n ∈ ns, 0 ≤ n.toInt := by
  have hcells : (∀ c ∈ counts.map cell, c.IsCount) ↔ ∀ c ∈ ns.map Cell.int64, c.IsCount := by
    rw [h]
  rw [List.forall_mem_map, List.forall_mem_map] at hcells
  exact hcells

/-- A run of paging steps leaves the same rows whether it is the paging marker or translated step by
step. -/
theorem pagingRun_alike (y : Arguments) (hstep : e.isPagingStep)
    (hid : ∀ n ∈ e.pagingRun.2.nodes, n.id ≠ e.id) (hmarker : ∀ n ∈ e.nodes, env.marker ≠ some n.id)
    (hsupplied : ∀ n ∈ e.nodes, env.Supplies y n) (hnodes : e.nodes ⊆ ns)
    (hscope : scope.Fits { env with marker := none } ns site start)
    (hmarked : ((e.meaning { env with marker := some e.id }).asSequence false scope).run start =
      .ok (marked, p))
    (hstepped : ((e.meaning env).asSequence false scope).run start = .ok (stepped, q)) :
    ∃ source m, ((e.pagingRun.2.meaning env).asSequence false scope).run start = .ok (source, m) ∧
      PagedAlike { y with segment := some e.pagingRun.1 } y e source marked stepped := by
  have hrun := e.runOver_pagingRun
  have hsame : e.pagingRun.2.meaning { env with marker := some e.id } =
      e.pagingRun.2.meaning { env with marker := none } :=
    meaning_ofMarker env _ _ _ fun n hn => ⟨fun heq => hid n hn (Option.some.inj heq).symm, nofun⟩
  have hsame' : e.pagingRun.2.meaning env = e.pagingRun.2.meaning { env with marker := none } :=
    meaning_ofMarker env env.marker _ _ fun n hn => ⟨hmarker n (hrun.nodes n hn), nofun⟩
  have hsegment : ({ y with segment := some e.pagingRun.1 } : Arguments).segment =
    some e.pagingRun.1 := rfl
  obtain ⟨source, m, hsource, hpages⟩ := hrun.marker_pages hsegment hstep hmarked
  obtain ⟨found, m', counts, hfound, hcells, hpages'⟩ := hrun.pages hmarker hsupplied hstepped
  rw [hsame] at hsource
  have hagain := hfound
  rw [hsame', hsource] at hagain
  cases hagain
  have hfits : source.Fits { env with marker := none } ns site m start :=
    ((meaning_fits _ _ fun n hn => hnodes (hrun.nodes n hn)).asSequence false hscope _ _ hsource).2
  have hpage : ∀ rs : List Record, rs.length < Segment.countBound →
      page e.pagingRun.1.lengthValue.cell.count?
        (e.pagingRun.1.startValue.cell.count?.getD 0) rs = e.runRows rs := by
    intro rs hrs
    rw [Segment.page_of_values hrs, hrun.rows (hrs.trans (by decide))]
  refine ⟨source, m, hfound, ?_, ?_, hpages.counts, ?_, counts, hpages'.counts, ?_⟩
  · intro node s hs
    obtain ⟨s', hs', hrecords⟩ := hpages.projected hs
    obtain ⟨s'', hs'', hrecords'⟩ := hpages'.projected hs
    refine ⟨s', s'', hs', hs'', fun engine db outer hlength => ⟨?_, fun _ => hrecords' engine db outer⟩⟩
    have hunmarked : s.records engine db { y with segment := some e.pagingRun.1 } outer =
        s.records engine db y outer :=
      hfits.records_unmarked hs { y with segment := some e.pagingRun.1 } y rfl engine db outer
    rw [hrecords, hunmarked, hpage _ hlength]
  · intro node hs
    obtain ⟨hrow, hrecords⟩ := hpages.unprojected hs
    obtain ⟨hrow', hrecords'⟩ := hpages'.unprojected hs
    refine ⟨hrow, hrow', fun items engine db outer rs hx hy hlength => ⟨?_, fun _ => ?_⟩⟩
    · rw [hrecords, hx, hpage rs hlength]
    · rw [hrecords', hy]
  · intro engine db outer
    refine List.forall_mem_cons.2 ⟨?_, List.forall_mem_singleton.2 ?_⟩
    · rw [SqlExpr.cell, Arguments.resolve]
      exact Segment.isCount_lengthValue _
    · rw [SqlExpr.cell, Arguments.resolve]
      exact Segment.isCount_countValue _
  · exact fun engine db outer => ⟨hcells engine db outer, isCount_iff (hcells engine db outer)⟩

end

namespace Form

/-- The second and the third person. -/
def secondAndThird : Expr :=
  .call 8 .take [.call 9 .skip [.entity 10 "Person", .const 11 (.int 1)], .const 12 (.int 2)]

def firstAdults (people : Expr) : Expr :=
  .call 0 .take
    [.call 1 .filter
      [people, .lambda 2 ["p"]
        (.binary 3 .greaterThan (.member 4 (.param 5 "p") "Age") (.const 6 (.int 18)))],
      .const 7 (.int 5)]

theorem pagingRun_alike_secondAndThird : ∃ source marked stepped,
    PagedAlike ⟨[.int 1, .int 2, .int 18, .int 5], some (.bounded 1 2)⟩
        ⟨[.int 1, .int 2, .int 18, .int 5], some (.bounded 0 5)⟩ secondAndThird source marked
        stepped ∧
      ∃ s, stepped.project secondAndThird = .ok s ∧ s.records integers fivePeople
        ⟨[.int 1, .int 2, .int 18, .int 5], some (.bounded 0 5)⟩ [] =
          [[("age", .int64 12)], [("age", .int64 41)]] := by
  let env : Surroundings := .ofExpr people (Postgres.dialect false)
    (firstAdults secondAndThird)
  have hnodes : ∀ n ∈ secondAndThird.nodes, n ∈ (firstAdults secondAndThird).nodes := fun n hn =>
    List.mem_cons_of_mem _ (List.mem_append_left _
      (List.mem_cons_of_mem _ (List.mem_append_left _ hn)))
  have hsupplied : ∀ n ∈ secondAndThird.nodes,
      env.Supplies ⟨[.int 1, .int 2, .int 18, .int 5], some (.bounded 0 5)⟩ n :=
    fun n hn => supplies_ofExpr _ _ (by decide) _ n (hnodes n hn)
  have hmarked : ((secondAndThird.meaning { env with marker := some 8 }).asSequence false []).run
    ⟨0, false⟩ = .ok _ := rfl
  have hstepped : ((secondAndThird.meaning env).asSequence false []).run ⟨0, false⟩ = .ok _ := rfl
  have hscope : Scope.Fits { env with marker := none } (firstAdults secondAndThird).nodes
    .outermost ⟨0, false⟩ [] := ⟨fun _ _ => trivial, List.forall_mem_nil _⟩
  obtain ⟨source, m, -, h⟩ := pagingRun_alike _ rfl (by decide) (by decide) hsupplied hnodes hscope
    hmarked hstepped
  exact ⟨source, _, _, h, _, rfl, rfl⟩

/-- A run that takes a negative number of rows before another: the number is bound as a limit. -/
theorem negativeCount_bound : ∃ f, ofExpr people (Postgres.dialect false)
      (firstAdults (.call 8 .take [.entity 10 "Person", .const 11 (.int (-1))])) = .ok f ∧
    f.select.pageCounts.map (fun c => c.cell integers fivePeople f.arguments [[]] []) =
      [.int64 5, .int64 0, .int64 (-1)] ∧ ¬(Cell.int64 (-1)).IsCount :=
  ⟨_, rfl, rfl, fun (h : 0 ≤ (-1 : Int64).toInt) => absurd h (by decide)⟩

end Form

end SequenceQuery
